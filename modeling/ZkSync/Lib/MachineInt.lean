import Mathlib.Algebra.Group.Nat.Defs
import ZkSync.Lib.Outcome

/-!
# Machine integers

Counters and indices of the server. An overflow is a panic in a build with overflow
checks and wraps in one without. A length is a natural number: no list in memory has
`2 ^ 64` elements.
-/

namespace ZkSync

/-- Subtraction of `usize`. -/
def usizeSub (overflowChecks : Bool) (a b : Nat) : Outcome Nat :=
  if b ≤ a then .ok (a - b)
  else if overflowChecks then .error (.panic "attempt to subtract with overflow")
  else .ok (a + 2 ^ 64 - b)

/-- `+= 1` of a `u32`. -/
def u32Increment (overflowChecks : Bool) (n : UInt32) : Outcome UInt32 := do
  Outcome.assert (overflowChecks = false ∨ n.toNat + 1 < 2 ^ 32) "attempt to add with overflow"
  return n + 1

/-- `+= 1` of a `u64`. -/
def u64Increment (overflowChecks : Bool) (n : UInt64) : Outcome UInt64 := do
  Outcome.assert (overflowChecks = false ∨ n.toNat + 1 < 2 ^ 64) "attempt to add with overflow"
  return n + 1

/-- Addition of `u64`. -/
def u64Add (overflowChecks : Bool) (a b : UInt64) : Outcome UInt64 := do
  Outcome.assert (overflowChecks = false ∨ a.toNat + b.toNat < 2 ^ 64) "attempt to add with overflow"
  return a + b

/-- `list[start..]`. -/
def sliceFrom {α : Type} (list : List α) (start : Nat) : Outcome (List α) := do
  Outcome.assert (start ≤ list.length)
    ("range start index " ++ toString start ++ " out of range for slice of length " ++
      toString list.length)
  return list.drop start

end ZkSync
