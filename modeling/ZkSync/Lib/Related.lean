import Mathlib.Data.Option.Basic
import Mathlib.Logic.Relator
import ZkSync.Lib.Outcome

/-!
# Two runs of one call

`Related R x y`: the calls `x` and `y` both fail, with the same failure, or
both return, with values that `R` relates. A call is compared with the same
call on related arguments by walking both in step: `bind` for each line,
`same` where both lines are equal, `ok` at the end.

Nothing here names the rollup.
-/

section Rel

variable {α : Type*} {R : α → α → Prop} {o o' : Option α}

/-- Related options are both present or both absent. -/
theorem rel_isSome (h : Option.Rel R o' o) : o'.isSome ↔ o.isSome := by
  cases h with
  | none => exact Iff.rfl
  | some => exact Iff.rfl

theorem rel_some {a : α} (h : Option.Rel R o' o) (ho : o = some a) :
    ∃ a', o' = some a' ∧ R a' a := by
  cases h with
  | none => cases ho
  | some hr =>
    obtain rfl := Option.some.inj ho
    exact ⟨_, rfl, hr⟩

theorem rel_none (h : Option.Rel R o' o) (ho : o = none) : o' = none := by
  cases h with
  | none => rfl
  | some => cases ho

end Rel

namespace Outcome

variable {ε α β γ δ : Type}

inductive Related (R : α → β → Prop) : Except ε α → Except ε β → Prop
  | ok {a : α} {b : β} (h : R a b) : Related R (.ok a) (.ok b)
  | error (e : ε) : Related R (.error e) (.error e)

namespace Related

variable {R : α → β → Prop} {Q : γ → δ → Prop} {x : Except ε α} {y : Except ε β}

theorem bind {f : α → Except ε γ} {g : β → Except ε δ} (h : Related R x y)
    (hfg : ∀ a b, R a b → Related Q (f a) (g b)) : Related Q (x >>= f) (y >>= g) := by
  cases h with
  | ok h => exact hfg _ _ h
  | error e => exact .error e

/-- Both sides run the same call. -/
theorem same {f : α → Except ε γ} {g : α → Except ε δ} (x : Except ε α)
    (hfg : ∀ a, Related Q (f a) (g a)) : Related Q (x >>= f) (x >>= g) := by
  cases x with
  | ok a => exact hfg a
  | error e => exact .error e

theorem map {f : α → γ} {g : β → δ} (h : Related R x y) (hfg : ∀ a b, R a b → Q (f a) (g b)) :
    Related Q (f <$> x) (g <$> y) := by
  cases h with
  | ok h => exact .ok (hfg _ _ h)
  | error e => exact .error e

theorem mono {R' : α → β → Prop} (hR : ∀ a b, R a b → R' a b) (h : Related R x y) :
    Related R' x y := by
  cases h with
  | ok h => exact .ok (hR _ _ h)
  | error e => exact .error e

theorem of_ok {a : α} (h : Related R x y) (hx : x = .ok a) : ∃ b, y = .ok b ∧ R a b := by
  cases h with
  | ok h =>
    obtain rfl := Except.ok.inj hx
    exact ⟨_, rfl, h⟩
  | error e => cases hx

theorem of_ok_right {b : β} (h : Related R x y) (hy : y = .ok b) : ∃ a, x = .ok a ∧ R a b := by
  cases h with
  | ok h =>
    obtain rfl := Except.ok.inj hy
    exact ⟨_, rfl, h⟩
  | error e => cases hy

theorem of_error {e : ε} (h : Related R x y) (hx : x = .error e) : y = .error e := by
  cases h with
  | ok h => cases hx
  | error e' =>
    obtain rfl := Except.error.inj hx
    rfl

end Related

variable {R : α → β → Prop} {o : Option α} {o' : Option β}

theorem related_expect (h : Option.Rel R o o') (message : String) :
    Related R (expect o message) (expect o' message) := by
  cases h with
  | none => exact .error _
  | some h => exact .ok h

theorem related_okOrElse (h : Option.Rel R o o') (message : String) :
    Related R (okOrElse o message) (okOrElse o' message) := by
  cases h with
  | none => exact .error _
  | some h => exact .ok h

end Outcome
