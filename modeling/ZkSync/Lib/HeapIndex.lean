import Mathlib.Tactic.Common
import Mathlib.Algebra.Order.Ring.Nat
import Mathlib.Data.Nat.Log

/-!
# Positions in a binary tree, numbered as in a heap

The root is 1 and the children of `a` are `a * 2` and `a * 2 + 1`, so the path
from a position to the root is repeated halving. `Covers a m` says that `a`
lies on the path from `m` up (`a = m` included); `InLevel d a` says that `a` is
one of the `2 ^ d` positions at depth `d`.

A tree that is stored sparsely is described with these two words: which
positions are occupied, and which of them a stored child covers. The facts
below are the whole geometry needed for it: `Covers` is a partial order, two
positions covering a third are comparable (`covers_total`), and below a
position one goes either left or right, never both (`covers_child`,
`not_covers_both`).

Nothing here names the rollup.
-/

namespace HeapIndex

/-- `a` lies on the path from `m` to the root. -/
def Covers (a m : Nat) : Prop := ∃ k, m / 2 ^ k = a

/-- `a` is a position at depth `d`. -/
def InLevel (d a : Nat) : Prop := 2 ^ d ≤ a ∧ a < 2 ^ (d + 1)

/-! ## The order -/

theorem covers_refl (a : Nat) : Covers a a := ⟨0, by rw [Nat.pow_zero, Nat.div_one]⟩

theorem covers_trans {a b c : Nat} (h : Covers a b) (h' : Covers b c) : Covers a c := by
  obtain ⟨k, hk⟩ := h
  obtain ⟨l, hl⟩ := h'
  exact ⟨l + k, by rw [Nat.pow_add, ← Nat.div_div_eq_div_mul, hl, hk]⟩

theorem covers_half (m : Nat) : Covers (m / 2) m := ⟨1, by rw [Nat.pow_one]⟩

theorem covers_div (m k : Nat) : Covers (m / 2 ^ k) m := ⟨k, rfl⟩

theorem Covers.le {a m : Nat} (h : Covers a m) : a ≤ m := by
  obtain ⟨k, rfl⟩ := h
  exact Nat.div_le_self m (2 ^ k)

theorem covers_antisymm {a b : Nat} (h : Covers a b) (h' : Covers b a) : a = b :=
  Nat.le_antisymm h.le h'.le

/-- Two positions on one path are comparable. -/
theorem covers_total {a b m : Nat} (ha : Covers a m) (hb : Covers b m) :
    Covers a b ∨ Covers b a := by
  obtain ⟨j, rfl⟩ := ha
  obtain ⟨k, rfl⟩ := hb
  rcases Nat.le_total j k with h | h
  · refine Or.inr ⟨k - j, ?_⟩
    rw [Nat.div_div_eq_div_mul, ← Nat.pow_add, Nat.add_sub_cancel' h]
  · refine Or.inl ⟨j - k, ?_⟩
    rw [Nat.div_div_eq_div_mul, ← Nat.pow_add, Nat.add_sub_cancel' h]

/-- A position covered strictly is covered by the half as well. -/
theorem Covers.half {a m : Nat} (h : Covers a m) (hne : a ≠ m) : Covers a (m / 2) := by
  obtain ⟨k, hk⟩ := h
  cases k with
  | zero =>
    rw [Nat.pow_zero, Nat.div_one] at hk
    exact absurd hk.symm hne
  | succ k => exact ⟨k, by rw [Nat.div_div_eq_div_mul, ← Nat.pow_succ', hk]⟩

/-! ## Left and right -/

theorem covers_left (a : Nat) : Covers a (a * 2) := ⟨1, by omega⟩

theorem covers_right (a : Nat) : Covers a (a * 2 + 1) := ⟨1, by omega⟩

/-- Strictly below a position one goes left or right. -/
theorem covers_child {a m : Nat} (h : Covers a m) (hne : a ≠ m) :
    Covers (a * 2) m ∨ Covers (a * 2 + 1) m := by
  obtain ⟨k, hk⟩ := h
  cases k with
  | zero =>
    rw [Nat.pow_zero, Nat.div_one] at hk
    exact absurd hk.symm hne
  | succ k =>
    have h2 : m / 2 ^ k / 2 = a := by rw [Nat.div_div_eq_div_mul, ← Nat.pow_succ, hk]
    rcases Nat.mod_two_eq_zero_or_one (m / 2 ^ k) with h | h
    · exact Or.inl ⟨k, by omega⟩
    · exact Or.inr ⟨k, by omega⟩

/-- Never both. -/
theorem not_covers_both {a m : Nat} (ha : 0 < a) (hl : Covers (a * 2) m)
    (hr : Covers (a * 2 + 1) m) : False := by
  have hup : ∀ {b c : Nat}, Covers b c → b = c ∨ b ≤ c / 2 := by
    intro b c h
    by_cases hbc : b = c
    · exact Or.inl hbc
    · exact Or.inr (h.half hbc).le
  rcases covers_total hl hr with h | h
  · rcases hup h with h | h <;> omega
  · have := h.le
    omega

/-! ## Levels -/

theorem InLevel.pos {d a : Nat} (h : InLevel d a) : 0 < a :=
  Nat.lt_of_lt_of_le (Nat.two_pow_pos d) h.1

theorem inLevel_zero {a : Nat} : InLevel 0 a ↔ a = 1 := by
  unfold InLevel
  omega

theorem InLevel.unique {d e a : Nat} (h : InLevel d a) (h' : InLevel e a) : d = e := by
  have h1 : 2 ^ d < 2 ^ (e + 1) := Nat.lt_of_le_of_lt h.1 h'.2
  have h2 : 2 ^ e < 2 ^ (d + 1) := Nat.lt_of_le_of_lt h'.1 h.2
  have h3 := (Nat.pow_lt_pow_iff_right (by decide)).mp h1
  have h4 := (Nat.pow_lt_pow_iff_right (by decide)).mp h2
  omega

theorem InLevel.left {d a : Nat} (h : InLevel d a) : InLevel (d + 1) (a * 2) := by
  obtain ⟨h1, h2⟩ := h
  refine ⟨?_, ?_⟩ <;> rw [Nat.pow_succ] <;> omega

theorem InLevel.right {d a : Nat} (h : InLevel d a) : InLevel (d + 1) (a * 2 + 1) := by
  obtain ⟨h1, h2⟩ := h
  refine ⟨?_, ?_⟩ <;> rw [Nat.pow_succ] <;> omega

/-- Going up `k` levels. -/
theorem InLevel.div {d a : Nat} (k : Nat) (h : InLevel (d + k) a) : InLevel d (a / 2 ^ k) := by
  obtain ⟨h1, h2⟩ := h
  have hk : 0 < 2 ^ k := Nat.two_pow_pos k
  refine ⟨(Nat.le_div_iff_mul_le hk).mpr ?_, (Nat.div_lt_iff_lt_mul hk).mpr ?_⟩
  · rw [← Nat.pow_add]
    exact h1
  · rw [← Nat.pow_add, show d + 1 + k = d + k + 1 by omega]
    exact h2

theorem InLevel.half {d a : Nat} (h : InLevel (d + 1) a) : InLevel d (a / 2) := by
  have := InLevel.div 1 h
  rwa [Nat.pow_one] at this

/-- A covering position is the one at its own depth on the path. -/
theorem Covers.eq_div {a m d e : Nat} (h : Covers a m) (ha : InLevel d a) (hm : InLevel e m) :
    d ≤ e ∧ a = m / 2 ^ (e - d) := by
  obtain ⟨k, rfl⟩ := h
  rcases Nat.le_total k e with hk | hk
  · have hlev : InLevel (e - k) (m / 2 ^ k) :=
      InLevel.div k (by rwa [Nat.sub_add_cancel hk])
    have hd := ha.unique hlev
    refine ⟨by omega, ?_⟩
    rw [hd, Nat.sub_sub_self hk]
  · have h0 : m / 2 ^ k ≤ 1 := by
      have hle : m / 2 ^ k ≤ m / 2 ^ e :=
        Nat.div_le_div_left (Nat.pow_le_pow_right (by decide) hk) (Nat.two_pow_pos e)
      have h1 : InLevel 0 (m / 2 ^ e) := InLevel.div e (by rwa [Nat.zero_add])
      rw [inLevel_zero.mp h1] at hle
      exact hle
    have hpos := ha.pos
    have ha1 : m / 2 ^ k = 1 := by omega
    have hd := ha.unique (inLevel_zero.mpr ha1)
    have h1 : InLevel 0 (m / 2 ^ e) := InLevel.div e (by rwa [Nat.zero_add])
    refine ⟨by omega, ?_⟩
    rw [hd, Nat.sub_zero, inLevel_zero.mp h1, ha1]

/-- Covering strictly means lying at a smaller depth. -/
theorem Covers.depth_lt {a m d e : Nat} (h : Covers a m) (ha : InLevel d a) (hm : InLevel e m)
    (hne : a ≠ m) : d < e := by
  obtain ⟨hle, heq⟩ := h.eq_div ha hm
  rcases Nat.lt_or_eq_of_le hle with hlt | rfl
  · exact hlt
  · rw [Nat.sub_self, Nat.pow_zero, Nat.div_one] at heq
    exact absurd heq hne

end HeapIndex
