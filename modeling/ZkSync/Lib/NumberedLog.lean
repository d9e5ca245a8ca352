import Mathlib.Data.List.GetD
import Mathlib.Data.List.Pairwise
import Mathlib.Tactic.Common

/-!
# Logs that are stored out of order

A log is written in segments. Every entry is stored under the number of its
segment and its place in it, and read back in no order at all: the reader sorts
by number and place. `numbered n segments` is the log in order, its segments
numbered from `n`.

* `sort_of_perm` — sorting brings back the log, whatever order it came in;
* `filter_numbered` — selecting a range of numbers selects those segments;
* `max?_numbered` — the greatest number among the entries is the last
  segment's, unless that segment is empty.

Nothing here names the rollup.
-/

namespace NumberedLog

universe u
variable {α : Type u}

/-- An entry with the number of its segment and its place there. -/
structure Entry (α : Type u) where
  segment : Nat
  place : Nat
  item : α
  deriving DecidableEq

/-- By segment, then by place. -/
def Entry.cmp (e e' : Entry α) : Ordering :=
  (compare e.segment e'.segment).then (compare e.place e'.place)

theorem isLE_cmp {e e' : Entry α} : (e.cmp e').isLE ↔
    e.segment < e'.segment ∨ e.segment = e'.segment ∧ e.place ≤ e'.place := by
  unfold Entry.cmp
  rw [Ordering.isLE_then_iff_and, Nat.isLE_compare]
  rcases Nat.lt_trichotomy e.segment e'.segment with h | h | h
  · simp [h, Nat.le_of_lt h, Nat.compare_eq_lt.mpr h]
  · simp [h, Nat.isLE_compare]
  · have : ¬ e.segment ≤ e'.segment := Nat.not_le_of_lt h
    simp [this, Nat.lt_asymm h, Nat.ne_of_gt h]

/-- One entry before another, never itself. -/
def Before (e e' : Entry α) : Prop :=
  e.segment < e'.segment ∨ e.segment = e'.segment ∧ e.place < e'.place

/-- The entries of one segment, from place `start` on. -/
def slice (segment start : Nat) (items : List α) : List (Entry α) :=
  (items.zipIdx start).map fun x => ⟨segment, x.2, x.1⟩

/-- The entries of the segments, numbered from `n`. -/
def numbered : Nat → List (List α) → List (Entry α)
  | _, [] => []
  | n, items :: segments => slice n 0 items ++ numbered (n + 1) segments

/-! ## One segment -/

section Slice

variable {n start : Nat} {items : List α}

@[simp] theorem slice_nil : slice n start ([] : List α) = [] := rfl

theorem slice_cons (item : α) :
    slice n start (item :: items) = ⟨n, start, item⟩ :: slice n (start + 1) items := rfl

theorem slice_append (items' : List α) :
    slice n start (items ++ items') = slice n start items ++ slice n (start + items.length) items' := by
  unfold slice
  rw [List.zipIdx_append, List.map_append]

theorem segment_of_mem_slice {e : Entry α} (h : e ∈ slice n start items) : e.segment = n := by
  obtain ⟨x, -, rfl⟩ := List.mem_map.mp h
  rfl

theorem map_item_slice : (slice n start items).map Entry.item = items := by
  induction items generalizing start with
  | nil => rfl
  | cons item items ih => rw [slice_cons, List.map_cons, ih]

theorem place_of_mem_slice {e : Entry α} (h : e ∈ slice n start items) : start ≤ e.place := by
  induction items generalizing start with
  | nil => cases h
  | cons item items ih =>
    rw [slice_cons] at h
    cases h with
    | head => exact Nat.le_refl _
    | tail _ h => exact Nat.le_of_succ_le (ih h)

theorem before_slice : (slice n start items).Pairwise Before := by
  induction items generalizing start with
  | nil => exact .nil
  | cons item items ih =>
    rw [slice_cons]
    refine .cons (fun e he => Or.inr ⟨(segment_of_mem_slice he).symm, ?_⟩) ih
    exact Nat.lt_of_succ_le (place_of_mem_slice he)

end Slice

/-! ## The whole log -/

section Numbered

variable {n : Nat} {segments : List (List α)}

theorem numbered_append (segments' : List (List α)) :
    numbered n (segments ++ segments') =
      numbered n segments ++ numbered (n + segments.length) segments' := by
  induction segments generalizing n with
  | nil => rfl
  | cons items segments ih =>
    have hlen : n + (items :: segments).length = n + 1 + segments.length := by
      rw [List.length_cons]
      omega
    rw [List.cons_append, numbered, numbered, ih, List.append_assoc, hlen]

theorem segment_of_mem {e : Entry α} (h : e ∈ numbered n segments) :
    n ≤ e.segment ∧ e.segment < n + segments.length := by
  induction segments generalizing n with
  | nil => cases h
  | cons items segments ih =>
    rw [numbered, List.mem_append] at h
    rw [List.length_cons]
    rcases h with h | h
    · have := segment_of_mem_slice h
      omega
    · have := ih h
      omega

theorem map_item_numbered : (numbered n segments).map Entry.item = segments.flatten := by
  induction segments generalizing n with
  | nil => rfl
  | cons items segments ih =>
    rw [numbered, List.map_append, map_item_slice, ih, List.flatten_cons]

theorem before_numbered : (numbered n segments).Pairwise Before := by
  induction segments generalizing n with
  | nil => exact .nil
  | cons items segments ih =>
    refine List.pairwise_append.mpr ⟨before_slice, ih, fun e he e' he' => Or.inl ?_⟩
    rw [segment_of_mem_slice he]
    exact Nat.lt_of_succ_le (segment_of_mem he').1

/-- An empty segment has no entries. -/
theorem numbered_append_nil : numbered n (segments ++ [[]]) = numbered n segments := by
  rw [numbered_append]
  exact List.append_nil _

/-- The last segment grows at its end. -/
theorem numbered_grow (items items' : List α) :
    numbered n (segments ++ [items ++ items']) =
      numbered n (segments ++ [items]) ++ slice (n + segments.length) items.length items' := by
  have hone : ∀ items : List α, numbered n (segments ++ [items]) =
      numbered n segments ++ slice (n + segments.length) 0 items := fun items => by
    rw [numbered_append, numbered, numbered, List.append_nil]
  rw [hone, hone, slice_append, Nat.zero_add, List.append_assoc]

/-- Selecting a range of numbers selects these segments. -/
theorem filter_numbered {a b : Nat} (hab : a ≤ b) :
    (numbered 0 segments).filter (fun e => decide (a < e.segment ∧ e.segment ≤ b)) =
      numbered (a + 1) ((segments.take (b + 1)).drop (a + 1)) := by
  -- the segments up to `a`, those in the range, and those behind `b`
  have hsplit : segments = segments.take (a + 1) ++
      ((segments.take (b + 1)).drop (a + 1) ++ segments.drop (b + 1)) := by
    have htake : segments.take (a + 1) = (segments.take (b + 1)).take (a + 1) := by
      rw [List.take_take, Nat.min_eq_left (Nat.succ_le_succ hab)]
    rw [← List.append_assoc, htake, List.take_append_drop, List.take_append_drop]
  have hfirst : ∀ e ∈ numbered 0 (segments.take (a + 1)),
      ¬ decide (a < e.segment ∧ e.segment ≤ b) = true := by
    intro e he
    have hlt := (segment_of_mem he).2
    rw [List.length_take] at hlt
    simp only [decide_eq_true_eq]
    omega
  by_cases hlen : a + 1 ≤ segments.length
  · conv_lhs => rw [hsplit]
    rw [numbered_append, numbered_append, List.filter_append, List.filter_append,
      List.filter_eq_nil_iff.mpr hfirst, List.nil_append, List.length_take,
      Nat.min_eq_left hlen, Nat.zero_add, List.filter_eq_self.mpr, List.filter_eq_nil_iff.mpr,
      List.append_nil]
    · intro e he
      have hge := (segment_of_mem he).1
      have hpos : segments.drop (b + 1) ≠ [] := fun hnil => by
        rw [hnil] at he
        cases he
      have hlt : b + 1 < segments.length := by
        rw [Ne, List.drop_eq_nil_iff] at hpos
        omega
      rw [List.length_drop, List.length_take] at hge
      simp only [decide_eq_true_eq]
      omega
    · intro e he
      obtain ⟨hge, hlt⟩ := segment_of_mem he
      rw [List.length_drop, List.length_take] at hlt
      simp only [decide_eq_true_eq]
      omega
  · have hall : segments.take (a + 1) = segments := List.take_of_length_le (by omega)
    have hnone : (segments.take (b + 1)).drop (a + 1) = [] := by
      rw [List.drop_eq_nil_iff, List.length_take]
      omega
    rw [hall] at hfirst
    rw [List.filter_eq_nil_iff.mpr hfirst, hnone, numbered]

/-- Selecting one number selects its segment. -/
theorem filter_segment {a : Nat} :
    (numbered 0 segments).filter (fun e => decide (e.segment = a)) =
      slice a 0 (segments.getD a []) := by
  by_cases hlt : a < segments.length
  · have hsplit : segments =
        segments.take a ++ (segments.getD a [] :: segments.drop (a + 1)) := by
      rw [List.getD_eq_getElem _ _ hlt, ← List.drop_eq_getElem_cons hlt, List.take_append_drop]
    have hlen : (segments.take a).length = a := by
      rw [List.length_take]
      omega
    conv_lhs => rw [hsplit]
    rw [numbered_append, hlen, Nat.zero_add, numbered, List.filter_append, List.filter_append,
      List.filter_eq_nil_iff.mpr, List.nil_append, List.filter_eq_self.mpr,
      List.filter_eq_nil_iff.mpr, List.append_nil]
    · intro e he
      have := (segment_of_mem he).1
      simp only [decide_eq_true_eq]
      omega
    · intro e he
      simp [segment_of_mem_slice he]
    · intro e he
      have hlt' := (segment_of_mem he).2
      rw [hlen] at hlt'
      simp only [decide_eq_true_eq]
      omega
  · rw [List.getD_eq_default _ _ (Nat.le_of_not_lt hlt), slice_nil]
    refine List.filter_eq_nil_iff.mpr fun e he => ?_
    have := (segment_of_mem he).2
    simp only [decide_eq_true_eq]
    omega

/-- The greatest number of an entry, when the last segment is not empty. -/
theorem max?_numbered {items : List α} (hne : items ≠ []) :
    ((numbered n (segments ++ [items])).map Entry.segment).max? = some (n + segments.length) := by
  rw [List.max?_eq_some_iff]
  constructor
  · obtain ⟨item, rest, rfl⟩ := List.exists_cons_of_ne_nil hne
    refine List.mem_map.mpr ⟨⟨n + segments.length, 0, item⟩, ?_, rfl⟩
    rw [numbered_append]
    exact List.mem_append_right _ (List.mem_append_left _ List.mem_cons_self)
  · intro m hm
    obtain ⟨e, he, rfl⟩ := List.mem_map.mp hm
    have := (segment_of_mem he).2
    rw [List.length_append, List.length_singleton] at this
    omega

end Numbered

/-! ## Sorting -/

section Sorting

variable {l log : List (Entry α)}

theorem le_of_before {e e' : Entry α} (h : Before e e') : (e.cmp e').isLE := by
  rw [isLE_cmp]
  rcases h with h | ⟨h, h'⟩
  · exact Or.inl h
  · exact Or.inr ⟨h, Nat.le_of_lt h'⟩

theorem before_asymm {e e' : Entry α} (h : Before e e') : ¬ (e'.cmp e).isLE := by
  rw [isLE_cmp]
  unfold Before at h
  omega

/-- Two entries of a log that are not after each other are one entry. -/
theorem eq_of_le {e e' : Entry α} (hlog : log.Pairwise Before) (he : e ∈ log) (he' : e' ∈ log)
    (h : (e.cmp e').isLE) (h' : (e'.cmp e).isLE) : e = e' := by
  have htotal : e = e' ∨ Before e e' ∨ Before e' e :=
    List.Pairwise.forall_of_forall_of_flip (R := fun e e' => e = e' ∨ Before e e' ∨ Before e' e)
      (fun _ _ => Or.inl rfl) (hlog.imp fun hb => Or.inr (Or.inl hb))
      (hlog.imp fun hb => Or.inr (Or.inr hb)) he he'
  rcases htotal with heq | hb | hb
  · exact heq
  · exact absurd h' (before_asymm hb)
  · exact absurd h (before_asymm hb)

/-- Sorting brings back the log. -/
theorem sort_of_perm (hlog : log.Pairwise Before) (hperm : l.Perm log) :
    l.mergeSort (fun e e' => (e.cmp e').isLE) = log := by
  have hantisymm : ∀ e e', e ∈ l.mergeSort (fun e e' => (e.cmp e').isLE) → e' ∈ log →
      (e.cmp e').isLE = true → (e'.cmp e).isLE = true → e = e' := by
    intro e e' he he' h h'
    exact eq_of_le hlog (hperm.mem_iff.mp ((List.mergeSort_perm l _).mem_iff.mp he)) he' h h'
  refine List.Perm.eq_of_pairwise hantisymm ?_ ?_ ((List.mergeSort_perm l _).trans hperm)
  · refine List.pairwise_mergeSort (fun e₁ e₂ e₃ h h' => ?_) (fun e e' => ?_) l
    · rw [isLE_cmp] at *
      omega
    · rw [Bool.or_eq_true, isLE_cmp, isLE_cmp]
      omega
  · exact hlog.imp le_of_before

end Sorting

end NumberedLog
