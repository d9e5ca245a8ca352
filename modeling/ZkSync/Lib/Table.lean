import Mathlib.Tactic.Common
import ZkSync.Lib.FinMap

/-!
# Tables with a primary key

A table of a database: its rows, no two of which have the same primary key. An
insert that would make a second row of a key fails. The rows are in no
particular order, but every query here answers in one.

`toFinmap` reads a table as a map from keys to values, one row at a time, the
way a program builds a hash table from the rows it has selected.

Nothing here names the rollup.
-/

universe u v w

/-- Rows of type `R`, whose primary key is `key`. -/
structure Table (R : Type u) {K : Type v} (key : R → K) where
  rows : List R
  nodup : (rows.map key).Nodup

namespace Table

variable {R : Type u} {K : Type v} {key : R → K} [DecidableEq K]

instance : EmptyCollection (Table R key) := ⟨⟨[], List.nodup_nil⟩⟩

/-- The row with this key. -/
def find (t : Table R key) (k : K) : Option R := t.rows.find? fun row => key row = k

/-- `INSERT INTO`; a conflict of keys is an error. -/
def insert (t : Table R key) (row : R) : Option (Table R key) :=
  if h : key row ∈ t.rows.map key then none
  else some ⟨t.rows ++ [row], by
    rw [List.map_append, List.map_singleton]
    exact List.nodup_append.mpr ⟨t.nodup, List.nodup_singleton _, fun k hk k' hk' => by
      rw [List.mem_singleton.mp hk']
      exact fun heq => h (heq ▸ hk)⟩⟩

/-- `INSERT INTO … ON CONFLICT DO NOTHING`. -/
def insertNew (t : Table R key) (row : R) : Table R key := (t.insert row).getD t

/-- `DELETE FROM` the rows that `p` does not keep. -/
def retain (t : Table R key) (p : R → Bool) : Table R key where
  rows := t.rows.filter p
  nodup := t.nodup.sublist (List.filter_sublist.map key)

/-- `INSERT INTO … ON CONFLICT DO UPDATE`: the row takes the place of the row of its key. -/
def upsert (t : Table R key) (row : R) : Table R key where
  rows := (t.retain fun row' => key row' ≠ key row).rows ++ [row]
  nodup := by
    rw [List.map_append, List.map_singleton]
    refine List.nodup_append.mpr ⟨(t.retain _).nodup, List.nodup_singleton _, fun k hk k' hk' => ?_⟩
    obtain ⟨row', hrow', rfl⟩ := List.mem_map.mp hk
    rw [List.mem_singleton.mp hk']
    exact of_decide_eq_true (List.mem_filter.mp hrow').2

/-- `UPDATE … WHERE` the key is `k`; without such a row nothing happens. -/
def modify (t : Table R key) (k : K) (f : R → R) : Table R key :=
  match t.find k with
  | some row => t.upsert (f row)
  | none => t

/-- `SELECT … WHERE … LIMIT 1` without an order: any row that satisfies the condition,
and nothing if none does. -/
def SelectsOne (t : Table R key) (p : R → Prop) : Option R → Prop
  | some row => row ∈ t.rows ∧ p row
  | none => ∀ row ∈ t.rows, ¬ p row

/-! ## Finding a row -/

section Find

variable {t t' : Table R key}

@[simp] theorem find_empty (k : K) : (∅ : Table R key).find k = none := rfl

theorem find_eq_some {k : K} {row : R} : t.find k = some row ↔ row ∈ t.rows ∧ key row = k := by
  constructor
  · intro h
    exact ⟨List.mem_of_find?_eq_some h, by simpa using List.find?_some h⟩
  · rintro ⟨hmem, rfl⟩
    cases hfind : t.find (key row) with
    | none =>
      have := List.find?_eq_none.mp hfind row hmem
      simp at this
    | some row' =>
      have hmem' := List.mem_of_find?_eq_some hfind
      have hkey : key row' = key row := by simpa using List.find?_some hfind
      rw [List.inj_on_of_nodup_map t.nodup hmem' hmem hkey]

theorem find_eq_none {k : K} : t.find k = none ↔ ∀ row ∈ t.rows, key row ≠ k := by
  unfold find
  rw [List.find?_eq_none]
  simp

theorem mem_keys {k : K} : k ∈ t.rows.map key ↔ (t.find k).isSome := by
  rw [Option.isSome_iff_exists, List.mem_map]
  exact exists_congr fun row => find_eq_some.symm

theorem insert_eq_some {row : R} :
    t.insert row = some t' ↔ t.find (key row) = none ∧ t'.rows = t.rows ++ [row] := by
  unfold insert
  split
  next h =>
    rw [mem_keys] at h
    refine ⟨fun heq => (by cases heq), fun ⟨hnone, _⟩ => ?_⟩
    rw [hnone] at h
    cases h
  next h =>
    rw [mem_keys, Option.not_isSome_iff_eq_none] at h
    refine ⟨fun heq => ?_, fun ⟨_, hrows⟩ => ?_⟩
    · rw [← Option.some.inj heq]
      exact ⟨h, rfl⟩
    · cases t'
      cases hrows
      rfl

theorem find_of_rows {row : R} (hnone : t.find (key row) = none) (hrows : t'.rows = t.rows ++ [row])
    (k : K) : t'.find k = if k = key row then some row else t.find k := by
  unfold find
  rw [hrows, List.find?_append]
  by_cases hk : k = key row
  · subst hk
    unfold find at hnone
    rw [hnone, if_pos rfl]
    simp
  · rw [if_neg hk, List.find?_singleton, if_neg (by simpa using fun h => hk h.symm), Option.or_none]

theorem find_retain (p : R → Bool) (k : K) :
    (t.retain p).find k = (t.find k).filter p := by
  refine Option.ext fun row => ?_
  rw [Option.filter_eq_some_iff, find_eq_some, find_eq_some]
  show row ∈ t.rows.filter p ∧ _ ↔ _
  rw [List.mem_filter]
  tauto

theorem find_upsert (row : R) (k : K) :
    (t.upsert row).find k = if k = key row then some row else t.find k := by
  have hnone : (t.retain fun row' => key row' ≠ key row).find (key row) = none := by
    rw [find_retain]
    refine Option.filter_eq_none_iff.mpr fun row' h => ?_
    simp [(find_eq_some.mp h).2]
  rw [find_of_rows hnone rfl]
  split
  next => rfl
  next hk =>
    rw [find_retain]
    refine Option.ext fun row' => ?_
    rw [Option.filter_eq_some_iff]
    refine ⟨fun h => h.1, fun h => ⟨h, ?_⟩⟩
    simp [(find_eq_some.mp h).2, hk]

theorem mem_upsert {row row' : R} :
    row' ∈ (t.upsert row).rows ↔ row' = row ∨ (row' ∈ t.rows ∧ key row' ≠ key row) := by
  show row' ∈ t.rows.filter _ ++ [row] ↔ _
  rw [List.mem_append, List.mem_filter, List.mem_singleton, decide_eq_true_eq]
  exact Or.comm

theorem mem_insertNew {row row' : R} :
    row' ∈ (t.insertNew row).rows ↔ row' ∈ t.rows ∨ (row' = row ∧ t.find (key row) = none) := by
  unfold insertNew insert
  split
  next h =>
    rw [mem_keys] at h
    have hne : t.find (key row) ≠ none := fun hnone => by
      rw [hnone] at h
      cases h
    rw [Option.getD_none]
    exact ⟨Or.inl, fun h => h.elim id fun h => absurd h.2 hne⟩
  next h =>
    rw [mem_keys, Option.not_isSome_iff_eq_none] at h
    rw [Option.getD_some, List.mem_append, List.mem_singleton]
    exact or_congr_right ⟨fun heq => ⟨heq, h⟩, fun heq => heq.1⟩

theorem find_modify {f : R → R} (hf : ∀ row, key (f row) = key row) (k k' : K) :
    (t.modify k f).find k' = if k' = k then (t.find k).map f else t.find k' := by
  unfold modify
  split
  next row h =>
    rw [find_upsert, hf, (find_eq_some.mp h).2, h]
    rfl
  next h =>
    rw [h]
    split
    next hk => rw [hk, h]; rfl
    next => rfl

end Find

/-! ## Reading a table into a map -/

section Reading

variable {V : Type w}

/-- The values of the rows under their keys, in the order of the rows. -/
def collect {J : Type v} [DecidableEq J] (key' : R → J) (value : R → V) (rows : List R) :
    Finmap fun _ : J => V :=
  rows.foldl (fun m row => m.insert (key' row) (value row)) ∅

theorem lookup_foldl_insert {J : Type v} [DecidableEq J] {key' : R → J} {value : R → V} :
    ∀ {rows : List R} (m : Finmap fun _ : J => V), (rows.map key').Nodup → ∀ k,
      (rows.foldl (fun m row => m.insert (key' row) (value row)) m).lookup k =
        ((rows.find? fun row => key' row = k).map value).or (m.lookup k)
  | [], _, _, _ => rfl
  | row :: rows, m, hnodup, k => by
    rw [List.map_cons, List.nodup_cons] at hnodup
    rw [List.foldl_cons, lookup_foldl_insert _ hnodup.2, List.find?_cons, Finmap.lookup_insert_if]
    by_cases hk : key' row = k
    · subst hk
      have hnone : (rows.find? fun row' => key' row' = key' row) = none := by
        refine List.find?_eq_none.mpr fun row' hrow' => ?_
        simp only [decide_eq_true_eq]
        exact fun heq => hnodup.1 (heq ▸ List.mem_map_of_mem hrow')
      simp [hnone]
    · simp [hk, Ne.symm hk]

theorem lookup_collect {J : Type v} [DecidableEq J] {key' : R → J} {value : R → V} {rows : List R}
    (hnodup : (rows.map key').Nodup) (k : J) :
    (collect key' value rows).lookup k = (rows.find? fun row => key' row = k).map value := by
  unfold collect
  rw [lookup_foldl_insert _ hnodup, Finmap.lookup_empty, Option.or_none]

end Reading

end Table
