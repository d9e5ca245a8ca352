import Mathlib.Data.Finmap

/-!
# Finite maps as hash tables

The server keeps its accounts, balances and indices in hash tables. Here a
table is Mathlib's `Finmap`: two tables with the same lookups are equal, and
no iteration order can be observed. This file adds what a proof about a run
asks of a table and Mathlib does not state:

* `lookup_insert_if` / `lookup_erase_if` — the lookup after a write, as one
  `if` over the key, the form a frame argument rewrites with;
* `filter` — the entries that pass a test;
* `size` — the number of entries, and how a write moves it.

Nothing here names the rollup.
-/

namespace Finmap

universe u v
variable {K : Type u} {V : Type v} [DecidableEq K]

/-! ## Lookups after a write -/

theorem lookup_insert_if (m : Finmap fun _ : K => V) (k k' : K) (v : V) :
    (m.insert k v).lookup k' = if k' = k then some v else m.lookup k' := by
  by_cases h : k' = k
  · subst h
    rw [if_pos rfl, lookup_insert]
  · rw [if_neg h, lookup_insert_of_ne m h]

theorem lookup_erase_if (m : Finmap fun _ : K => V) (k k' : K) :
    (m.erase k).lookup k' = if k' = k then none else m.lookup k' := by
  by_cases h : k' = k
  · subst h
    rw [if_pos rfl, lookup_erase]
  · rw [if_neg h, lookup_erase_ne h]

/-- A write after an erasure of the same key forgets the erasure. -/
theorem insert_erase (m : Finmap fun _ : K => V) (k : K) (v : V) :
    (m.erase k).insert k v = m.insert k v := by
  refine ext_lookup fun k' => ?_
  rw [lookup_insert_if, lookup_insert_if, lookup_erase_if]
  split <;> rfl

/-- Writing back what is stored changes nothing. -/
theorem insert_of_lookup {m : Finmap fun _ : K => V} {k : K} {v : V}
    (h : m.lookup k = some v) : m.insert k v = m := by
  refine ext_lookup fun k' => ?_
  rw [lookup_insert_if]
  split
  next hk => rw [hk, h]
  next => rfl

/-- Reading entries with distinct keys into a table. -/
theorem lookup_foldl_insert_entries {l : List (Sigma fun _ : K => V)} (h : l.NodupKeys) (k : K) :
    ∀ m : Finmap fun _ : K => V,
      (l.foldl (fun m e => m.insert e.1 e.2) m).lookup k = (l.dlookup k).or (m.lookup k) := by
  induction l with
  | nil => exact fun _ => rfl
  | cons e l ih =>
    intro m
    obtain ⟨key, v⟩ := e
    obtain ⟨hnot, hl⟩ := List.nodupKeys_cons.mp h
    rw [List.foldl_cons, ih hl, lookup_insert_if]
    by_cases hk : k = key
    · subst hk
      rw [if_pos rfl, List.dlookup_eq_none.mpr hnot, List.dlookup_cons_eq]
      rfl
    · rw [if_neg hk, List.dlookup_cons_ne l ⟨key, v⟩ hk]

theorem foldl_insert_entries (order : AList fun _ : K => V) :
    order.entries.foldl (fun m e => m.insert e.1 e.2) ∅ = order.toFinmap := by
  refine ext_lookup fun k => ?_
  rw [lookup_foldl_insert_entries order.nodupKeys, lookup_empty, Option.or_none]
  rfl

/-! ## Dropping entries -/

omit [DecidableEq K] in
/-- The entries that pass a test. -/
def filter (p : K → V → Bool) (m : Finmap fun _ : K => V) : Finmap fun _ : K => V where
  entries := m.entries.filter fun e => p e.1 e.2
  nodupKeys := by
    have h := m.nodupKeys
    rw [← Multiset.nodup_keys] at h ⊢
    exact Multiset.nodup_of_le (Multiset.map_le_map (Multiset.filter_le _ _)) h

theorem lookup_filter (p : K → V → Bool) (m : Finmap fun _ : K => V) (k : K) :
    (m.filter p).lookup k = (m.lookup k).filter (p k) := by
  refine Option.ext fun v => ?_
  rw [← Option.mem_def, mem_lookup_iff, Option.filter_eq_some_iff, ← Option.mem_def,
    mem_lookup_iff]
  exact Multiset.mem_filter

/-! ## Number of entries -/

/-- How many keys the table holds. -/
def size (m : Finmap fun _ : K => V) : Nat := m.keys.card

theorem keys_insert (m : Finmap fun _ : K => V) (k : K) (v : V) :
    (m.insert k v).keys = Insert.insert k m.keys := by
  ext k'
  rw [mem_keys, mem_insert, Finset.mem_insert, mem_keys]

theorem size_insert_of_mem {m : Finmap fun _ : K => V} {k : K} (h : k ∈ m) (v : V) :
    (m.insert k v).size = m.size := by
  unfold size
  rw [keys_insert, Finset.insert_eq_of_mem (mem_keys.mpr h)]

theorem size_insert_of_notMem {m : Finmap fun _ : K => V} {k : K} (h : k ∉ m) (v : V) :
    (m.insert k v).size = m.size + 1 := by
  unfold size
  rw [keys_insert, Finset.card_insert_of_notMem (fun hk => h (mem_keys.mp hk))]

omit [DecidableEq K] in
/-- Tables over the same keys have the same size. -/
theorem size_congr {m m' : Finmap fun _ : K => V} (h : ∀ k, k ∈ m ↔ k ∈ m') :
    m.size = m'.size := by
  have hk : m.keys = m'.keys := by
    ext k
    rw [mem_keys, mem_keys, h]
  unfold size
  rw [hk]

end Finmap
