import Mathlib.Data.List.AList

/-!
# Finite maps

`HashMap K V` is Mathlib's `AList`: the entries with the proof that no key occurs twice. The order of
the entries is the iteration order, about which nothing is used.

* `lookup_insert_if`, `lookup_erase_if`, `lookup_eraseAll` : what an update does to every key;
* `len_insert_of_fresh` : a new key makes the map one entry longer;
* `isEmpty_iff` : a map is empty when no key has a value;
* `values` : the values in iteration order; `count_values_le_one`, `mem_values`.
-/

namespace HardLight.Lib

/-- A finite map with the invariant that no key occurs twice. -/
abbrev HashMap (K V : Type) := AList fun _ : K => V

namespace HashMap

variable {K V : Type} [DecidableEq K]

def len (m : HashMap K V) : Nat := m.entries.length

def isEmpty (m : HashMap K V) : Bool := m.entries.isEmpty

/-- The values in iteration order. -/
def values (m : HashMap K V) : List V := m.entries.map Sigma.snd

/-- Remove the keys `ks` one after the other. -/
def eraseAll (m : HashMap K V) (ks : List K) : HashMap K V := ks.foldl (fun m k => m.erase k) m

theorem lookup_insert_if (m : HashMap K V) (k k' : K) (v : V) :
    (m.insert k v).lookup k' = if k' = k then some v else m.lookup k' := by
  split
  next h => rw [h, AList.lookup_insert]
  next h => rw [AList.lookup_insert_ne h]

theorem lookup_erase_if (m : HashMap K V) (k k' : K) :
    (m.erase k).lookup k' = if k' = k then none else m.lookup k' := by
  split
  next h => rw [h, AList.lookup_erase]
  next h => rw [AList.lookup_erase_ne h]

theorem lookup_eraseAll (ks : List K) (m : HashMap K V) (k' : K) :
    (m.eraseAll ks).lookup k' = if k' ∈ ks then none else m.lookup k' := by
  induction ks generalizing m with
  | nil => simp [eraseAll]
  | cons k ks ih =>
    have hunfold : m.eraseAll (k :: ks) = HashMap.eraseAll (m.erase k) ks := rfl
    rw [hunfold, ih, lookup_erase_if]
    by_cases hks : k' ∈ ks <;> by_cases hk : k' = k <;> simp [hks, hk]

theorem len_insert_of_fresh {m : HashMap K V} {k : K} (h : m.lookup k = none) (v : V) :
    len (m.insert k v) = len m + 1 := by
  rw [AList.lookup_eq_none] at h
  rw [len, len, AList.entries_insert_of_notMem h, List.length_cons]

theorem mem_entries_iff {m : HashMap K V} {k : K} {v : V} :
    (⟨k, v⟩ : Sigma fun _ : K => V) ∈ m.entries ↔ m.lookup k = some v :=
  AList.mem_lookup_iff.symm

theorem isEmpty_iff {m : HashMap K V} : isEmpty m = true ↔ ∀ k, m.lookup k = none := by
  rw [isEmpty, List.isEmpty_iff]
  constructor
  · intro h k
    rw [AList.lookup_eq_none, AList.mem_keys, AList.keys, h]
    simp
  · intro h
    rw [List.eq_nil_iff_forall_not_mem]
    rintro ⟨k, v⟩ hm
    rw [mem_entries_iff, h k] at hm
    cases hm

theorem len_eq_zero_iff {m : HashMap K V} : len m = 0 ↔ ∀ k, m.lookup k = none := by
  rw [← isEmpty_iff, len, isEmpty, List.isEmpty_iff, List.length_eq_zero_iff]

theorem mem_values {m : HashMap K V} {v : V} : v ∈ values m ↔ ∃ k, m.lookup k = some v := by
  simp only [values, List.mem_map, Sigma.exists, mem_entries_iff]
  constructor
  · rintro ⟨k, v', h, rfl⟩
    exact ⟨k, h⟩
  · rintro ⟨k, h⟩
    exact ⟨k, v, h, rfl⟩

theorem count_values_le_one [DecidableEq V] {m : HashMap K V} {v : V}
    (h : ∀ k k', m.lookup k = some v → m.lookup k' = some v → k = k') : (values m).count v ≤ 1 := by
  have hkeys : (m.entries.map Sigma.fst).Nodup := m.nodupKeys
  have hmem : ∀ e ∈ m.entries, m.lookup e.1 = some e.2 := fun e he => mem_entries_iff.mp he
  unfold values
  generalize m.entries = es at hkeys hmem
  induction es with
  | nil => simp
  | cons e es ih =>
    rw [List.map_cons, List.nodup_cons] at hkeys
    have hrest := ih hkeys.2 fun e' he' => hmem e' (List.mem_cons_of_mem e he')
    rw [List.map_cons, List.count_cons]
    by_cases hv : e.2 = v
    · have hnone : v ∉ es.map Sigma.snd := by
        intro hin
        obtain ⟨e', he', rfl⟩ := List.mem_map.mp hin
        have heq : e.1 = e'.1 :=
          h _ _ (hv ▸ hmem e List.mem_cons_self) (hmem e' (List.mem_cons_of_mem e he'))
        exact hkeys.1 (heq ▸ List.mem_map_of_mem he')
      rw [List.count_eq_zero_of_not_mem hnone]
      simp [hv]
    · simpa [hv] using hrest

end HashMap

end HardLight.Lib
