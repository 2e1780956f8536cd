import HardLight.State.Apply
import HardLight.State.Controller
import Mathlib.Data.Finset.Defs

/-!
# A group of fields

What the change lists of write sessions do to some of the fields, with no regard to the others.

* `on`, `updatesOn` : a state and a change list, cut down to a group;
* `changes_on`, `applyChanges_on` : diff and apply, cut down, are those of what is cut down;
* `listsOn`, `foldl_patch_on` : the lists that have an update of the group, cut down, and what they leave of it;
  `listsOn_cons_eraseIdx` : which of them may be taken to the front;
* `follows_commit` : the lists stay the deltas of the commits, on every group;
* `applyChanges_provenance` : what a list leaves in a field was there or is the value of one of its updates.
-/

namespace HardLight
open Lib

namespace StateStruct
variable (S : StateStruct)

/-- The state with every field outside of the group at its default. -/
def on (K : Finset (Fin S.fields)) (s : S.State) : S.State := fun i => if i ∈ K then s i else S.default i

/-- The update names a field of the group. -/
def names (K : Finset (Fin S.fields)) (u : StateUpdate) : Bool :=
  if h : u.index < S.fields then decide (⟨u.index, h⟩ ∈ K) else false

def updatesOn (K : Finset (Fin S.fields)) (changes : List StateUpdate) : List StateUpdate :=
  changes.filter (S.names K)

/-- The lists that have an update of the group, cut down to the group. -/
def listsOn (K : Finset (Fin S.fields)) (lists : List (List StateUpdate)) : List (List StateUpdate) :=
  (lists.map (S.updatesOn K)).filter fun changes => !changes.isEmpty

variable {S} {K : Finset (Fin S.fields)}

theorem on_eq_iff {s t : S.State} : S.on K s = S.on K t ↔ ∀ i ∈ K, s i = t i := by
  constructor
  · intro h i hi
    simpa [on, hi] using congrFun h i
  · intro h
    funext i
    by_cases hi : i ∈ K
    · simp [on, hi, h i hi]
    · simp [on, hi]

theorem names_field {i : Fin S.fields} (data : Bytes) :
    S.names K { index := i.val, data := data } = decide (i ∈ K) := by
  rw [names, dif_pos i.isLt]

theorem changesOn_on (start current : S.State) (is : List (Fin S.fields)) :
    S.changesOn (S.on K start) (S.on K current) is = S.updatesOn K (S.changesOn start current is) := by
  induction is with
  | nil => rfl
  | cons i is ih =>
    unfold changesOn updatesOn at ih ⊢
    rw [List.filterMap_cons, List.filterMap_cons, ih]
    by_cases hsame : current i = start i
    · simp [on, hsame]
    · by_cases hi : i ∈ K
      · simp [on, hi, hsame, names_field]
      · simp [on, hi, hsame, names_field]

/-- **The change list of a session, cut down, is the one of what is cut down.** -/
theorem changes_on (start current : S.State) :
    S.changes (S.on K start) (S.on K current) = S.updatesOn K (S.changes start current) :=
  changesOn_on start current _

theorem assign_on (s : S.State) (u : StateUpdate) :
    S.on K (S.assign s u) = if S.names K u then S.assign (S.on K s) u else S.on K s := by
  unfold assign names
  by_cases h : u.index < S.fields
  · rw [dif_pos h, dif_pos h, dif_pos h]
    cases hvalue : S.fromBytes ⟨u.index, h⟩ u.data with
    | none => simp
    | some value =>
      funext j
      by_cases hj : j = ⟨u.index, h⟩
      · subst hj
        by_cases hk : (⟨u.index, h⟩ : Fin S.fields) ∈ K <;> simp [on, hk]
      · by_cases hk : (⟨u.index, h⟩ : Fin S.fields) ∈ K <;> simp [on, hk, hj]
  · rw [dif_neg h, dif_neg h, dif_neg h]
    simp

theorem applyChanges_of_decodes (s : S.State) {changes : List StateUpdate}
    (h : ∀ u ∈ changes, S.decodes u = true) : (S.applyChanges s changes).1 = changes.foldl S.assign s := by
  rw [← List.append_nil changes, applyChanges_append s h, List.append_nil]
  rfl

/-- **Applying a list, cut down, is applying what is cut down.** -/
theorem applyChanges_on (s : S.State) {changes : List StateUpdate} (h : ∀ u ∈ changes, S.decodes u = true) :
    S.on K (S.applyChanges s changes).1 = (S.applyChanges (S.on K s) (S.updatesOn K changes)).1 := by
  have hon : ∀ u ∈ S.updatesOn K changes, S.decodes u = true := fun u hu => h u (List.mem_of_mem_filter hu)
  rw [applyChanges_of_decodes s h, applyChanges_of_decodes (S.on K s) hon]
  clear h hon
  induction changes generalizing s with
  | nil => rfl
  | cons u changes ih =>
    unfold updatesOn at ih ⊢
    rw [List.foldl_cons, ih, assign_on, List.filter_cons]
    by_cases hu : S.names K u = true
    · rw [if_pos hu, if_pos hu, List.foldl_cons]
    · rw [if_neg hu, if_neg hu]

theorem listsOn_append (lists lists' : List (List StateUpdate)) :
    S.listsOn K (lists ++ lists') = S.listsOn K lists ++ S.listsOn K lists' := by
  rw [listsOn, List.map_append, List.filter_append]
  rfl

theorem listsOn_cons (changes : List StateUpdate) (lists : List (List StateUpdate)) :
    S.listsOn K (changes :: lists) =
      (if S.updatesOn K changes = [] then [] else [S.updatesOn K changes]) ++ S.listsOn K lists := by
  rw [← List.singleton_append, listsOn_append]
  by_cases h : S.updatesOn K changes = [] <;> simp [listsOn, h]

theorem listsOn_eq_nil {lists : List (List StateUpdate)} (h : ∀ changes ∈ lists, S.updatesOn K changes = []) :
    S.listsOn K lists = [] := by
  rw [listsOn, List.filter_eq_nil_iff]
  intro changes hmem
  obtain ⟨whole, hwhole, rfl⟩ := List.mem_map.mp hmem
  simp [h whole hwhole]

/-- Taking a list to the front leaves the group alone when it has nothing of it, or no list before it has. -/
theorem listsOn_cons_eraseIdx {lists : List (List StateUpdate)} {n : Nat} {changes : List StateUpdate}
    (hget : lists[n]? = some changes)
    (horder : S.updatesOn K changes = [] ∨ ∀ earlier ∈ lists.take n, S.updatesOn K earlier = [])
    (front : List (List StateUpdate)) :
    S.listsOn K (front ++ changes :: lists.eraseIdx n) = S.listsOn K (front ++ lists) := by
  obtain ⟨hn, rfl⟩ := List.getElem?_eq_some_iff.mp hget
  have hsplit : lists = lists.take n ++ lists[n] :: lists.drop (n + 1) := by
    rw [← List.drop_eq_getElem_cons hn, List.take_append_drop]
  rw [listsOn_append, listsOn_append, List.eraseIdx_eq_take_drop_succ]
  congr 1
  conv_rhs => rw [hsplit]
  rw [listsOn_cons, listsOn_append, listsOn_append, listsOn_cons]
  rcases horder with hnone | hnone
  · rw [if_pos hnone]
    rfl
  · rw [listsOn_eq_nil hnone]
    rfl

/-! ## Where values come from -/

/-- **What `apply_changes` leaves in a field was in it before, or is what one of the updates says.** -/
theorem applyChanges_provenance {Q : ∀ i, S.Field i → Prop} {changes : List StateUpdate} {s : S.State}
    (hs : ∀ i, Q i (s i))
    (hupdates : ∀ u ∈ changes, ∀ i x, u.index = i.val → S.fromBytes i u.data = some x → Q i x)
    (i : Fin S.fields) : Q i ((S.applyChanges s changes).1 i) := by
  induction changes generalizing s with
  | nil => exact hs i
  | cons u changes ih =>
    rw [applyChanges]
    split
    next h =>
      split
      next value hvalue =>
        refine ih (fun j => ?_) fun v hv => hupdates v (List.mem_cons_of_mem u hv)
        by_cases hj : j = ⟨u.index, h⟩
        · subst hj
          rw [Function.update_self]
          exact hupdates u List.mem_cons_self _ _ rfl hvalue
        · rw [Function.update_of_ne hj]
          exact hs j
      next => exact hs i
    next => exact ih hs fun v hv => hupdates v (List.mem_cons_of_mem u hv)

theorem mem_changes {start current : S.State} {u : StateUpdate} (h : u ∈ S.changes start current) :
    ∃ i : Fin S.fields, u = { index := i.val, data := S.toBytes i (current i) } := by
  obtain ⟨i, -, hu⟩ := List.mem_filterMap.mp h
  rw [Option.ite_none_right_eq_some] at hu
  exact ⟨i, (Option.some.inj hu.2).symm⟩

end StateStruct

namespace LawfulStateStruct
variable {S : LawfulStateStruct}

theorem decodes_changes {start current : S.State} : ∀ u ∈ S.changes start current, S.decodes u = true := by
  intro u hu
  obtain ⟨i, rfl⟩ := StateStruct.mem_changes hu
  rw [StateStruct.decodes, dif_pos i.isLt]
  simp only [Fin.eta, S.fromBytes_toBytes, Option.isSome_some]

variable {K : Finset (Fin S.fields)}

theorem mem_diff {start current : S.State} {changes : List StateUpdate}
    (h : changes ∈ (S.delta.diff start current).toList) : changes = S.changes start current := by
  have hdiff : S.delta.diff start current = some changes := Option.mem_toList.mp h
  change (if S.changes start current = [] then none else some (S.changes start current)) = some changes at hdiff
  rw [Option.ite_none_left_eq_some, Option.some.injEq] at hdiff
  exact hdiff.2.symm

/-- The delta of a session, cut down, is what its list leaves in the line of the group. -/
theorem diff_on (start current : S.State) : (S.delta.diff (S.on K start) (S.on K current)).toList =
    S.listsOn K (S.delta.diff start current).toList := by
  change (if S.changes (S.on K start) (S.on K current) = [] then none
    else some (S.changes (S.on K start) (S.on K current))).toList =
      S.listsOn K (if S.changes start current = [] then none else some (S.changes start current)).toList
  rw [StateStruct.changes_on]
  by_cases hempty : S.changes start current = []
  · rw [if_pos hempty, hempty]
    rfl
  · rw [if_neg hempty, Option.toList_some, StateStruct.listsOn_cons]
    split <;> rfl

theorem follows_commit {h : List S.State} {x start : S.State} {lists : List (List StateUpdate)} {m : Nat}
    (hf : S.delta.Follows (h.map (S.on K)) x (S.listsOn K lists) m) (hlast : h.getLast? = some start)
    (next : S.State) : S.delta.Follows ((h ++ [next]).map (S.on K)) x
      (S.listsOn K (lists ++ (S.delta.diff start next).toList)) m := by
  have hnext := hf.commit (by rw [List.getLast?_map, hlast, Option.map_some]) (S.on K next)
  rw [diff_on, ← StateStruct.listsOn_append] at hnext
  rw [List.map_append, List.map_singleton]
  exact hnext

theorem decodes_append_diff (start next : S.State) {lists : List (List StateUpdate)}
    (h : ∀ changes ∈ lists, ∀ u ∈ changes, S.decodes u = true) :
    ∀ changes ∈ lists ++ (S.delta.diff start next).toList, ∀ u ∈ changes, S.decodes u = true := by
  intro changes hmem
  rcases List.mem_append.mp hmem with hold | hnew
  · exact h changes hold
  · rw [mem_diff hnew]
    exact decodes_changes

/-- **Applying lists one after the other, cut down, is applying those of the group.** -/
theorem foldl_patch_on (s : S.State) {lists : List (List StateUpdate)}
    (h : ∀ changes ∈ lists, ∀ u ∈ changes, S.decodes u = true) :
    S.on K (lists.foldl S.delta.patch s) = (S.listsOn K lists).foldl S.delta.patch (S.on K s) := by
  induction lists generalizing s with
  | nil => rfl
  | cons changes lists ih =>
    have hon : S.on K (S.delta.patch s changes) = S.delta.patch (S.on K s) (S.updatesOn K changes) :=
      StateStruct.applyChanges_on s (h changes List.mem_cons_self)
    rw [List.foldl_cons, ih _ fun other hmem => h other (List.mem_cons_of_mem changes hmem), hon,
      StateStruct.listsOn_cons]
    by_cases hempty : S.updatesOn K changes = []
    · rw [if_pos hempty, List.nil_append, hempty]
      rfl
    · rw [if_neg hempty, List.singleton_append, List.foldl_cons]

end LawfulStateStruct

end HardLight
