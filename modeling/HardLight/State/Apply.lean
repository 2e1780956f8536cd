import HardLight.State.Update
import Mathlib.Data.List.Induction

/-!
# What a list of updates leaves behind

`ClientState::apply_changes` on any list of updates: repeated, unordered and unknown indices, any bytes. It
assigns field by field and leaves at the first update that does not decode; nothing takes back what was
assigned before.

* `assign`, `applyChanges_append` : as long as the updates decode the loop is a fold;
* `decodes_or_split` : a list decodes, or has a first update that does not;
* `Holds`, `holds_foldl_assign` : what such a fold leaves in a field, the last update naming it;
* `applyChanges_appliesUpTo` : what the call returns and what it leaves in every field;
* `half_applied` : after an error the state need not be what it was.
-/

namespace HardLight

namespace StateStruct
variable (S : StateStruct)

/-- The update names a field and its bytes are not a value of it. -/
def Undecodable (u : StateUpdate) : Prop := ∃ h : u.index < S.fields, S.fromBytes ⟨u.index, h⟩ u.data = none

def decodes (u : StateUpdate) : Bool :=
  if h : u.index < S.fields then (S.fromBytes ⟨u.index, h⟩ u.data).isSome else true

/-- One update that decodes. -/
def assign (s : S.State) (u : StateUpdate) : S.State :=
  if h : u.index < S.fields then
    match S.fromBytes ⟨u.index, h⟩ u.data with
    | some value => Function.update s ⟨u.index, h⟩ value
    | none => s
  else s

/-- `x` is what the updates leave in field `i` of `s`. -/
inductive Holds (s : S.State) (updates : List StateUpdate) (i : Fin S.fields) (x : S.Field i) : Prop
  | written (pre post : List StateUpdate) (u : StateUpdate) (heq : updates = pre ++ u :: post)
      (hnames : u.index = i.val) (hlast : ∀ v ∈ post, v.index ≠ i.val)
      (hdecodes : S.fromBytes i u.data = some x)
  | kept (hnone : ∀ u ∈ updates, u.index ≠ i.val) (hsame : x = s i)

/-- **Last write wins, up to the first update that does not decode.** -/
structure AppliesUpTo (s : S.State) (updates : List StateUpdate) (r : S.State × HandlerResult Unit) :
    Prop where
  fails_iff : (∃ e, r.2 = .error e) ↔ ∃ u ∈ updates, S.Undecodable u
  complete : r.2 = .ok () → ∀ i, S.Holds s updates i (r.1 i)
  stopped : ∀ e, r.2 = .error e → e = .clientDecodeError ∧ ∃ pre u post, updates = pre ++ u :: post ∧
    S.Undecodable u ∧ (∀ v ∈ pre, ¬ S.Undecodable v) ∧ ∀ i, S.Holds s pre i (r.1 i)
  unknown : S.applyChanges s (updates.filter fun u => u.index < S.fields) = r

variable {S}

theorem decodes_eq_false_iff {u : StateUpdate} : S.decodes u = false ↔ S.Undecodable u := by
  unfold decodes Undecodable
  by_cases h : u.index < S.fields
  · rw [dif_pos h, Option.isSome_eq_false_iff, Option.isNone_iff_eq_none]
    exact ⟨fun hn => ⟨h, hn⟩, fun ⟨_, hn⟩ => hn⟩
  · rw [dif_neg h]
    exact ⟨fun hn => (by cases hn), fun ⟨hi, _⟩ => absurd hi h⟩

theorem decodes_iff {u : StateUpdate} : S.decodes u = true ↔ ¬ S.Undecodable u := by
  rw [← decodes_eq_false_iff, Bool.not_eq_false]

theorem applyChanges_cons_of_decodes {s : S.State} {u : StateUpdate} (h : S.decodes u = true)
    (rest : List StateUpdate) : S.applyChanges s (u :: rest) = S.applyChanges (S.assign s u) rest := by
  rw [applyChanges]
  unfold decodes at h
  unfold assign
  by_cases hi : u.index < S.fields
  · rw [dif_pos hi] at h ⊢
    rw [dif_pos hi]
    obtain ⟨value, hvalue⟩ := Option.isSome_iff_exists.mp h
    simp only [hvalue]
  · rw [dif_neg hi, dif_neg hi]

theorem applyChanges_cons_of_undecodable {s : S.State} {u : StateUpdate} (h : S.Undecodable u)
    (rest : List StateUpdate) : S.applyChanges s (u :: rest) = (s, .error .clientDecodeError) := by
  obtain ⟨hi, hnone⟩ := h
  rw [applyChanges, dif_pos hi]
  simp only [hnone]

/-- As long as the updates decode the loop is a fold. -/
theorem applyChanges_append (s : S.State) {pre : List StateUpdate} (hpre : ∀ v ∈ pre, S.decodes v = true)
    (rest : List StateUpdate) :
    S.applyChanges s (pre ++ rest) = S.applyChanges (pre.foldl S.assign s) rest := by
  induction pre generalizing s with
  | nil => rfl
  | cons v pre ih =>
    rw [List.cons_append, applyChanges_cons_of_decodes (hpre v List.mem_cons_self), List.foldl_cons]
    exact ih _ fun w hw => hpre w (List.mem_cons_of_mem v hw)

theorem decodes_or_split (S : StateStruct) (updates : List StateUpdate) :
    (∀ u ∈ updates, S.decodes u = true) ∨ ∃ pre u post, updates = pre ++ u :: post ∧
      (∀ v ∈ pre, S.decodes v = true) ∧ S.Undecodable u := by
  cases hfind : updates.find? fun u => !S.decodes u with
  | none =>
    rw [List.find?_eq_none] at hfind
    exact Or.inl fun u hu => by simpa using hfind u hu
  | some u =>
    obtain ⟨hu, pre, post, heq, hpre⟩ := List.find?_eq_some_iff_append.mp hfind
    refine Or.inr ⟨pre, u, post, heq, fun v hv => by simpa using hpre v hv, ?_⟩
    exact decodes_eq_false_iff.mp (by simpa using hu)

/-! ## Field by field -/

theorem assign_other {s : S.State} {u : StateUpdate} {i : Fin S.fields} (h : u.index ≠ i.val) :
    S.assign s u i = s i := by
  unfold assign
  by_cases hi : u.index < S.fields
  · rw [dif_pos hi]
    cases S.fromBytes ⟨u.index, hi⟩ u.data with
    | some value => exact Function.update_of_ne (fun heq => h (congrArg Fin.val heq).symm) value s
    | none => rfl
  · rw [dif_neg hi]

theorem assign_same {s : S.State} {u : StateUpdate} {i : Fin S.fields} (h : u.index = i.val)
    (hd : S.decodes u = true) : S.fromBytes i u.data = some (S.assign s u i) := by
  obtain ⟨i, hi⟩ := i
  dsimp only at h
  subst h
  unfold decodes at hd
  rw [dif_pos hi] at hd
  obtain ⟨value, hvalue⟩ := Option.isSome_iff_exists.mp hd
  unfold assign
  rw [dif_pos hi]
  simp only [hvalue, Function.update_self]

/-- Updates that all decode leave in every field what the last one naming it says. -/
theorem holds_foldl_assign (s : S.State) {updates : List StateUpdate}
    (hall : ∀ u ∈ updates, S.decodes u = true) (i : Fin S.fields) :
    S.Holds s updates i (updates.foldl S.assign s i) := by
  induction updates using List.reverseRecOn with
  | nil => exact .kept (fun u hu => by cases hu) rfl
  | append_singleton updates u ih =>
    rw [List.foldl_append, List.foldl_cons, List.foldl_nil]
    by_cases hi : u.index = i.val
    · exact .written updates [] u rfl hi (fun v hv => by cases hv) (assign_same hi (hall u (by simp)))
    · rw [assign_other hi]
      cases ih fun v hv => hall v (List.mem_append_left [u] hv) with
      | written pre post w heq hnames hlast hdecodes =>
        refine .written pre (post ++ [u]) w (by rw [heq, List.append_assoc, List.cons_append]) hnames ?_ hdecodes
        intro v hv
        rcases List.mem_append.mp hv with hv | hv
        · exact hlast v hv
        · rw [List.mem_singleton.mp hv]
          exact hi
      | kept hnone hsame =>
        refine .kept (fun v hv => ?_) hsame
        rcases List.mem_append.mp hv with hv | hv
        · exact hnone v hv
        · rw [List.mem_singleton.mp hv]
          exact hi

theorem applyChanges_filter (s : S.State) (updates : List StateUpdate) :
    S.applyChanges s (updates.filter fun u => u.index < S.fields) = S.applyChanges s updates := by
  induction updates generalizing s with
  | nil => rfl
  | cons u updates ih =>
    rw [List.filter_cons]
    by_cases hi : u.index < S.fields
    · rw [if_pos (decide_eq_true hi), applyChanges, applyChanges, dif_pos hi, dif_pos hi]
      split
      next value hvalue => exact ih _
      next => rfl
    · rw [if_neg (by simpa using hi), ih, applyChanges, dif_neg hi]

/-- **`apply_changes` on any list of updates.** -/
theorem applyChanges_appliesUpTo (S : StateStruct) (s : S.State) (updates : List StateUpdate) :
    S.AppliesUpTo s updates (S.applyChanges s updates) := by
  rcases decodes_or_split S updates with hall | ⟨pre, u, post, rfl, hpre, hu⟩
  · have hrun : S.applyChanges s updates = (updates.foldl S.assign s, .ok ()) := by
      rw [← List.append_nil updates, applyChanges_append s hall, List.append_nil]
      rfl
    have hok : ∀ e, (S.applyChanges s updates).2 ≠ .error e := by
      intro e
      rw [hrun]
      exact fun he => (by cases he)
    refine ⟨⟨fun ⟨e, he⟩ => absurd he (hok e), fun ⟨u, hu, hund⟩ => ?_⟩, fun _ i => ?_,
      fun e he => absurd he (hok e), applyChanges_filter s updates⟩
    · exact absurd hund (decodes_iff.mp (hall u hu))
    · rw [hrun]
      exact holds_foldl_assign s hall i
  · have hrun : S.applyChanges s (pre ++ u :: post) =
        (pre.foldl S.assign s, .error .clientDecodeError) := by
      rw [applyChanges_append s hpre, applyChanges_cons_of_undecodable hu]
    refine ⟨⟨fun _ => ⟨u, by simp, hu⟩, fun _ => ⟨.clientDecodeError, by rw [hrun]⟩⟩, fun hok => ?_,
      fun e he => ?_, applyChanges_filter s _⟩
    · rw [hrun] at hok
      cases hok
    · rw [hrun] at he ⊢
      refine ⟨(Except.error.inj he).symm, pre, u, post, rfl, hu, fun v hv => decodes_iff.mp (hpre v hv), ?_⟩
      exact holds_foldl_assign s hpre

end StateStruct

/-- A write of 1 to the counter, and then one that does not decode. -/
def halfBatch : List StateUpdate := [{ index := 0, data := [1, 0, 0, 0] }, { index := 0, data := [] }]

/-- The counter is left at 1 by the call that fails. -/
theorem half_applied : ¬ ∀ (S : StateStruct) (s : S.State) (updates : List StateUpdate) (e : RpcHandlerError),
    (S.applyChanges s updates).2 = .error e → (S.applyChanges s updates).1 = s := by
  intro hall
  have hsame := hall counterState.toStateStruct counterState.default halfBatch .clientDecodeError rfl
  have hcounter : counter (counterState.applyChanges counterState.default halfBatch).1 = 1 := rfl
  rw [hsame] at hcounter
  exact absurd hcounter (by decide)

end HardLight
