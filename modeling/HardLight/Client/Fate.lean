import HardLight.Client.Stream
import HardLight.Lib.Past

/-!
# What becomes of a call

For the client loop against any server: every completion sender taken from the request channel is in one slot
or has been used once, and what it was used with is given by the history.

* `Fills` : a call takes a slot; `Holding`: and no response with the id of the slot has been processed since;
* `Completes` : an action that completes a call, with what; `Fate` : there has been one;
* `StreamStep.held`, `StreamStep.fate` : what an action does to the slots and to the completions;
* `Recorded`, `step_recorded` : the slots and the completions are what the history says;
* `fates_of_run` : all of it, for every run.
-/

namespace HardLight
open Lib

namespace ClientStream
variable {S : StateStruct}

/-- After `bs`, the action `a` puts the call in the slot. -/
def Fills (S : StateStruct) (slot : Fin 256) (call : Call) (bs : List StreamAct) (a : StreamAct) : Prop :=
  a = .loop .fillSlot ∧ ∃ s, run step (init S) bs = some s ∧ s.loop.phase = .sent slot call

/-- The call took the slot, and no response with its id has been processed since. -/
def Holding (S : StateStruct) (slot : Fin 256) (call : Call) (as : List StreamAct) : Prop :=
  Since (Fills S slot call) (fun a => a.answers slot = true) as

/-- After `bs`, the action completes the call: all slots are occupied when it is taken, it cannot be sent, or
the first response with the id of its slot comes. -/
inductive Completes (S : StateStruct) (call : Call) : Completion → List StreamAct → StreamAct → Prop
  | full (bs : List StreamAct) (s : ClientStream S) (internal : Bytes) (rest : List (Bytes × Call))
      (hrun : run step (init S) bs = some s) (hq : s.loop.rpcRequestRx = (internal, call) :: rest)
      (hfull : ∀ slot, s.loop.activeRpcCalls slot ≠ none) :
      Completes S call (.failed .tooManyCallsInFlight) bs (.loop .takeRequest)
  | unsent (bs : List StreamAct) (s : ClientStream S) (slot : Fin 256) (internal : Bytes)
      (outcome : SendOutcome) (error : RpcHandlerError) (hrun : run step (init S) bs = some s)
      (hphase : s.loop.phase = .sending slot call internal) (herror : outcome.error? = some error) :
      Completes S call (.failed error) bs (.loop (.send outcome))
  | answered (bs : List StreamAct) (r : Response) (hholding : Holding S (slotOf r.id) call bs) :
      Completes S call (.output r.output) bs (.receive (some (.rpcResponse r)))

/-- The history has an action that completes the call so. -/
def Fate (S : StateStruct) (call : Call) (completion : Completion) (as : List StreamAct) : Prop :=
  Once (Completes S call completion) as

/-- The completion sender is in exactly one slot and unused, or in none and used exactly once. -/
def Settled (s : ClientStream S) (call : Call) : Prop :=
  ((∃! slot, s.loop.activeRpcCalls slot = some call) ∧ (s.loop.completions.map Prod.fst).count call = 0) ∨
    ((∀ slot, s.loop.activeRpcCalls slot ≠ some call) ∧ (s.loop.completions.map Prod.fst).count call = 1)

/-- **What a run says of its calls.** -/
structure Robust (as : List StreamAct) (s : ClientStream S) : Prop where
  /-- At the `select!`, every call that is no longer queued. -/
  settled : s.loop.phase = .select → ∀ call : Nat, call < s.loop.issued.length →
    call ∉ s.loop.rpcRequestRx.map Prod.snd → s.Settled call
  fate : ∀ call completion, (call, completion) ∈ s.loop.completions ↔ Fate S call completion as
  held : ∀ slot call, s.loop.activeRpcCalls slot = some call ↔ Holding S slot call as
  /-- Whatever comes next, an occupied slot is only emptied, and only by a response with its id. -/
  occupied : ∀ a s', s.step a = some s' → ∀ slot call, s.loop.activeRpcCalls slot = some call →
    s'.loop.activeRpcCalls slot = some call ∨
      (a.answers slot = true ∧ s'.loop.activeRpcCalls slot = none)
  /-- A message changes no slot but the one with the id it bears. -/
  others : ∀ a s', s.step a = some s' → a.isMessage = true → ∀ slot, a.answers slot = false →
    s'.loop.activeRpcCalls slot = s.loop.activeRpcCalls slot
  ids : ∀ slot slot', idOf slot = idOf slot' → slot = slot'

/-! ## The history and the state -/

/-- The slots and the completions are what the history says. -/
structure Recorded (as : List StreamAct) (s : ClientStream S) : Prop where
  accounted : s.loop.Accounted
  held : ∀ slot call, s.loop.activeRpcCalls slot = some call ↔ Holding S slot call as
  fate : ∀ call completion, (call, completion) ∈ s.loop.completions ↔ Fate S call completion as

theorem recorded_init (S : StateStruct) : Recorded [] (init S) where
  accounted := init_accounted S
  held slot call := by
    rw [Holding, iff_false_intro not_since_nil, iff_false]
    exact fun h => by cases h
  fate call completion := by
    rw [Fate, iff_false_intro not_once_nil, iff_false]
    exact fun h => by cases h

theorem holding_concat {slot : Fin 256} {call : Call} {as : List StreamAct} {a : StreamAct} :
    Holding S slot call (as ++ [a]) ↔
      Fills S slot call as a ∨ (Holding S slot call as ∧ a.answers slot = false) := by
  rw [Holding, since_concat, Bool.not_eq_true]
  rfl

theorem fills_iff {slot : Fin 256} {call : Call} {as : List StreamAct} {a : StreamAct} {s : ClientStream S}
    (hrun : run step (init S) as = some s) :
    Fills S slot call as a ↔ a = .loop .fillSlot ∧ s.loop.phase = .sent slot call := by
  refine and_congr_right fun _ => ⟨?_, fun hphase => ⟨s, hrun, hphase⟩⟩
  rintro ⟨s', hrun', hphase⟩
  rw [hrun] at hrun'
  exact Option.some.inj hrun' ▸ hphase

theorem StreamStep.held {s s' : ClientStream S} {a : StreamAct} (h : StreamStep s a s')
    (hfree : ∀ slot, s.loop.chosen = some slot → s.loop.activeRpcCalls slot = none) (slot : Fin 256)
    (call : Call) : s'.loop.activeRpcCalls slot = some call ↔
      (a = .loop .fillSlot ∧ s.loop.phase = .sent slot call) ∨
        (s.loop.activeRpcCalls slot = some call ∧ a.answers slot = false) := by
  cases h with
  | filled slot' call' hphase =>
    show Function.update s.loop.activeRpcCalls slot' (some call') slot = some call ↔ _
    have hnone := hfree slot' (by rw [ClientLoop.chosen, hphase])
    by_cases heq : slot = slot'
    · subst heq
      simp [hphase, hnone]
    · rw [Function.update_of_ne heq]
      have hne : slot' ≠ slot := fun h => heq h.symm
      simp [hphase, hne, StreamAct.answers]
  | completed r call' hphase hopen hslot =>
    show Function.update s.loop.activeRpcCalls (slotOf r.id) none slot = some call ↔ _
    by_cases heq : slotOf r.id = slot
    · subst heq
      simp [StreamAct.answers]
    · rw [Function.update_of_ne fun h => heq h.symm]
      simp [StreamAct.answers, heq]
  | unknown r hphase hopen hslot =>
    by_cases heq : slotOf r.id = slot
    · subst heq
      simp [hslot]
    · simp [StreamAct.answers, heq]
  | other msg state events hmsg hphase hopen =>
    have hno : StreamAct.answers slot (.receive msg) = false := by
      unfold StreamAct.answers
      split
      next r heq => exact absurd (StreamAct.receive.inj heq) (hmsg r)
      next => rfl
    simp [hno]
  | _ => simp [StreamAct.answers, ClientLoop.complete]

theorem StreamStep.fate {as : List StreamAct} {s s' : ClientStream S} {a : StreamAct}
    (h : StreamStep s a s') (hrun : run step (init S) as = some s)
    (hheld : ∀ slot call, s.loop.activeRpcCalls slot = some call ↔ Holding S slot call as) (call : Call)
    (completion : Completion) : (call, completion) ∈ s'.loop.completions ↔
      (call, completion) ∈ s.loop.completions ∨ Completes S call completion as a := by
  have hsame : ∀ {t}, run step (init S) as = some t → t = s := fun ht => Option.some.inj (ht.symm.trans hrun)
  have hnone (hno : ¬ Completes S call completion as a) :
      (call, completion) ∈ s.loop.completions ↔
        (call, completion) ∈ s.loop.completions ∨ Completes S call completion as a := by
    rw [iff_false_intro hno, or_false]
  have hone (call' : Call) (completion' : Completion)
      (hiff : Completes S call completion as a ↔ (call, completion) = (call', completion')) :
      (call, completion) ∈ s.loop.completions ++ [(call', completion')] ↔
        (call, completion) ∈ s.loop.completions ∨ Completes S call completion as a := by
    rw [List.mem_append, List.mem_singleton, hiff]
  cases h with
  | chosen slot call' internal rest hphase hq hslot =>
    refine hnone fun hc => ?_
    cases hc with
    | full _ t _ _ ht _ hfull => exact hfull slot (hsame ht ▸ hslot)
  | refused call' internal rest hphase hq hfull =>
    refine hone call' _ ⟨fun hc => ?_, fun heq => ?_⟩
    · cases hc with
      | full _ t _ _ ht hq' _ =>
        rw [hsame ht, hq] at hq'
        cases hq'
        rfl
    · cases heq
      exact .full as s internal rest hrun hq hfull
  | failed slot call' internal outcome error hphase herror =>
    refine hone call' _ ⟨fun hc => ?_, fun heq => ?_⟩
    · cases hc with
      | unsent _ t _ _ _ _ ht hphase' herror' =>
        rw [hsame ht, hphase] at hphase'
        rw [herror] at herror'
        cases hphase'
        cases herror'
        rfl
    · cases heq
      exact .unsent as s slot internal outcome error hrun hphase herror
  | sent slot call' internal hphase =>
    refine hnone fun hc => ?_
    cases hc with
    | unsent _ t _ _ _ _ ht hphase' herror' => cases herror'
  | completed r call' hphase hopen hslot =>
    refine hone call' _ ⟨fun hc => ?_, fun heq => ?_⟩
    · cases hc with
      | answered _ _ hholding =>
        rw [← hheld, hslot] at hholding
        cases hholding
        rfl
    · cases heq
      exact .answered as r ((hheld _ _).mp hslot)
  | unknown r hphase hopen hslot =>
    refine hnone fun hc => ?_
    cases hc with
    | answered _ _ hholding =>
      rw [← hheld, hslot] at hholding
      cases hholding
  | other msg state events hmsg hphase hopen =>
    refine hnone fun hc => ?_
    cases hc with
    | answered _ r hholding => exact hmsg r rfl
  | called internal => exact hnone fun hc => by cases hc
  | filled slot call' hphase => exact hnone fun hc => by cases hc
  | stopped hphase => exact hnone fun hc => by cases hc
  | ended hphase hopen => exact hnone fun hc => by cases hc

/-- **Every step keeps the history and the state together.** -/
theorem step_recorded {as : List StreamAct} {s s' : ClientStream S} {a : StreamAct}
    (hrun : run step (init S) as = some s) (hinv : Recorded as s) (h : s.step a = some s') :
    Recorded (as ++ [a]) s' where
  accounted := step_accounted hinv.accounted h
  held slot call := by
    rw [holding_concat, fills_iff hrun, ← hinv.held]
    exact (step_cases h).held hinv.accounted.chosen_free slot call
  fate call completion := by
    rw [Fate, once_concat, ← Fate, ← hinv.fate]
    exact (step_cases h).fate hrun hinv.held call completion

/-! ## The property -/

theorem Recorded.settled {as : List StreamAct} {s : ClientStream S} (hinv : Recorded as s)
    (hphase : s.loop.phase = .select) {call : Nat} (hmade : call < s.loop.issued.length)
    (htaken : call ∉ s.loop.rpcRequestRx.map Prod.snd) : s.Settled call := by
  have hone := hinv.accounted.one_place call
  have hhand : s.loop.inHand = none := by rw [ClientLoop.inHand, hphase]
  rw [if_pos hmade, ClientLoop.places, List.count_eq_zero.mpr htaken, hhand] at hone
  simp only [reduceCtorEq, if_false] at hone
  by_cases hcard : (holders s.loop.activeRpcCalls call).card = 1
  · obtain ⟨slot, hslot⟩ := Finset.card_eq_one.mp hcard
    refine Or.inl ⟨⟨slot, mem_holders.mp (by rw [hslot]; exact Finset.mem_singleton_self slot), ?_⟩, by omega⟩
    intro slot' hslot'
    exact Finset.mem_singleton.mp (hslot ▸ mem_holders.mpr hslot')
  · have hempty : holders s.loop.activeRpcCalls call = ∅ := Finset.card_eq_zero.mp (by omega)
    refine Or.inr ⟨fun slot hslot => ?_, by omega⟩
    have hmem := mem_holders.mpr hslot
    rw [hempty] at hmem
    cases hmem

theorem recorded_of_run {as : List StreamAct} {s : ClientStream S} (h : run step (init S) as = some s) :
    Recorded as s :=
  run_history (I := fun as s => Recorded as s) (recorded_init S)
    (fun _ _ _ _ hrun hinv hs => step_recorded hrun hinv hs) h

/-- **The calls of a client are safe with any server.** -/
theorem fates_of_run {as : List StreamAct} {s : ClientStream S} (h : run step (init S) as = some s) :
    Robust as s := by
  have hinv := recorded_of_run h
  refine ⟨fun hphase call => hinv.settled hphase, hinv.fate, hinv.held, fun a s' hs slot call hslot => ?_,
    fun a s' hs hmsg slot hno => ?_, fun slot slot' heq => ?_⟩
  · rcases (step_cases hs).slot slot with hsame | ⟨-, call', hphase, -⟩ | hanswer
    · exact Or.inl (hsame.trans hslot)
    · -- the slot that the branch is about to fill is free
      have hfree := hinv.accounted.chosen_free slot (by rw [ClientLoop.chosen, hphase])
      rw [hfree] at hslot
      cases hslot
    · exact Or.inr hanswer
  · rcases (step_cases hs).slot slot with hsame | ⟨rfl, -⟩ | ⟨hanswer, -⟩
    · exact hsame
    · cases hmsg
    · rw [hno] at hanswer
      cases hanswer
  · rw [← slotOf_idOf slot, ← slotOf_idOf slot', heq]

/-- Two calls, a foreign response, garbage, the answer of the first and a repetition of it. -/
def replayedRun : List StreamAct :=
  [.loop (.call [1]), .loop (.call [2]), .loop .takeRequest, .loop (.send .sent), .loop .fillSlot,
    .receive (some (.rpcResponse { id := 7, output := .ok [7], call := 0 })), .receive none,
    .loop .takeRequest, .loop (.send .sendError),
    .receive (some (.rpcResponse { id := 0, output := .ok [3], call := 0 })),
    .receive (some (.rpcResponse { id := 0, output := .ok [4], call := 0 }))]

theorem robust_replayedRun : ∃ s, run step (init counterState.toStateStruct) replayedRun = some s ∧
    s.loop.completions.map Prod.fst = [1, 0] ∧ Robust replayedRun s := by
  have hrun : (run step (init counterState.toStateStruct) replayedRun).map (fun s =>
      s.loop.completions.map Prod.fst) = some [1, 0] := rfl
  obtain ⟨s, hs, hcalls⟩ := Option.map_eq_some_iff.mp hrun
  exact ⟨s, hs, hcalls, fates_of_run hs⟩

end ClientStream

end HardLight
