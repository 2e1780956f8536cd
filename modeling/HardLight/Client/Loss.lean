import HardLight.Client.Fate

/-!
# Calls when the connection is lost

When `stream.next()` gives `None` its branch of the `select!` is disabled and the loop goes on: the slots are
emptied by responses alone, and there are no more of them. A send that fails completes its call with
`ClientNotConnected`; a call that is in a slot then, or gets into one later, is never completed.

* `Leaves` : an action leaves a call behind: the stream ends with a slot occupied, or accepts a message after
  its end;
* `Stranded`, `step_loss` : from the end on, a slot is occupied or about to be exactly if that has happened;
* `Released` : no slot is occupied, and every call not completed when the stream ended has got an error;
  `released_iff` : this holds exactly if no action has left a call behind.
-/

namespace HardLight
open Lib

namespace ClientStream
variable {S : StateStruct}

/-- After `bs`, the action `a` leaves a call behind. -/
def Leaves (S : StateStruct) (bs : List StreamAct) (a : StreamAct) : Prop :=
  ∃ s, run step (init S) bs = some s ∧
    ((a = .streamEnd ∧ ∃ slot, s.loop.activeRpcCalls slot ≠ none) ∨
      (a = .loop (.send .sent) ∧ s.endedAt ≠ none))

/-- **The loss of the connection has failed the pending calls**, where `k` calls had been completed at the end
of the stream: nobody waits for a response, and every other call has got an error, but for the one that is just
being sent. -/
structure Released (s : ClientStream S) (k : Nat) : Prop where
  slots : ∀ slot, s.loop.activeRpcCalls slot = none
  failed : ∀ call : Nat, call < s.loop.issued.length → call ∉ (s.loop.completions.take k).map Prod.fst →
    (∃ slot internal, s.loop.phase = .sending slot call internal) ∨
      ∃ error, (call, .failed error) ∈ s.loop.completions

/-- A call has its request sent. -/
def Stranded (s : ClientStream S) : Prop :=
  (∃ slot, s.loop.activeRpcCalls slot ≠ none) ∨ ∃ slot call, s.loop.phase = .sent slot call

/-- What is known of a run from the end of the stream on. -/
structure Loss (as : List StreamAct) (s : ClientStream S) : Prop where
  accounted : s.loop.Accounted
  ended : Once (Leaves S) as → s.endedAt ≠ none
  stranded_iff : s.endedAt ≠ none → (s.Stranded ↔ Once (Leaves S) as)
  errors : ∀ k, s.endedAt = some k → k ≤ s.loop.completions.length ∧
    ∀ x ∈ s.loop.completions.drop k, ∃ error, x.2 = .failed error

theorem loss_init (S : StateStruct) : Loss [] (init S) where
  accounted := init_accounted S
  ended h := absurd h not_once_nil
  stranded_iff h := absurd rfl h
  errors k h := by cases h

theorem leaves_iff {as : List StreamAct} {a : StreamAct} {s : ClientStream S}
    (hrun : run step (init S) as = some s) : Leaves S as a ↔
      (a = .streamEnd ∧ ∃ slot, s.loop.activeRpcCalls slot ≠ none) ∨
        (a = .loop (.send .sent) ∧ s.endedAt ≠ none) := by
  refine ⟨?_, fun h => ⟨s, hrun, h⟩⟩
  rintro ⟨s', hrun', h⟩
  rw [hrun] at hrun'
  exact Option.some.inj hrun' ▸ h

/-- A step after the end of the stream strands a call exactly if it is a send that succeeds. -/
theorem StreamStep.stranded {s s' : ClientStream S} {a : StreamAct} (h : StreamStep s a s')
    (hended : s.endedAt ≠ none) : s'.Stranded ↔ s.Stranded ∨ a = .loop (.send .sent) := by
  cases h with
  | called internal => simp [Stranded]
  | chosen slot call internal rest hphase hq hslot => simp [Stranded, hphase]
  | refused call internal rest hphase hq hfull => simp [Stranded, ClientLoop.complete, hphase]
  | failed slot call internal outcome error hphase herror =>
    have hne : outcome ≠ .sent := by
      rintro rfl
      cases herror
    simp [Stranded, ClientLoop.complete, hphase, hne]
  | sent slot call internal hphase =>
    exact ⟨fun _ => Or.inr rfl, fun _ => Or.inr ⟨slot, call, rfl⟩⟩
  | filled slot call hphase =>
    refine ⟨fun _ => Or.inl (Or.inr ⟨slot, call, hphase⟩), fun _ => Or.inl ⟨slot, ?_⟩⟩
    show Function.update s.loop.activeRpcCalls slot (some call) slot ≠ none
    rw [Function.update_self]
    exact Option.some_ne_none call
  | stopped hphase => simp [Stranded, hphase]
  | completed r call hphase hopen hslot => exact absurd hopen hended
  | unknown r hphase hopen hslot => exact absurd hopen hended
  | other msg state events hmsg hphase hopen => exact absurd hopen hended
  | ended hphase hopen => exact absurd hopen hended

theorem StreamStep.completions {s s' : ClientStream S} {a : StreamAct} (h : StreamStep s a s')
    (hended : s.endedAt ≠ none) : s'.loop.completions = s.loop.completions ∨
      ∃ call error, s'.loop.completions = s.loop.completions ++ [(call, .failed error)] := by
  cases h with
  | refused call internal rest hphase hq hfull => exact Or.inr ⟨call, _, rfl⟩
  | failed slot call internal outcome error hphase herror => exact Or.inr ⟨call, error, rfl⟩
  | completed r call hphase hopen hslot => exact absurd hopen hended
  | _ => exact Or.inl rfl

theorem StreamStep.endedAt {s s' : ClientStream S} {a : StreamAct} (h : StreamStep s a s') :
    (a ≠ .streamEnd ∧ s'.endedAt = s.endedAt) ∨ (a = .streamEnd ∧ s.endedAt = none ∧
      s.loop.phase = .select ∧ s' = { s with endedAt := some s.loop.completions.length }) := by
  cases h with
  | ended hphase hopen => exact Or.inr ⟨rfl, hopen, hphase, rfl⟩
  | _ => exact Or.inl ⟨by simp, rfl⟩

/-- **Every step keeps track of the loss.** -/
theorem step_loss {as : List StreamAct} {s s' : ClientStream S} {a : StreamAct}
    (hrun : run step (init S) as = some s) (hinv : Loss as s) (h : s.step a = some s') :
    Loss (as ++ [a]) s' := by
  have hstep := step_cases h
  have haccounted := step_accounted hinv.accounted h
  have honce : Once (Leaves S) (as ++ [a]) ↔ Once (Leaves S) as ∨ _ :=
    once_concat.trans (or_congr_right (leaves_iff hrun))
  rcases hstep.endedAt with ⟨hne, hsame⟩ | ⟨rfl, hopen, hphase, rfl⟩
  · have hnot : ¬ (a = .streamEnd ∧ ∃ slot, s.loop.activeRpcCalls slot ≠ none) := fun hc => hne hc.1
    rw [iff_false_intro hnot, false_or] at honce
    refine ⟨haccounted, fun hc => ?_, fun hended => ?_, fun k hk => ?_⟩
    · rw [hsame]
      rcases honce.mp hc with hc | ⟨-, hended⟩
      · exact hinv.ended hc
      · exact hended
    · rw [hsame] at hended
      rw [hstep.stranded hended, hinv.stranded_iff hended, honce, and_iff_left hended]
    · rw [hsame] at hk
      obtain ⟨hle, herrors⟩ := hinv.errors k hk
      rcases hstep.completions (by rw [hk]; exact Option.some_ne_none k) with heq | ⟨call, error, heq⟩
      · rw [heq]
        exact ⟨hle, herrors⟩
      · rw [heq, List.drop_append_of_le_length hle, List.length_append]
        refine ⟨by omega, fun x hx => ?_⟩
        rcases List.mem_append.mp hx with hx | hx
        · exact herrors x hx
        · rw [List.mem_singleton.mp hx]
          exact ⟨error, rfl⟩
  · -- what is out at the end of the stream is stranded
    have hnever : ¬ Once (Leaves S) as := fun hc => hinv.ended hc hopen
    refine ⟨haccounted, fun _ => Option.some_ne_none _, fun _ => ?_, fun k hk => ?_⟩
    · rw [honce]
      simp [Stranded, hphase, hopen, hnever]
    · cases hk
      simp

/-! ## The property -/

theorem Loss.released {as : List StreamAct} {s : ClientStream S} {k : Nat} (hinv : Loss as s)
    (hended : s.endedAt = some k) (hq : s.loop.rpcRequestRx = []) :
    s.Released k ↔ ¬ Once (Leaves S) as := by
  have hsome : s.endedAt ≠ none := by
    rw [hended]
    exact Option.some_ne_none k
  rw [← hinv.stranded_iff hsome]
  constructor
  · rintro hrel (⟨slot, hslot⟩ | ⟨slot, call, hphase⟩)
    · exact hslot (hrel.slots slot)
    · have hhand : s.loop.inHand = some call := by rw [ClientLoop.inHand, hphase]
      obtain ⟨hmade, hnew⟩ := hinv.accounted.of_inHand hhand
      have htake : call ∉ (s.loop.completions.take k).map Prod.fst := fun hmem =>
        hnew (List.map_subset _ (List.take_subset k _) hmem)
      rcases hrel.failed call hmade htake with ⟨slot', internal, hsending⟩ | ⟨error, hmem⟩
      · rw [hphase] at hsending
        cases hsending
      · exact hnew (List.mem_map.mpr ⟨_, hmem, rfl⟩)
  · intro hfree
    have hslots : ∀ slot, s.loop.activeRpcCalls slot = none := by
      intro slot
      by_contra hslot
      exact hfree (Or.inl ⟨slot, hslot⟩)
    refine ⟨hslots, fun call hmade hnew => ?_⟩
    have hqueue : call ∉ s.loop.rpcRequestRx.map Prod.snd := by
      rw [hq]
      exact List.not_mem_nil
    have hslot : ∀ slot, s.loop.activeRpcCalls slot ≠ some call := fun slot => by
      rw [hslots slot]
      exact (Option.some_ne_none call).symm
    rcases hinv.accounted.completed hmade hqueue hslot with hhand | hmem
    · refine Or.inl ?_
      unfold ClientLoop.inHand at hhand
      split at hhand
      next slot call' internal hphase =>
        cases hhand
        exact ⟨slot, internal, hphase⟩
      next slot call' hphase => exact absurd (Or.inr ⟨slot, call', hphase⟩) hfree
      next => cases hhand
    · obtain ⟨⟨call', completion⟩, hin, rfl⟩ := List.mem_map.mp hmem
      rw [← List.take_append_drop k s.loop.completions, List.mem_append] at hin
      rcases hin with hin | hin
      · exact absurd (List.mem_map.mpr ⟨_, hin, rfl⟩) hnew
      · obtain ⟨error, rfl⟩ := (hinv.errors k hended).2 _ hin
        exact Or.inr ⟨error, List.mem_of_mem_drop hin⟩

/-- **The pending calls are failed exactly if no slot is occupied when the stream ends and no message is
accepted after it.** -/
theorem released_iff {as : List StreamAct} {s : ClientStream S} {k : Nat}
    (h : run step (init S) as = some s) (hended : s.endedAt = some k) (hq : s.loop.rpcRequestRx = []) :
    s.Released k ↔ ¬ Once (Leaves S) as :=
  (run_history (I := fun as s => Loss as s) (loss_init S)
    (fun _ _ _ _ hrun hinv hs => step_loss hrun hinv hs) h).released hended hq

/-- A call that is answered, the end of the stream, and a call that cannot be sent. -/
def idleRun : List StreamAct :=
  [.loop (.call [1]), .loop .takeRequest, .loop (.send .sent), .loop .fillSlot,
    .receive (some (.rpcResponse { id := 0, output := .ok [2], call := 0 })), .streamEnd,
    .loop (.call [3]), .loop .takeRequest, .loop (.send .sendError)]

theorem released_idleRun : ∃ s, run step (init counterState.toStateStruct) idleRun = some s ∧
    (s.Released 1 ↔ ¬ Once (Leaves counterState.toStateStruct) idleRun) := by
  have hrun : (run step (init counterState.toStateStruct) idleRun).map (fun s =>
      (s.endedAt, s.loop.rpcRequestRx)) = some (some 1, []) := rfl
  obtain ⟨s, hs, hfacts⟩ := Option.map_eq_some_iff.mp hrun
  exact ⟨s, hs, released_iff hs (congrArg Prod.fst hfacts) (congrArg Prod.snd hfacts)⟩

/-- A call is sent, and the server goes away. -/
def lostRun : List StreamAct :=
  [.loop (.call [1]), .loop .takeRequest, .loop (.send .sent), .loop .fillSlot, .streamEnd]

/-- The caller is left waiting. -/
theorem waiting_lostRun : ¬ ∀ (as : List StreamAct) (s : ClientStream counterState.toStateStruct) (k : Nat),
    run step (init counterState.toStateStruct) as = some s → s.endedAt = some k →
      s.loop.rpcRequestRx = [] → s.Released k := by
  intro hall
  have hrun : (run step (init counterState.toStateStruct) lostRun).map (fun s =>
      (s.endedAt, s.loop.rpcRequestRx, s.loop.activeRpcCalls 0)) = some (some 0, [], some 0) := rfl
  obtain ⟨s, hs, hfacts⟩ := Option.map_eq_some_iff.mp hrun
  simp only [Prod.mk.injEq] at hfacts
  obtain ⟨hended, hq, hslot⟩ := hfacts
  rw [(hall lostRun s 0 hs hended hq).slots 0] at hslot
  cases hslot

end ClientStream

end HardLight
