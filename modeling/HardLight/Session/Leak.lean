import HardLight.Session.Pairing

/-!
# When RPC ids are given back

The client loop against the connection loop over a connection that stays up and loses no message.

* `Balanced`, `step_balanced` : an id carries exactly what its slot stands for;
* `AllKnown` : a call that was issued is waiting, out under a slot, or answered;
* `step_crashed_iff` : handlers have crashed in exactly the runs with a panic;
* `NoLeak` : slots, `in_flight` and what is live agree, and all of them are free when nothing is live;
  `noLeak_iff` : this holds exactly in the runs in which no handler panics. A handler that panics sends no
  response: its id stays taken on both ends and its caller is never answered.
-/

namespace HardLight
open Lib

namespace ClientLoop
variable {S : StateStruct}

/-- The call is waiting, its request is out, or its completion sender has been used. -/
def Known (c : ClientLoop S) (call : Call) : Prop :=
  call ∈ c.waiting.map Prod.snd ∨ (∃ slot, c.outstanding slot = some call) ∨
    call ∈ c.completions.map Prod.fst

def AllKnown (c : ClientLoop S) : Prop := ∀ call < c.issued.length, c.Known call

theorem known_complete {c : ClientLoop S} {call call' : Call} {completion : Completion}
    (h : call = call' ∨ call ∈ c.completions.map Prod.fst) : (c.complete call' completion).Known call := by
  refine Or.inr (Or.inr ?_)
  rw [complete, List.map_append, List.mem_append]
  rcases h with rfl | h
  · exact Or.inr List.mem_cons_self
  · exact Or.inl h

theorem Step.known {c c' : ClientLoop S} {out : Option Request} (h : Step c out c')
    (hfree : c.SendingFree) {call : Call} (hk : c.Known call) : c'.Known call := by
  have hslots := h.outstanding
  have hfreed : ∀ r, out = some r → c.outstanding (slotOf r.id) = none := by
    rintro r rfl
    exact h.outstanding_free hfree
  have hout : ∀ slot, c.outstanding slot = some call → c'.Known call := by
    intro slot hslot
    refine Or.inr (Or.inl ⟨slot, ?_⟩)
    rw [hslots, hslot]
    cases out with
    | none => rfl
    | some r =>
      have hne : slot ≠ slotOf r.id := by
        rintro rfl
        rw [hfreed r rfl] at hslot
        cases hslot
      rw [sentUnder, if_neg hne, Option.none_or]
  rcases hk with hk | ⟨slot, hslot⟩ | hk
  · cases h with
    | called internal =>
      refine Or.inl ?_
      simp only [ClientLoop.waiting, List.map_append, List.mem_append] at hk ⊢
      tauto
    | chosen slot call' internal rest hphase hq hfree' =>
      refine Or.inl ?_
      rw [waiting_select hphase, hq] at hk
      simp only [ClientLoop.waiting, List.map_append, List.map_cons, List.map_nil, List.mem_append,
        List.mem_cons] at hk ⊢
      tauto
    | refused call' internal rest hphase hq hfull =>
      rw [waiting_select hphase, hq, List.map_cons, List.mem_cons] at hk
      rcases hk with rfl | hk
      · exact known_complete (Or.inl rfl)
      · refine Or.inl ?_
        rw [waiting_select rfl]
        exact hk
    | failed slot call' internal error hphase =>
      simp only [ClientLoop.waiting, hphase, List.map_append, List.map_cons, List.map_nil, List.mem_append,
        List.mem_singleton] at hk
      rcases hk with hk | rfl
      · refine Or.inl ?_
        rw [waiting_select rfl]
        exact hk
      · exact known_complete (Or.inl rfl)
    | sent slot call' internal hphase =>
      simp only [ClientLoop.waiting, hphase, List.map_append, List.map_cons, List.map_nil, List.mem_append,
        List.mem_singleton] at hk
      rcases hk with hk | rfl
      · refine Or.inl ?_
        simpa [ClientLoop.waiting] using hk
      · exact Or.inr (Or.inl ⟨slot, by simp [ClientLoop.outstanding]⟩)
    | filled slot call' hphase =>
      refine Or.inl ?_
      simpa [ClientLoop.waiting, hphase] using hk
    | stopped hphase =>
      refine Or.inl ?_
      simpa [ClientLoop.waiting, hphase] using hk
  · exact hout slot hslot
  · cases h with
    | refused => exact known_complete (Or.inr hk)
    | failed => exact known_complete (Or.inr hk)
    | _ => exact Or.inr (Or.inr hk)

theorem Step.allKnown {c c' : ClientLoop S} {out : Option Request} (h : Step c out c')
    (hfree : c.SendingFree) (hinv : c.AllKnown) : c'.AllKnown := by
  intro call hlt
  rcases h.waiting with ⟨issue, -, hissued, hperm⟩ | ⟨hissued, -⟩
  · rw [hissued, List.length_append, List.length_singleton] at hlt
    rcases Nat.lt_succ_iff_lt_or_eq.mp hlt with hlt | rfl
    · exact h.known hfree (hinv call hlt)
    · refine Or.inl (List.mem_map.mpr ⟨_, hperm.mem_iff.mpr List.mem_cons_self, rfl⟩)
  · exact h.known hfree (hinv call (hissued ▸ hlt))

theorem Receives.allKnown {c c' : ClientLoop S} {r : Option Response} (h : Receives c r c')
    (hinv : c.AllKnown) : c'.AllKnown := by
  intro call hlt
  rw [h.waiting.1] at hlt
  have hk := hinv call hlt
  cases h with
  | completed r call' hphase hslot =>
    rcases hk with hk | ⟨slot, hout⟩ | hk
    · refine Or.inl ?_
      rw [waiting_select hphase] at hk
      rw [waiting_select rfl]
      exact hk
    · by_cases hs : slot = slotOf r.id
      · rw [outstanding_select hphase, hs, hslot, Option.some.injEq] at hout
        exact known_complete (Or.inl hout.symm)
      · refine Or.inr (Or.inl ⟨slot, ?_⟩)
        rw [outstanding_select hphase] at hout
        rw [outstanding_select rfl]
        simp only [complete, Function.update_of_ne hs, hout]
    · exact known_complete (Or.inr hk)
  | unknown r hphase hslot => exact hk
  | other state events hphase => exact hk

end ClientLoop

namespace SessionAct

def panics : SessionAct → Bool
  | conn a => a.panics
  | _ => false

end SessionAct

namespace Session
variable {S : StateStruct}

/-- An id carries exactly what its slot stands for. -/
structure Balanced (s : Session S) : Prop where
  table : Table s
  carried_eq : ∀ id, s.conn.rpcView.carried id = s.held id
  known : s.client.AllKnown

theorem step_balanced {s s' : Session S} {a : SessionAct} (hship : s.shipped = true) (hinv : Balanced s)
    (hok : a.succeeds = true) (h : RpcStep s s' a) : Balanced s' where
  table := step_table hship hinv.table h
  carried_eq id := by
    have hstep := (step_carried hship hinv.table h id).2 hok
    have hold := hinv.carried_eq id
    omega
  known := by
    have hfree := hinv.table.sending_free
    cases h with
    | server a hclient hserver hview => exact hclient ▸ hinv.known
    | aborted hclient hview => exact hclient ▸ hinv.known
    | client a hclient hview => exact hclient.allKnown hfree hinv.known
    | request a r hclient hview => exact hclient.allKnown hfree hinv.known
    | response r hclient hview => exact hclient.allKnown hinv.known
    | unreadable r hclient hview => exact hclient.allKnown hinv.known
    | message decoded hclient hview => exact hclient.allKnown hinv.known

theorem step_crashed_iff {s s' : Session S} {a : SessionAct} (halive : s.conn.Alive) (ha : a ≠ .abort)
    (h : s.step a = some s') :
    s'.conn.crashed = [] ↔ s.conn.crashed = [] ∧ a.panics = false := by
  cases a with
  | abort => exact absurd rfl ha
  | client a =>
    obtain ⟨out, -, -, hk⟩ := step_client h
    cases out with
    | none => rw [hk]; simp [SessionAct.panics]
    | some r => rw [Conn.step_crashed halive rfl hk]; simp [SessionAct.panics]
  | receive decoded =>
    obtain ⟨-, -, -, -, -, hk⟩ := step_receive h
    rw [Conn.step_crashed halive rfl hk]
    simp [SessionAct.panics]
  | conn a =>
    have hk := (step_conn h).2.2.2
    cases hp : a.panics with
    | false => rw [Conn.step_crashed halive hp hk]; simp [SessionAct.panics, hp]
    | true =>
      cases a with
      | handlerPanics n =>
        rw [Conn.step, Conn.handlerPanics] at hk
        split at hk
        · rw [← Option.some.inj hk]
          simp [SessionAct.panics, ConnAct.panics]
        · cases hk
      | _ => cases hp

/-! ## The property -/

/-- Nothing is on the wire, queued or running, and the client is between two branches. -/
structure Quiet (s : Session S) : Prop where
  select : s.client.phase = .select
  no_call : s.client.rpcRequestRx = []
  nothing_live : ∀ id, s.conn.rpcView.live id = 0

/-- **No RPC id is leaked.** -/
structure NoLeak (s : Session S) : Prop where
  slot_iff : ∀ id, (s.client.activeRpcCalls (slotOf id)).isSome = true ↔ s.conn.rpcView.live id = 1
  in_flight_iff : ∀ id, s.conn.inFlight (slotOf id) = true ↔ s.conn.rpcView.busy id = 1
  all_free : s.Quiet → ∀ slot, s.client.activeRpcCalls slot = none ∧ s.conn.inFlight slot = false
  all_answered : s.Quiet → ∀ call < s.client.issued.length, call ∈ s.client.completions.map Prod.fst
  crashed_answered : s.Quiet → ∀ q ∈ s.conn.crashed,
    (q.call, Completion.output (.error .handlerPanicked)) ∈ s.client.completions

theorem noLeak_of_balanced {s : Session S} (hinv : Balanced s) (hcrashed : s.conn.crashed = [])
    (hselect : s.client.phase = .select) : NoLeak s := by
  have hbusy : ∀ id, (s.conn.inFlight (slotOf id)).toNat = s.conn.rpcView.busy id := by
    intro id
    have hid := hinv.table.in_flight id
    rw [Conn.rpcView_crashed, hcrashed] at hid
    simpa using hid
  have hlive : ∀ id, (s.client.activeRpcCalls (slotOf id)).isSome.toNat = s.conn.rpcView.live id := by
    intro id
    have hid := hinv.carried_eq id
    rw [RpcView.carried_eq_live hinv.table.in_flight, Conn.rpcView_crashed, hcrashed, held,
      ClientLoop.outstanding_select hselect] at hid
    simpa using hid.symm
  have hfree : s.Quiet → ∀ slot, s.client.activeRpcCalls slot = none ∧ s.conn.inFlight slot = false := by
    intro hquiet slot
    have hnone := hquiet.nothing_live (idOf slot)
    have hslot := hlive (idOf slot)
    have htable := hbusy (idOf slot)
    rw [slotOf_idOf] at hslot htable
    rw [hnone, Bool.toNat_eq_zero, Option.isSome_eq_false_iff, Option.isNone_iff_eq_none] at hslot
    refine ⟨hslot, ?_⟩
    rw [← Bool.toNat_eq_zero, htable]
    rw [RpcView.live] at hnone
    rw [RpcView.busy]
    omega
  refine ⟨fun id => ?_, fun id => ?_, hfree, fun hquiet call hlt => ?_, fun _ q hq => ?_⟩
  · rw [← hlive, Bool.toNat_eq_one]
  · rw [← hbusy, Bool.toNat_eq_one]
  · rcases hinv.known call hlt with hk | ⟨slot, hslot⟩ | hk
    · rw [ClientLoop.waiting_select hselect, hquiet.no_call] at hk
      cases hk
    · rw [ClientLoop.outstanding_select hselect, (hfree hquiet slot).1] at hslot
      cases hslot
    · exact hk
  · rw [hcrashed] at hq
    cases hq

/-- The id of a handler that panicked is in flight with nothing running or queued. -/
theorem not_noLeak_of_crashed {s : Session S} (hinv : Balanced s) (hcrashed : s.conn.crashed ≠ []) :
    ¬ NoLeak s := by
  intro hno
  obtain ⟨q, hq⟩ := List.exists_mem_of_ne_nil _ hcrashed
  have hpos : 0 < (s.conn.rpcView.crashed.map Request.id).count q.id :=
    List.count_pos_iff.mpr (List.mem_map_of_mem hq)
  have hid := hinv.table.in_flight q.id
  rw [Conn.rpcView_inFlight] at hid
  have hflight : s.conn.inFlight (slotOf q.id) = true := by
    rw [← Bool.toNat_eq_one]
    have hle := Bool.toNat_le (s.conn.inFlight (slotOf q.id))
    omega
  have hbusy := (hno.in_flight_iff q.id).mp hflight
  rw [hflight, Bool.toNat_true] at hid
  omega

/-- **Ids are given back exactly when no handler panics.** -/
theorem noLeak_iff {as : List SessionAct} {s : Session S} (hok : ∀ a ∈ as, a.succeeds = true)
    (hup : SessionAct.abort ∉ as) (h : run step (init S true) as = some s)
    (hselect : s.client.phase = .select) : NoLeak s ↔ ∀ a ∈ as, a.panics = false := by
  have hinv : s.shipped = true ∧ s.conn.Alive ∧ Balanced s := by
    refine run_invariant (P := fun a => a.succeeds = true ∧ a ≠ .abort) (I := fun s : Session S =>
      s.shipped = true ∧ s.conn.Alive ∧ Balanced s) ?_ (fun a ha => ⟨hok a ha, fun he => hup (he ▸ ha)⟩)
      ⟨rfl, ⟨rfl, rfl⟩, table_init true, fun _ => rfl, fun call hlt => by cases hlt⟩ h
    rintro s a s' ⟨hsucc, hne⟩ ⟨hship, halive, hbal⟩ hs
    exact ⟨(step_shipped hs).trans hship, step_alive halive hne hs,
      step_balanced hship hbal hsucc (step_rpcStep hs)⟩
  have hcrashed : s.conn.crashed = [] ↔ ∀ a ∈ as, a.panics = false := by
    have hall : SessionAct.abort ∉ as →
        (s.conn.Alive ∧ (s.conn.crashed = [] ↔ ∀ a ∈ as, a.panics = false)) := by
      refine run_history (I := fun as s => SessionAct.abort ∉ as →
        (s.conn.Alive ∧ (s.conn.crashed = [] ↔ ∀ a ∈ as, a.panics = false))) ?_ ?_ h
      · exact fun _ => ⟨⟨rfl, rfl⟩, by simp [init, Conn.init]⟩
      · intro bs s' a s'' _ ih hs hup'
        rw [List.mem_append, List.mem_singleton, not_or] at hup'
        obtain ⟨halive, hiff⟩ := ih hup'.1
        refine ⟨step_alive halive (Ne.symm hup'.2) hs, ?_⟩
        rw [step_crashed_iff halive (Ne.symm hup'.2) hs, hiff]
        simp [or_imp, forall_and]
    exact (hall hup).2
  rw [← hcrashed]
  constructor
  · intro hno
    by_contra hne
    exact not_noLeak_of_crashed hinv.2.2 hne hno
  · exact fun hnil => noLeak_of_balanced hinv.2.2 hnil hselect

/-- One call whose handler returns. -/
def answeredRun : List SessionAct :=
  [.client (.call [1]), .client .takeRequest, .client (.send .sent), .client .fillSlot,
    .conn .pollNext, .conn .pollNext, .conn .pollNext, .conn .pollNext, .conn (.clientMessage true),
    .conn (.handlerReturns 0 (.ok [10])), .conn .response, .conn (.sendDone true), .receive true]

theorem noLeak_answeredRun :
    ∃ s, run step (init counterState.toStateStruct true) answeredRun = some s ∧ NoLeak s := by
  have hrun : (run step (init counterState.toStateStruct true) answeredRun).isSome = true := rfl
  obtain ⟨s, hs⟩ := Option.isSome_iff_exists.mp hrun
  have hselect : (run step (init counterState.toStateStruct true) answeredRun).map
      (fun s => s.client.phase) = some .select := rfl
  rw [hs, Option.map_some, Option.some.injEq] at hselect
  exact ⟨s, hs, (noLeak_iff (by decide) (by simp [answeredRun]) hs hselect).mpr (by decide)⟩

/-- One call whose handler panics. -/
def panicRun : List SessionAct :=
  [.client (.call [1]), .client .takeRequest, .client (.send .sent), .client .fillSlot,
    .conn .pollNext, .conn .pollNext, .conn .pollNext, .conn .pollNext, .conn (.clientMessage true),
    .conn (.handlerPanics 0)]

/-- Slot 0 is taken on both ends, and nothing is on its way to free it. -/
theorem leak_panicRun : ¬ ∀ (as : List SessionAct) (s : Session counterState.toStateStruct),
    (∀ a ∈ as, a.succeeds = true) → SessionAct.abort ∉ as →
      run step (init counterState.toStateStruct true) as = some s → s.client.phase = .select →
        NoLeak s := by
  intro hall
  have hrun : (run step (init counterState.toStateStruct true) panicRun).map (fun s =>
      (s.client.phase, s.client.activeRpcCalls 0, s.conn.rpcView.live 0)) =
        some (.select, some 0, 0) := rfl
  obtain ⟨s, hs, hstate⟩ := Option.map_eq_some_iff.mp hrun
  simp only [Prod.mk.injEq] at hstate
  obtain ⟨hselect, hslot, hlive⟩ := hstate
  have hno := hall panicRun s (by decide) (by simp [panicRun]) hs hselect
  have hone := (hno.slot_iff 0).mp (by rw [show slotOf 0 = 0 from rfl, hslot]; rfl)
  rw [hlive] at hone
  cases hone

end Session

end HardLight
