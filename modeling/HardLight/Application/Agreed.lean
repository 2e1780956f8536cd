import HardLight.Application.World

/-!
# What an application and its server agree on

A loop is entered after the handshake only, so what the handshake settled holds for every call.

* `Composed`, `step_composed` : every connection is a session, and calls are sent to loops only;
* `Agreed`, `agreed_of_run` : versions and levels, along every run.
-/

namespace HardLight
open Lib

variable {S : StateStruct}

namespace ApplicationClient

theorem LoopsStep.stays {version : HeaderValue} {s s' : ApplicationClient S} {a : ApplicationAct}
    (h : LoopsStep version s a s') {k : Nat} (hk : (s.loopAt k).isSome = true) : (s'.loopAt k).isSome = true := by
  have hupdate {j : Nat} {loop : ClientLoop S} (hloops : s'.loopAt = Function.update s.loopAt j (some loop)) :
      (s'.loopAt k).isSome = true := by
    rw [hloops]
    by_cases hj : k = j
    · subst hj
      rw [Function.update_self]
      rfl
    · rwa [Function.update_of_ne hj]
  cases h with
  | same _ _ hloop hmsg hloops => rwa [hloops]
  | entered j response _ hnone hversion hloops => exact hupdate hloops
  | queued n j internal loop loop' _ hcall hloop hstep hcalls hloops => exact hupdate hloops
  | looped j b loop x _ hloop hstep hown hloops => exact hupdate hloops
  | received j msg loop loop' _ hloop hstep hloops => exact hupdate hloops

theorem step_connected {version : HeaderValue} {s s' : ApplicationClient S} {a : ApplicationAct}
    (hinv : ∀ k, s.rpcTx = some k → (s.loopAt k).isSome = true) (h : s.step version a = some s') (k : Nat)
    (hk : s'.rpcTx = some k) : (s'.loopAt k).isSome = true := by
  refine (step_loops h).stays ?_
  rcases step_rpcTx h hk with hold | ⟨t, ht, hloop⟩
  · exact hinv k hold
  · rwa [loopAt_of_getElem? ht]

/-- As long as nothing is connected, every call returns that nothing is. -/
theorem step_refused {version : HeaderValue} {s s' : ApplicationClient S} {a : ApplicationAct}
    (hrpc : s.rpcTx = none) (hcalls : ∀ phase ∈ s.calls, phase = .returned (.error .clientNotConnected))
    (h : s.step version a = some s') : ∀ phase ∈ s'.calls, phase = .returned (.error .clientNotConnected) := by
  have hover {n : Nat} {phase : CallPhase} (hcall : s.calls[n]? = some phase) :
      phase = .returned (.error .clientNotConnected) := hcalls phase (List.mem_of_getElem? hcall)
  cases hq : quiet a with
  | true =>
    cases step_quiet hq h with
    | stepped k a t t' ht hstep => exact hcalls
    | died k t ht hended => exact hcalls
    | notConnected encoded hnone =>
      intro phase hphase
      rcases List.mem_append.mp hphase with hold | hnew
      · exact hcalls phase hold
      · exact List.mem_singleton.mp hnew
    | notEncoded k hsome =>
      rw [hrpc] at hsome
      cases hsome
    | begun k internal hsome =>
      rw [hrpc] at hsome
      cases hsome
    | refused n k internal t hcall ht hended => cases hover hcall
    | queued n k internal t loop loop' hcall ht hended hphase hloop => cases hover hcall
    | answered n k call t completion hcall ht hcompletion => cases hover hcall
    | lost n k call t hcall ht hnone hended => cases hover hcall
    | cancelled n phase hcall hfinished =>
      rw [hover hcall] at hfinished
      cases hfinished
  | false =>
    rw [(step_operation hq h).managed.calls]
    exact hcalls

end ApplicationClient

namespace World
variable {d : Deployment}

/-- **Every connection is a session**, and the application's senders are those of loops. -/
structure Composed (d : Deployment) (w : World S) : Prop where
  linked : ∀ k, Linked d (w.app.loopAt k) (w.servers k)
  connected : ∀ k, w.app.rpcTx = some k → (w.app.loopAt k).isSome = true
  refused : d.clientMajor ≠ d.serverMajor →
    ∀ phase ∈ w.app.calls, phase = .returned (.error .clientNotConnected)

theorem composed_init (d : Deployment) (S : StateStruct) : Composed d (init S) where
  linked _ := linked_init d S
  connected k h := by cases h
  refused _ phase h := by cases h

theorem step_composed {w w' : World S} {a : WorldAct} (hinv : Composed d w) (h : w.step d a = some w') :
    Composed d w' := by
  refine ⟨step_linked hinv.linked h, ?_, fun hne => ?_⟩
  · rcases step_app h with ⟨happ, -, -⟩ | ⟨b, happ, -, -⟩
    · rw [happ]
      exact hinv.connected
    · exact ApplicationClient.step_connected hinv.connected happ
  · rcases step_app h with ⟨happ, -, -⟩ | ⟨b, happ, -, -⟩
    · rw [happ]
      exact hinv.refused hne
    · refine ApplicationClient.step_refused ?_ (hinv.refused hne) happ
      rw [Option.eq_none_iff_forall_ne_some]
      intro k hk
      exact hne ((hinv.linked k).entered (hinv.connected k hk)).1

theorem composed_of_run {as : List WorldAct} {w : World S} (h : run (step d) (init S) as = some w) :
    Composed d w :=
  run_invariant (P := fun _ => True) (fun _ _ _ _ hinv hs => step_composed hinv hs) (fun _ _ => trivial)
    (composed_init d S) h

/-! ## The property -/

/-- **What is agreed on** when a loop is entered. -/
structure Agreed (d : Deployment) (w : World S) : Prop where
  /-- A client in its loop has the version of the server, which is in its own. -/
  version : ∀ k, (w.app.loopAt k).isSome = true →
    d.clientMajor = d.serverMajor ∧ ((w.servers k).conn?).isSome = true
  /-- The server compresses at the level of the client, if there is such a level. -/
  level : ∀ k compression conn, (w.servers k).phase = .rpc compression conn → compression = negotiated d.level
  /-- With another version every call returns at once, and no handler is started on any connection. -/
  refused : d.clientMajor ≠ d.serverMajor →
    (∀ phase ∈ w.app.calls, phase = .returned (.error .clientNotConnected)) ∧
      ∀ k, (w.servers k).accepted = []

theorem Linked.accepted_nil {loop : Option (ClientLoop S)} {server : ServerTask} (h : Linked d loop server)
    (hnone : loop = none) : server.accepted = [] := by
  subst hnone
  unfold ServerTask.accepted
  split
  next compression conn hphase =>
    obtain ⟨-, as, hrun⟩ := h.session compression conn hphase
    have hpaired := (Session.orderly_of_run hrun).paired
    rw [List.eq_nil_iff_forall_not_mem]
    intro q hq
    have hown := hpaired.invoked_own q hq
    cases hown
  next => rfl

theorem Composed.agreed {w : World S} (h : Composed d w) : Agreed d w where
  version k hk := (h.linked k).entered hk
  level k compression conn hphase := ((h.linked k).session compression conn hphase).1
  refused hne := by
    refine ⟨h.refused hne, fun k => (h.linked k).accepted_nil ?_⟩
    rw [← Option.not_isSome_iff_eq_none]
    exact fun hk => hne ((h.linked k).entered hk).1

/-- **The two ends agree in every run** of an application and its server, over all its connections. -/
theorem agreed_of_run {as : List WorldAct} {w : World S} (h : run (step d) (init S) as = some w) : Agreed d w :=
  (composed_of_run h).agreed

end World

/-- Version 1 on both ends. -/
def sampleDeployment : Deployment where
  lib := sampleLib
  create_response_plain req response h := by
    obtain ⟨-, h⟩ := Option.ite_none_right_eq_some.mp h
    cases h
    rfl
  serverMajor := 1
  clientMajor := 1
  host := ascii "localhost:8080"
  key _ := ascii "dGhlIHNhbXBsZSBub25jZQ=="
  level := 9

namespace World

/-- The first connection is made. -/
def connectRun : List WorldAct :=
  [.app .connect, .server 0 (.tlsAccept true), .server 0 (.upgrade (sampleDeployment.request 0)), .response 0 true,
    .app .connected]

theorem agreed_connectRun : ∃ w, run (step sampleDeployment) (init counterState.toStateStruct) connectRun = some w ∧
    (w.app.loopAt 0).isSome = true ∧ Agreed sampleDeployment w := by
  have hrun : (run (step sampleDeployment) (init counterState.toStateStruct) connectRun).map
      (fun w => (w.app.loopAt 0).isSome) = some true := rfl
  obtain ⟨w, hw, hloop⟩ := Option.map_eq_some_iff.mp hrun
  exact ⟨w, hw, hloop, agreed_of_run hw⟩

end World

end HardLight
