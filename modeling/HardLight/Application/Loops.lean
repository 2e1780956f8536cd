import HardLight.Application.Client
import HardLight.Client.Fate

/-!
# The client loop where it runs

The loop of a session and the loops of the tasks that a generated client spawns do what a client stream does,
so what holds for any server holds of them.

* `Reached` : a loop as some run on a stream that is open leaves it;
* `Session.reached_of_run` : the client loop of a session, with any peer;
* `Background.step_sound`, `ApplicationClient.step_sound` : every spawned task keeps its loop so;
* `ApplicationClient.fate_of_poll` : what `make_rpc_call` returns is the fate of its own call;
* `LoopsStep`, `step_loops` : what a step of the application does to the loops of its connections.
-/

namespace HardLight
open Lib

variable {S : StateStruct} {version : HeaderValue}

namespace ClientStream

/-- The loop is where a run of the stream may leave it. -/
def Reached (loop : ClientLoop S) : Prop :=
  ∃ bs, run step (init S) bs = some { loop := loop, endedAt := none }

theorem reached_init (S : StateStruct) : Reached (ClientLoop.init S) := ⟨[], rfl⟩

theorem Reached.loop {loop : ClientLoop S} (h : Reached loop) {a : ClientAct}
    {x : ClientLoop S × Option Request} (hs : loop.step a = some x) : Reached x.1 := by
  obtain ⟨bs, hrun⟩ := h
  refine ⟨bs ++ [.loop a], run_concat_eq_some.mpr ⟨_, hrun, ?_⟩⟩
  show (loop.step a).map _ = _
  rw [hs]
  rfl

theorem Reached.receive {loop loop' : ClientLoop S} (h : Reached loop) {msg : Option ServerMessage}
    (hs : loop.onServerMessage msg = some loop') : Reached loop' := by
  obtain ⟨bs, hrun⟩ := h
  refine ⟨bs ++ [.receive msg], run_concat_eq_some.mpr ⟨_, hrun, ?_⟩⟩
  show (loop.onServerMessage msg).map _ = _
  rw [hs]
  rfl

end ClientStream

/-- **The client loop of a session** does what it does with any server. -/
theorem Session.reached_of_run {shipped : Bool} {as : List SessionAct} {s : Session S}
    (h : run step (init S shipped) as = some s) : ClientStream.Reached s.client := by
  refine run_invariant (P := fun _ => True) (I := fun s : Session S => ClientStream.Reached s.client) ?_
    (fun _ _ => trivial) (ClientStream.reached_init S) h
  intro t a t' _ hinv hs
  cases a with
  | client a =>
    obtain ⟨out, hc, -, -⟩ := step_client hs
    exact hinv.loop hc
  | receive decoded =>
    obtain ⟨msg, rest, -, -, hc, -⟩ := step_receive hs
    exact hinv.receive hc
  | conn a =>
    rw [(step_conn hs).1]
    exact hinv
  | abort =>
    cases hs
    exact hinv

/-! ## The tasks -/

namespace Background

/-- The loop of the task, if it has one, is where a run of its own leaves it. -/
def Sound (t : Background S) : Prop := ∀ loop, t.client.phase = .rpc loop → ClientStream.Reached loop

theorem phase_of_loop {t : Background S} {loop : ClientLoop S} (h : t.loop? = some loop) :
    t.client.phase = .rpc loop := by
  unfold loop? at h
  split at h
  next loop' hphase => rw [hphase, Option.some.inj h]
  next => cases h

theorem spawn_sound (S : StateStruct) : (spawn S).Sound := fun loop h => by cases h

theorem step_sound {t t' : Background S} {listening : Bool} {a : ClientTaskAct} (hinv : t.Sound)
    (h : t.step version listening a = some t') : t'.Sound := by
  intro loop' hloop'
  obtain ⟨-, -, -, hstep⟩ := step_cases h
  cases hstep with
  | entered response hphase hphase' =>
    rw [hphase'] at hloop'
    cases hloop'
    exact ClientStream.reached_init S
  | failed _ ha hphase hphase' => exact absurd hloop' (hphase' loop')
  | looped b loop x hphase hx hphase' =>
    rw [hphase'] at hloop'
    cases hloop'
    exact (hinv loop hphase).loop hx
  | received msg loop loop'' hphase hreceive hphase' =>
    rw [hphase'] at hloop'
    cases hloop'
    exact (hinv loop hphase).receive hreceive

end Background

namespace ApplicationClient

theorem sound_signalTo {s : ApplicationClient S} (hinv : ∀ t ∈ s.tasks, t.Sound) (sender : Option Nat)
    (x : Signal) : ∀ t ∈ (s.signalTo sender x).tasks, t.Sound := by
  cases sender with
  | none => exact hinv
  | some k =>
    intro t ht
    obtain ⟨j, hj⟩ := List.mem_iff_getElem?.mp ht
    replace hj : (s.tasks.modify k fun t => { t with signal := x })[j]? = some t := hj
    rw [List.getElem?_modify] at hj
    obtain ⟨u, hu, rfl⟩ := Option.map_eq_some_iff.mp hj
    have hsound := hinv u (List.mem_of_getElem? hu)
    split
    · exact hsound
    · exact hsound

/-- **Every step keeps the loops of the tasks** where runs of their own leave them. -/
theorem step_sound {s s' : ApplicationClient S} {a : ApplicationAct} (hinv : ∀ t ∈ s.tasks, t.Sound)
    (h : s.step version a = some s') : ∀ t ∈ s'.tasks, t.Sound := by
  have hset {k : Nat} {t' : Background S} (ht' : t'.Sound) : ∀ t ∈ s.tasks.set k t', t.Sound := by
    intro t ht
    rcases List.mem_or_eq_of_mem_set ht with ht | rfl
    · exact hinv t ht
    · exact ht'
  cases hq : quiet a with
  | true =>
    cases step_quiet hq h with
    | stepped k a t t' ht hstep => exact hset (Background.step_sound (hinv t (List.mem_of_getElem? ht)) hstep)
    | died k t ht hended => exact hset (hinv t (List.mem_of_getElem? ht))
    | queued n k internal t loop loop' hcall ht hended hphase hloop =>
      refine hset fun loop'' heq => ?_
      cases heq
      have hstep : loop.step (.call internal) = some (loop', none) := by
        rw [ClientLoop.step, hloop]
        rfl
      exact (hinv t (List.mem_of_getElem? ht) loop hphase).loop hstep
    | _ => exact hinv
  | false =>
    cases step_operation hq h with
    | connect hexcl =>
      intro t ht
      rcases List.mem_append.mp ht with ht | ht
      · exact hinv t ht
      · rw [List.mem_singleton.mp ht]
        exact Background.spawn_sound S
    | connected k t loop hattempt ht hloop => exact sound_signalTo hinv s.shutdown .dropped
    | connectEnds how k hattempt => exact sound_signalTo hinv (some k) .dropped
    | disconnect hexcl => exact sound_signalTo hinv s.shutdown .fired
    | drop hexcl => exact sound_signalTo hinv s.shutdown .fired

theorem sound_of_run {s : ApplicationClient S} {as : List ApplicationAct}
    (h : run (step version) (init S) as = some s) : ∀ t ∈ s.tasks, t.Sound :=
  run_invariant (P := fun _ => True) (I := fun s : ApplicationClient S => ∀ t ∈ s.tasks, t.Sound)
    (fun _ _ _ _ hinv hs => step_sound hinv hs) (fun _ _ => trivial) (fun t ht => by cases ht) h

/-- **What a call returns is its fate** on the stream of its connection, whatever the server does there. -/
theorem fate_of_poll {s s' : ApplicationClient S} {as : List ApplicationAct} {n : Nat}
    (h : run (step version) (init S) as = some s) (hpoll : s.step version (.pollCall n) = some s') :
    ∃ k call t, s.calls[n]? = some (.awaiting k call) ∧ s.tasks[k]? = some t ∧
      ((t.ended = true ∧ s'.calls = s.calls.set n .panicked) ∨
        ∃ loop bs completion, t.loop? = some loop ∧
          run ClientStream.step (ClientStream.init S) bs = some { loop := loop, endedAt := none } ∧
          ClientStream.Fate S call completion bs ∧
          s'.calls = s.calls.set n (.returned completion.result)) := by
  cases step_quiet rfl hpoll with
  | lost _ k call t hcall ht hnone hended => exact ⟨k, call, t, hcall, ht, Or.inl ⟨hended, rfl⟩⟩
  | answered _ k call t completion hcall ht hcompletion =>
    refine ⟨k, call, t, hcall, ht, Or.inr ?_⟩
    obtain ⟨loop, hloop, hfound⟩ := Option.bind_eq_some_iff.mp hcompletion
    obtain ⟨bs, hrun⟩ := sound_of_run h t (List.mem_of_getElem? ht) loop (Background.phase_of_loop hloop)
    obtain ⟨x, hx, rfl⟩ := Option.map_eq_some_iff.mp hfound
    refine ⟨loop, bs, x.2, hloop, hrun, ((ClientStream.recorded_of_run hrun).fate call x.2).mp ?_, rfl⟩
    have hcall : x.1 = call := by simpa using List.find?_some hx
    rw [← hcall]
    exact List.mem_of_find?_eq_some hx

end ApplicationClient

/-! ## The loops of the connections -/

namespace ApplicationClient

/-- The loop of connection `k`, once it is entered. -/
def loopAt (s : ApplicationClient S) (k : Nat) : Option (ClientLoop S) := s.tasks[k]?.bind Background.loop?

/-- What a step does to the loops. -/
inductive LoopsStep (version : HeaderValue) (s : ApplicationClient S) : ApplicationAct → ApplicationClient S → Prop
  | same (a : ApplicationAct) (s' : ApplicationClient S) (hloop : ∀ k b, a ≠ .task k (.loop b))
      (hmsg : ∀ k msg, a ≠ .task k (.receive msg)) (hloops : s'.loopAt = s.loopAt) : LoopsStep version s a s'
  | entered (k : Nat) (response : HttpResponse) (s' : ApplicationClient S) (hnone : s.loopAt k = none)
      (hversion : response.headers.get .secWebSocketProtocol = some version)
      (hloops : s'.loopAt = Function.update s.loopAt k (some (.init S))) :
      LoopsStep version s (.task k (.connected response true)) s'
  | queued (n k : Nat) (internal : Bytes) (loop loop' : ClientLoop S) (s' : ApplicationClient S)
      (hcall : s.calls[n]? = some (.sending k internal)) (hloop : s.loopAt k = some loop)
      (hstep : loop.call internal = some loop') (hcalls : s'.calls = s.calls.set n (.awaiting k loop.issued.length))
      (hloops : s'.loopAt = Function.update s.loopAt k (some loop')) : LoopsStep version s (.sendCall n) s'
  | looped (k : Nat) (b : ClientAct) (loop : ClientLoop S) (x : ClientLoop S × Option Request)
      (s' : ApplicationClient S) (hloop : s.loopAt k = some loop) (hstep : loop.step b = some x)
      (hown : ∀ internal, b ≠ .call internal)
      (hloops : s'.loopAt = Function.update s.loopAt k (some x.1)) : LoopsStep version s (.task k (.loop b)) s'
  | received (k : Nat) (msg : Option ServerMessage) (loop loop' : ClientLoop S) (s' : ApplicationClient S)
      (hloop : s.loopAt k = some loop) (hstep : loop.onServerMessage msg = some loop')
      (hloops : s'.loopAt = Function.update s.loopAt k (some loop')) : LoopsStep version s (.task k (.receive msg)) s'

theorem loopAt_set {s : ApplicationClient S} {k : Nat} {t : Background S} (ht : s.tasks[k]? = some t)
    (t' : Background S) (calls : List CallPhase) :
    loopAt { s with tasks := s.tasks.set k t', calls := calls } = Function.update s.loopAt k t'.loop? := by
  have hk := (List.getElem?_eq_some_iff.mp ht).1
  funext j
  by_cases hj : j = k
  · subst hj
    rw [Function.update_self, loopAt, List.getElem?_set_self hk, Option.bind_some]
  · rw [Function.update_of_ne hj, loopAt, loopAt, List.getElem?_set_ne fun h => hj h.symm]

theorem loopAt_of_getElem? {s : ApplicationClient S} {k : Nat} {t : Background S} (ht : s.tasks[k]? = some t) :
    s.loopAt k = t.loop? := by
  rw [loopAt, ht, Option.bind_some]

theorem loopAt_signalTo (s : ApplicationClient S) (sender : Option Nat) (x : Signal) :
    (s.signalTo sender x).loopAt = s.loopAt := by
  cases sender with
  | none => rfl
  | some k =>
    funext j
    show (s.tasks.modify k fun t => { t with signal := x })[j]?.bind Background.loop? = _
    rw [List.getElem?_modify, loopAt]
    cases s.tasks[j]? with
    | none => rfl
    | some t =>
      rw [Option.map_eq_map, Option.map_some, Option.bind_some, Option.bind_some]
      split <;> rfl

theorem loop_of_phase {t : Background S} {loop : ClientLoop S} (h : t.client.phase = .rpc loop) :
    t.loop? = some loop := by
  rw [Background.loop?, h]

theorem loop_eq_none {t : Background S} (h : ∀ loop, t.client.phase ≠ .rpc loop) : t.loop? = none := by
  unfold Background.loop?
  split
  next loop hphase => exact absurd hphase (h loop)
  next => rfl

theorem Background.step_ne_call {version : HeaderValue} {listening : Bool} {t t' : Background S} {b : ClientAct}
    (h : t.step version listening (.loop b) = some t') (internal : Bytes) : b ≠ .call internal := by
  rintro rfl
  rw [Background.step, Option.ite_none_left_eq_some] at h
  exact h.1 (by rw [Background.allows, Bool.not_false, Bool.or_true])

theorem Background.loop_of_receive {version : HeaderValue} {listening : Bool} {t t' : Background S}
    {msg : Option ServerMessage} (h : t.step version listening (.receive msg) = some t') :
    ∃ loop, t.client.phase = .rpc loop := by
  rw [Background.step, Option.ite_none_left_eq_some, Option.map_eq_some_iff] at h
  obtain ⟨-, client, hstep, -⟩ := h
  rw [ClientTask.step] at hstep
  split at hstep
  next loop hphase => exact ⟨loop, hphase⟩
  next => cases hstep

theorem Background.step_version {version : HeaderValue} {listening l : Bool} {t t' : Background S}
    {response : HttpResponse} {loop : ClientLoop S} (h : t.step version listening (.connected response l) = some t')
    (hphase : t'.client.phase = .rpc loop) : response.headers.get .secWebSocketProtocol = some version := by
  rw [Background.step, Option.ite_none_left_eq_some, Option.map_eq_some_iff] at h
  obtain ⟨-, client, hstep, rfl⟩ := h
  rw [ClientTask.step] at hstep
  split at hstep
  next =>
    split at hstep
    next hcheck => exact checkResponse_ok_iff.mp hcheck
    next =>
      cases hstep
      exact absurd hphase (Background.report_ne_rpc (fun loop => by simp) listening loop)
  next => cases hstep

theorem QuietStep.loops {version : HeaderValue} {s s' : ApplicationClient S} {a : ApplicationAct}
    (h : QuietStep version s a s') : LoopsStep version s a s' := by
  cases h with
  | stepped k a t t' ht hstep =>
    have hset := loopAt_set ht t' s.calls
    obtain ⟨-, -, -, htask⟩ := Background.step_cases hstep
    cases htask with
    | entered response hphase hphase' =>
      rw [loop_of_phase hphase'] at hset
      exact .entered k response _ ((loopAt_of_getElem? ht).trans (loop_eq_none (by simp [hphase])))
        (Background.step_version hstep hphase') hset
    | failed _ ha hphase hphase' =>
      have hnone : s.loopAt k = none := (loopAt_of_getElem? ht).trans (loop_eq_none (by simp [hphase]))
      rw [loop_eq_none hphase', ← hnone, Function.update_eq_self] at hset
      refine .same _ _ (fun j b heq => ?_) (fun j msg heq => ?_) hset
      · cases heq
        exact ha b rfl
      · cases heq
        obtain ⟨loop, hloop⟩ := Background.loop_of_receive hstep
        rw [hphase] at hloop
        cases hloop
    | looped b loop x hphase hx hphase' =>
      rw [loop_of_phase hphase'] at hset
      exact .looped k b loop x _ ((loopAt_of_getElem? ht).trans (loop_of_phase hphase)) hx
        (Background.step_ne_call hstep) hset
    | received msg loop loop' hphase hloop' hphase' =>
      rw [loop_of_phase hphase'] at hset
      exact .received k msg loop loop' _ ((loopAt_of_getElem? ht).trans (loop_of_phase hphase)) hloop' hset
  | died k t ht hended =>
    have hset := loopAt_set ht { t with died := true } s.calls
    have hsame : s.loopAt k = Background.loop? { t with died := true } := (loopAt_of_getElem? ht).trans rfl
    rw [← hsame, Function.update_eq_self] at hset
    exact .same _ _ (fun _ _ => by simp) (fun _ _ => by simp) hset
  | queued n k internal t loop loop' hcall ht hended hphase hloop =>
    exact .queued n k internal loop loop' _ hcall ((loopAt_of_getElem? ht).trans (loop_of_phase hphase)) hloop rfl
      (loopAt_set ht _ _)
  | _ => exact .same _ _ (fun _ _ => by simp) (fun _ _ => by simp) rfl

theorem OperationStep.loops {s s' : ApplicationClient S} {a : ApplicationAct} (h : OperationStep s a s') :
    s'.loopAt = s.loopAt := by
  cases h with
  | connect hexcl =>
    funext k
    show (s.tasks ++ [Background.spawn S])[k]?.bind Background.loop? = _
    rw [loopAt, List.getElem?_append]
    split
    next => rfl
    next hlen =>
      rw [List.getElem?_eq_none (Nat.not_lt.mp hlen), Option.bind_none, Option.bind_eq_none_iff]
      intro t ht
      rw [List.mem_singleton.mp (List.mem_of_getElem? ht)]
      rfl
  | connected k t loop hattempt ht hloop => exact loopAt_signalTo s s.shutdown .dropped
  | connectEnds how k hattempt => exact loopAt_signalTo { s with attempt := none } (some k) .dropped
  | disconnect hexcl => exact loopAt_signalTo s s.shutdown .fired
  | drop hexcl => exact loopAt_signalTo s s.shutdown .fired

/-- **What a step does to the loops.** -/
theorem step_loops {version : HeaderValue} {s s' : ApplicationClient S} {a : ApplicationAct}
    (h : s.step version a = some s') : LoopsStep version s a s' := by
  cases hq : quiet a with
  | true => exact (step_quiet hq h).loops
  | false =>
    refine .same _ _ (fun k b heq => ?_) (fun k msg heq => ?_) (step_operation hq h).loops
    · subst heq
      cases hq
    · subst heq
      cases hq

end ApplicationClient

end HardLight
