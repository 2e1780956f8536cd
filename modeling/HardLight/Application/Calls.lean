import HardLight.Application.Client
import HardLight.Client.Stream
import HardLight.Lib.Past

/-!
# Calls on a generated client

`make_rpc_call` sends to the loop of its connection and waits for the loop's answer, and unwraps both. The
struct keeps its `rpc_tx` when the connection is shut down, so a call can be made to a loop that has ended, and
a loop can end with a call in its queue or in a slot.

* `Grows`, `step_grows` : what a task has answered stays answered, and only the shutdown ends its loop;
* `Safe`, `Endangers` : whether a call is made to a loop that is over, or a loop ends with a call on it
  unanswered;
* `Onward`, `step_onward` : the tasks after a step; `step_new_call` : its calls;
* `Live`, `step_live` : safe steps keep every call in progress answered or on a loop that runs;
* `step_endangers` : after a step that is not safe a call can panic at once;
* `neverPanics_iff` : no call panics, whichever is polled at whatever point, exactly if all steps are safe.
-/

namespace HardLight
open Lib

/-! ## What a task keeps -/

namespace Background
variable {S : StateStruct} {version : HeaderValue}

/-- A connected task stays connected and keeps what it has answered. -/
structure Grows (t t' : Background S) : Prop where
  loop : t.loop?.isSome = true → t'.loop?.isSome = true
  completion : ∀ call, (t.completion? call).isSome = true → (t'.completion? call).isSome = true

theorem Grows.refl (t : Background S) : Grows t t := ⟨id, fun _ => id⟩

theorem grows_of_phase {t t' : Background S} {loop loop' : ClientLoop S} (hphase : t.client.phase = .rpc loop)
    (hphase' : t'.client.phase = .rpc loop') {more : List (Call × Completion)}
    (hmore : loop'.completions = loop.completions ++ more) : Grows t t' := by
  have hloop : t.loop? = some loop := by rw [loop?, hphase]
  have hloop' : t'.loop? = some loop' := by rw [loop?, hphase']
  refine ⟨fun _ => by rw [hloop']; rfl, fun call hsome => ?_⟩
  rw [completion?, hloop', Option.bind_some, hmore, List.find?_append]
  rw [completion?, hloop, Option.bind_some, Option.isSome_map] at hsome
  rw [Option.isSome_map, Option.isSome_or, hsome, Bool.true_or]

theorem ended_iff {t : Background S} {loop : ClientLoop S} (hphase : t.client.phase = .rpc loop) :
    t.ended = true ↔ t.died = true ∨ loop.phase = .exited := by
  rw [ended, hphase, Bool.or_eq_true]
  cases hl : loop.phase <;> simp [hl]

/-- **A step of a connected task** keeps its answers, and ends it only if it is the shutdown. -/
theorem step_grows {t t' : Background S} {listening : Bool} {a : ClientTaskAct}
    (h : t.step version listening a = some t') : Grows t t' ∧
      (t.loop?.isSome = true → t'.ended = true → a = .loop .shutdown) := by
  obtain ⟨hrun, -, hdied, hstep⟩ := step_cases h
  rw [Bool.eq_false_iff] at hrun
  -- the step of the loop, as one of a stream that is open
  have hgrows {loop loop' : ClientLoop S} {b : StreamAct} (ht : t.client.phase = .rpc loop)
      (ht' : t'.client.phase = .rpc loop')
      (hs : ClientStream.StreamStep { loop := loop, endedAt := none } b { loop := loop', endedAt := none })
      (hb : b = .loop .shutdown → a = .loop .shutdown) :
      Grows t t' ∧ (t.loop?.isSome = true → t'.ended = true → a = .loop .shutdown) := by
    rw [Ne, ended_iff ht, not_or] at hrun
    obtain ⟨⟨more, hmore⟩, hexits⟩ := hs.grows
    refine ⟨grows_of_phase ht ht' hmore, fun _ hended => ?_⟩
    rcases (ended_iff ht').mp hended with hdied' | hexit
    · exact absurd (hdied ▸ hdied') hrun.1
    · rcases hexits hexit with hexit | heq
      · exact absurd hexit hrun.2
      · exact hb heq
  -- before the loop there is nothing to keep
  have hnone (hphase : t.client.phase = .connecting) :
      Grows t t' ∧ (t.loop?.isSome = true → t'.ended = true → a = .loop .shutdown) := by
    have hloop : t.loop? = none := by rw [loop?, hphase]
    refine ⟨⟨fun hs => ?_, fun call hs => ?_⟩, fun hs => ?_⟩
    · rw [hloop] at hs; cases hs
    · rw [completion?, hloop] at hs; cases hs
    · rw [hloop] at hs; cases hs
  cases hstep with
  | entered _ hphase hphase' => exact hnone hphase
  | failed _ ha hphase hphase' => exact hnone hphase
  | looped b loop x hphase hx hphase' =>
    exact hgrows hphase hphase' (ClientStream.loop_cases (s := { loop := loop, endedAt := none }) hx)
      fun heq => by rw [StreamAct.loop.inj heq]
  | received msg loop loop' hphase hloop' hphase' =>
    exact hgrows hphase hphase' (ClientStream.receive_cases (s := { loop := loop, endedAt := none }) rfl hloop')
      fun heq => by cases heq

theorem step_shutdown {t t' : Background S} {listening : Bool}
    (h : t.step version listening (.loop .shutdown) = some t') :
    t'.ended = true ∧ ∀ call, t'.completion? call = t.completion? call := by
  obtain ⟨-, -, -, hstep⟩ := step_cases h
  cases hstep with
  | failed _ ha hphase hphase' => exact absurd rfl (ha .shutdown)
  | looped _ loop x hphase hx hphase' =>
    obtain ⟨loop', hloop', rfl⟩ := Option.map_eq_some_iff.mp hx
    obtain ⟨-, rfl⟩ := ClientLoop.shutdown_cases hloop'
    refine ⟨(ended_iff hphase').mpr (Or.inr rfl), fun call => ?_⟩
    have hloop : t.loop? = some loop := by rw [loop?, hphase]
    have hloop' : t'.loop? = some { loop with phase := .exited } := by rw [loop?, hphase']
    rw [completion?, completion?, hloop, hloop']
    rfl

end Background

/-! ## Calls and the tasks they are on -/

namespace CallPhase
variable {S : StateStruct}

/-- The call is on its way to the loop of task `k`, or waits for it. -/
def PendingOn (tasks : List (Background S)) (k : Nat) : CallPhase → Prop
  | sending j _ => j = k
  | awaiting j call => j = k ∧ ∀ t, tasks[j]? = some t → t.completion? call = none
  | _ => False

/-- The call is in progress and can get no answer any more. -/
def Unanswerable (tasks : List (Background S)) : CallPhase → Prop
  | sending k _ => ∃ t, tasks[k]? = some t ∧ t.ended = true
  | awaiting k call => ∃ t, tasks[k]? = some t ∧ t.ended = true ∧ t.completion? call = none
  | _ => False

/-- The call has not panicked, and if it is in progress it will be answered or its loop goes on. -/
def Answerable (tasks : List (Background S)) : CallPhase → Prop
  | sending k _ => ∃ t, tasks[k]? = some t ∧ t.loop?.isSome = true ∧ t.ended = false
  | awaiting k call => ∃ t, tasks[k]? = some t ∧ t.loop?.isSome = true ∧
      (t.ended = true → (t.completion? call).isSome = true)
  | panicked => False
  | _ => True

theorem Answerable.not_unanswerable {tasks : List (Background S)} {phase : CallPhase}
    (h : phase.Answerable tasks) : ¬ phase.Unanswerable tasks := by
  intro hlost
  cases phase with
  | sending k internal =>
    obtain ⟨t, ht, -, hrun⟩ := h
    obtain ⟨u, hu, hended⟩ := hlost
    rw [ht] at hu
    cases hu
    rw [hended] at hrun
    cases hrun
  | awaiting k call =>
    obtain ⟨t, ht, -, hanswer⟩ := h
    obtain ⟨u, hu, hended, hnone⟩ := hlost
    rw [ht] at hu
    cases hu
    have hsome := hanswer hended
    rw [hnone] at hsome
    cases hsome
  | _ => exact hlost

end CallPhase

namespace ApplicationClient
variable {S : StateStruct} {version : HeaderValue}

/-- The task that the action ends. -/
def ends : ApplicationAct → Option Nat
  | .task k (.loop .shutdown) => some k
  | .die k => some k
  | _ => none

/-- The action neither ends a loop with an unanswered call on it nor makes a call to a loop that is over. -/
structure Safe (s : ApplicationClient S) (a : ApplicationAct) : Prop where
  ends : ∀ k, ends a = some k → ∀ phase ∈ s.calls, ¬ phase.PendingOn s.tasks k
  begins : ∀ internal, a = .makeRpcCall (some internal) →
    ∀ k t, s.rpcTx = some k → s.tasks[k]? = some t → t.ended = false

/-- After `bs`, the action `a` is not safe. -/
def Endangers (version : HeaderValue) (S : StateStruct) (bs : List ApplicationAct) (a : ApplicationAct) : Prop :=
  ∃ s, run (step version) (init S) bs = some s ∧ ¬ Safe s a

/-- **No RPC call panics** in a run. -/
structure NeverPanics (version : HeaderValue) (S : StateStruct) (as : List ApplicationAct) : Prop where
  /-- Whichever call is polled, at whatever point. -/
  no_panic : ∀ n b s, run (step version) (init S) (as.take n ++ [b]) = some s → .panicked ∉ s.calls
  /-- No call in progress is left without an answer by the end of its connection. -/
  answerable : ∀ n s, run (step version) (init S) (as.take n) = some s →
    ∀ phase ∈ s.calls, ¬ phase.Unanswerable s.tasks
  not_connected : ∀ n encoded s s', run (step version) (init S) (as.take n) = some s → s.rpcTx = none →
    s.step version (.makeRpcCall encoded) = some s' →
      s'.calls = s.calls ++ [.returned (.error .clientNotConnected)]

/-- The connection of the struct has had a loop, and every call is answerable. -/
structure Live (s : ApplicationClient S) : Prop where
  rpc_tx : ∀ k, s.rpcTx = some k → ∃ t, s.tasks[k]? = some t ∧ t.loop?.isSome = true
  calls : ∀ phase ∈ s.calls, phase.Answerable s.tasks

theorem live_init (S : StateStruct) : Live (init S) where
  rpc_tx k h := by cases h
  calls phase h := by cases h

/-! ## The tasks after a step -/

/-- The tasks go on, and of those in their loop no other ends than `ended`. -/
def Onward (tasks tasks' : List (Background S)) (ended : Option Nat) : Prop :=
  ∀ (k : Nat) (t : Background S), tasks[k]? = some t → ∃ t', tasks'[k]? = some t' ∧ t.Grows t' ∧
    (t.loop?.isSome = true → t'.ended = true → t.ended = true ∨ ended = some k)

theorem onward_refl (tasks : List (Background S)) (ended : Option Nat) : Onward tasks tasks ended :=
  fun _ t ht => ⟨t, ht, .refl t, fun _ hended => Or.inl hended⟩

theorem onward_set {tasks : List (Background S)} {k : Nat} {t t' : Background S} {ended : Option Nat}
    (ht : tasks[k]? = some t) (hgrows : t.Grows t')
    (hends : t.loop?.isSome = true → t'.ended = true → t.ended = true ∨ ended = some k) :
    Onward tasks (tasks.set k t') ended := by
  intro j u hu
  by_cases h : k = j
  · subst h
    rw [ht] at hu
    cases hu
    exact ⟨t', by rw [List.getElem?_set_self (List.getElem?_eq_some_iff.mp ht).1], hgrows, hends⟩
  · exact ⟨u, by rw [List.getElem?_set_ne h, hu], .refl u, fun _ hended => Or.inl hended⟩

theorem onward_signalTo (s : ApplicationClient S) (sender : Option Nat) (x : Signal) :
    Onward s.tasks (s.signalTo sender x).tasks none := by
  cases sender with
  | none => exact onward_refl s.tasks none
  | some j =>
    intro k t ht
    refine ⟨if j = k then { t with signal := x } else t, ?_, ?_⟩
    · show (s.tasks.modify j fun t => { t with signal := x })[k]? = _
      rw [List.getElem?_modify, ht]
      rfl
    · split
      · exact ⟨⟨id, fun _ => id⟩, fun _ hended => Or.inl hended⟩
      · exact ⟨.refl t, fun _ hended => Or.inl hended⟩

theorem QuietStep.onward {s s' : ApplicationClient S} {a : ApplicationAct} (h : QuietStep version s a s') :
    Onward s.tasks s'.tasks (ends a) := by
  cases h with
  | stepped k a t t' ht hstep =>
    obtain ⟨hgrows, hends⟩ := Background.step_grows hstep
    refine onward_set ht hgrows fun hloop hended => Or.inr ?_
    rw [hends hloop hended, ends]
  | died k t ht hended => exact onward_set ht ⟨id, fun _ => id⟩ fun _ _ => Or.inr rfl
  | queued n k internal t loop loop' hcall ht hended hphase hloop =>
    have hstep : ClientStream.StreamStep { loop := loop, endedAt := none } (.loop (.call internal))
        { loop := loop', endedAt := none } :=
      ClientStream.loop_cases (s := { loop := loop, endedAt := none }) (x := (loop', none))
        (by rw [ClientLoop.step, hloop]; rfl)
    obtain ⟨⟨more, hmore⟩, hexits⟩ := hstep.grows
    refine onward_set ht (Background.grows_of_phase hphase rfl hmore) fun _ hended' => Or.inl ?_
    rcases (Background.ended_iff rfl).mp hended' with hdied | hexit
    · exact (Background.ended_iff hphase).mpr (Or.inl hdied)
    · rcases hexits hexit with hexit | hno
      · exact (Background.ended_iff hphase).mpr (Or.inr hexit)
      · cases hno
  | _ => exact onward_refl s.tasks _

/-- What the operations on the client itself leave behind: the calls, and a task to each sender. -/
structure Managed (s s' : ApplicationClient S) : Prop where
  tasks : Onward s.tasks s'.tasks none
  calls : s'.calls = s.calls
  rpc_tx : ∀ k, s'.rpcTx = some k → s.rpcTx = some k ∨ ∃ t, s.tasks[k]? = some t ∧ t.loop?.isSome = true

theorem managed_signalTo (s : ApplicationClient S) (sender : Option Nat) (x : Signal) :
    Managed s (s.signalTo sender x) := by
  refine ⟨onward_signalTo s sender x, ?_, fun k hk => Or.inl ?_⟩
  · cases sender <;> rfl
  · cases sender <;> exact hk

theorem OperationStep.managed {s s' : ApplicationClient S} {a : ApplicationAct} (h : OperationStep s a s') :
    Managed s s' := by
  cases h with
  | connect hexcl =>
    refine ⟨fun k t ht => ⟨t, ?_, .refl t, fun _ hended => Or.inl hended⟩, rfl, fun k hk => Or.inl hk⟩
    rw [List.getElem?_append_left (List.getElem?_eq_some_iff.mp ht).1, ht]
  | connected k t loop hattempt ht hloop =>
    obtain ⟨htasks, hcalls, -⟩ := managed_signalTo s s.shutdown .dropped
    refine ⟨htasks, hcalls, fun j hj => Or.inr ?_⟩
    cases hj
    exact ⟨t, ht, by rw [hloop]; rfl⟩
  | connectEnds how k hattempt =>
    obtain ⟨htasks, hcalls, hrpc⟩ := managed_signalTo { s with attempt := none } (some k) .dropped
    exact ⟨htasks, hcalls, hrpc⟩
  | disconnect hexcl =>
    obtain ⟨htasks, hcalls, hrpc⟩ := managed_signalTo s s.shutdown .fired
    exact ⟨htasks, hcalls, hrpc⟩
  | drop hexcl =>
    obtain ⟨htasks, hcalls, -⟩ := managed_signalTo s s.shutdown .fired
    exact ⟨htasks, hcalls, fun k hk => by cases hk⟩

/-- **The tasks after a step.** -/
theorem step_onward {s s' : ApplicationClient S} {a : ApplicationAct} (h : s.step version a = some s') :
    Onward s.tasks s'.tasks (ends a) := by
  cases hq : quiet a with
  | true => exact (step_quiet hq h).onward
  | false =>
    have hnone : ends a = none := by
      unfold ends
      split
      · cases hq
      · cases hq
      · rfl
    rw [hnone]
    exact (step_operation hq h).managed.tasks

theorem step_rpcTx {s s' : ApplicationClient S} {a : ApplicationAct} (h : s.step version a = some s') {k : Nat}
    (hk : s'.rpcTx = some k) : s.rpcTx = some k ∨ ∃ t, s.tasks[k]? = some t ∧ t.loop?.isSome = true := by
  cases hq : quiet a with
  | true =>
    have hsame : s'.rpcTx = s.rpcTx := congrArg Ownership.rpcTx (step_quiet hq h).ownership
    rw [hsame] at hk
    exact Or.inl hk
  | false => exact (step_operation hq h).managed.rpc_tx k hk

/-! ## Calls in a step -/

theorem answerable_of_onward {tasks tasks' : List (Background S)} {ended : Option Nat}
    (h : Onward tasks tasks' ended) {phase : CallPhase} (hinv : phase.Answerable tasks)
    (hno : ∀ k, ended = some k → ¬ phase.PendingOn tasks k) : phase.Answerable tasks' := by
  cases phase with
  | sending k internal =>
    obtain ⟨t, ht, hloop, hended⟩ := hinv
    obtain ⟨t', ht', hgrows, hends⟩ := h k t ht
    refine ⟨t', ht', hgrows.loop hloop, Bool.eq_false_iff.mpr fun hended' => ?_⟩
    rcases hends hloop hended' with hc | hc
    · rw [hended] at hc
      cases hc
    · exact hno k hc rfl
  | awaiting k call =>
    obtain ⟨t, ht, hloop, hanswer⟩ := hinv
    obtain ⟨t', ht', hgrows, hends⟩ := h k t ht
    refine ⟨t', ht', hgrows.loop hloop, fun hended' => hgrows.completion call ?_⟩
    rcases hends hloop hended' with hc | hc
    · exact hanswer hc
    · by_contra hnone
      refine hno k hc ⟨rfl, fun u hu => ?_⟩
      rw [ht] at hu
      cases hu
      exact Option.not_isSome_iff_eq_none.mp hnone
  | returned result => trivial
  | panicked => exact hinv
  | cancelled => trivial

/-- The calls of a step, where all the calls before it are answerable: none that is new has panicked. -/
theorem QuietStep.new_call {s s' : ApplicationClient S} {a : ApplicationAct} (hinv : Live s)
    (h : QuietStep version s a s') {phase : CallPhase} (hphase : phase ∈ s'.calls) :
    phase ∈ s.calls ∨ (phase ≠ .panicked ∧ (Safe s a → phase.Answerable s'.tasks)) := by
  have honward := h.onward
  -- a call that is over has an answer
  have hreturned {result : HandlerResult Bytes} (hmem : phase ∈ s.calls ++ [.returned result]) :
      phase ∈ s.calls ∨ (phase ≠ .panicked ∧ (Safe s a → phase.Answerable s'.tasks)) := by
    rcases List.mem_append.mp hmem with hmem | hmem
    · exact Or.inl hmem
    · rw [List.mem_singleton.mp hmem]
      exact Or.inr ⟨by simp, fun _ => trivial⟩
  cases h with
  | stepped k a t t' ht hstep => exact Or.inl hphase
  | died k t ht hended => exact Or.inl hphase
  | notConnected encoded hrpc => exact hreturned hphase
  | notEncoded k hrpc => exact hreturned hphase
  | begun k internal hrpc =>
    rcases List.mem_append.mp hphase with hmem | hmem
    · exact Or.inl hmem
    · rw [List.mem_singleton.mp hmem]
      refine Or.inr ⟨by simp, fun hsafe => ?_⟩
      obtain ⟨t, ht, hloop⟩ := hinv.rpc_tx k hrpc
      exact ⟨t, ht, hloop, hsafe.begins internal rfl k t hrpc ht⟩
  | refused n k internal t hcall ht hended =>
    obtain ⟨u, hu, -, hrun⟩ := hinv.calls _ (List.mem_of_getElem? hcall)
    rw [ht] at hu
    cases hu
    rw [hended] at hrun
    cases hrun
  | queued n k internal t loop loop' hcall ht hended hloop hcalled =>
    rcases List.mem_or_eq_of_mem_set hphase with hmem | rfl
    · exact Or.inl hmem
    · refine Or.inr ⟨by simp, fun _ => ?_⟩
      obtain ⟨t', ht', hgrows, hends⟩ := honward k t ht
      have hsome : t.loop?.isSome = true := by rw [Background.loop?, hloop]; rfl
      refine ⟨t', ht', hgrows.loop hsome, fun hended' => ?_⟩
      rcases hends hsome hended' with hc | hc
      · rw [hended] at hc
        cases hc
      · cases hc
  | answered n k call t completion hcall ht hcompletion =>
    rcases List.mem_or_eq_of_mem_set hphase with hmem | rfl
    · exact Or.inl hmem
    · exact Or.inr ⟨by simp, fun _ => trivial⟩
  | lost n k call t hcall ht hnone hended =>
    obtain ⟨u, hu, -, hanswer⟩ := hinv.calls _ (List.mem_of_getElem? hcall)
    rw [ht] at hu
    cases hu
    have hsome := hanswer hended
    rw [hnone] at hsome
    cases hsome
  | cancelled n before hcall hfinished =>
    rcases List.mem_or_eq_of_mem_set hphase with hmem | rfl
    · exact Or.inl hmem
    · exact Or.inr ⟨by simp, fun _ => trivial⟩

theorem step_new_call {s s' : ApplicationClient S} {a : ApplicationAct} (hinv : Live s)
    (h : s.step version a = some s') {phase : CallPhase} (hphase : phase ∈ s'.calls) :
    phase ∈ s.calls ∨ (phase ≠ .panicked ∧ (Safe s a → phase.Answerable s'.tasks)) := by
  cases hq : quiet a with
  | true => exact (step_quiet hq h).new_call hinv hphase
  | false => exact Or.inl ((step_operation hq h).managed.calls ▸ hphase)

/-- **A safe step keeps every call answerable.** -/
theorem step_live {s s' : ApplicationClient S} {a : ApplicationAct} (hinv : Live s) (hsafe : Safe s a)
    (h : s.step version a = some s') : Live s' := by
  have honward := step_onward h
  refine ⟨fun k hk => ?_, fun phase hphase => ?_⟩
  · have htask : ∃ t, s.tasks[k]? = some t ∧ t.loop?.isSome = true := by
      rcases step_rpcTx h hk with hk | hk
      · exact hinv.rpc_tx k hk
      · exact hk
    obtain ⟨t, ht, hloop⟩ := htask
    obtain ⟨t', ht', hgrows, -⟩ := honward k t ht
    exact ⟨t', ht', hgrows.loop hloop⟩
  · rcases step_new_call hinv h hphase with hold | ⟨-, hnew⟩
    · exact answerable_of_onward honward (hinv.calls phase hold) fun k hk => hsafe.ends k hk phase hold
    · exact hnew hsafe

theorem Live.no_panic {s s' : ApplicationClient S} {a : ApplicationAct} (hinv : Live s)
    (h : s.step version a = some s') : .panicked ∉ s'.calls := by
  intro hmem
  rcases step_new_call hinv h hmem with hold | ⟨hne, -⟩
  · exact hinv.calls _ hold
  · exact hne rfl

/-! ## Steps that are not safe -/

theorem sendCall_panics {s : ApplicationClient S} {n k : Nat} {internal : Bytes} {t : Background S}
    (hcall : s.calls[n]? = some (.sending k internal)) (ht : s.tasks[k]? = some t) (hended : t.ended = true) :
    s.step version (.sendCall n) = some { s with calls := s.calls.set n .panicked } := by
  unfold step sendCall
  simp only [hcall, ht, hended, if_true]

theorem pollCall_panics {s : ApplicationClient S} {n k : Nat} {call : Call} {t : Background S}
    (hcall : s.calls[n]? = some (.awaiting k call)) (ht : s.tasks[k]? = some t) (hended : t.ended = true)
    (hnone : t.completion? call = none) :
    s.step version (.pollCall n) = some { s with calls := s.calls.set n .panicked } := by
  unfold step pollCall
  simp only [hcall, ht, hended, hnone, if_true]

/-- A call in progress that can get no answer panics when it is polled. -/
theorem panics_of_unanswerable {s : ApplicationClient S} {phase : CallPhase} (hphase : phase ∈ s.calls)
    (h : phase.Unanswerable s.tasks) : ∃ b s', s.step version b = some s' ∧ .panicked ∈ s'.calls := by
  obtain ⟨n, hn⟩ := List.mem_iff_getElem?.mp hphase
  have hmem : CallPhase.panicked ∈ s.calls.set n .panicked :=
    List.mem_set (List.getElem?_eq_some_iff.mp hn).1 _
  cases phase with
  | sending k internal =>
    obtain ⟨t, ht, hended⟩ := h
    exact ⟨.sendCall n, _, sendCall_panics hn ht hended, hmem⟩
  | awaiting k call =>
    obtain ⟨t, ht, hended, hnone⟩ := h
    exact ⟨.pollCall n, _, pollCall_panics hn ht hended hnone, hmem⟩
  | _ => cases h

theorem unanswerable_of_ends {s s' : ApplicationClient S} {a : ApplicationAct} {k : Nat} (ha : ends a = some k)
    (h : s.step version a = some s') {phase : CallPhase} (hphase : phase ∈ s.calls)
    (hpending : phase.PendingOn s.tasks k) : phase ∈ s'.calls ∧ phase.Unanswerable s'.tasks := by
  have hset {t t' : Background S} (ht : s.tasks[k]? = some t) (hended : t'.ended = true)
      (hsame : ∀ call, t'.completion? call = t.completion? call) :
      phase.Unanswerable (s.tasks.set k t') := by
    have ht' : (s.tasks.set k t')[k]? = some t' := List.getElem?_set_self (List.getElem?_eq_some_iff.mp ht).1
    cases phase with
    | sending j internal =>
      obtain rfl : j = k := hpending
      exact ⟨t', ht', hended⟩
    | awaiting j call =>
      obtain ⟨rfl, hnone⟩ := hpending
      exact ⟨t', ht', hended, (hsame call).trans (hnone t ht)⟩
    | _ => cases hpending
  have hquiet : quiet a = true := by
    unfold ends at ha
    split at ha
    · rfl
    · rfl
    · cases ha
  cases step_quiet hquiet h with
  | stepped j b t t' ht hstep =>
    unfold ends at ha
    split at ha
    next heq =>
      cases heq
      cases ha
      obtain ⟨hended, hsame⟩ := Background.step_shutdown hstep
      exact ⟨hphase, hset ht hended hsame⟩
    next heq => cases heq
    next => cases ha
  | died j t ht hended =>
    cases ha
    exact ⟨hphase, hset ht rfl fun _ => rfl⟩
  | _ => cases ha

/-- **After a step that is not safe a call can panic at once.** -/
theorem step_endangers {s s' : ApplicationClient S} {a : ApplicationAct} (hsafe : ¬ Safe s a)
    (h : s.step version a = some s') : ∃ b s'', s'.step version b = some s'' ∧ .panicked ∈ s''.calls := by
  by_contra hno
  refine hsafe ⟨fun k hk phase hphase hpending => hno ?_, fun internal ha k t hrpc ht => ?_⟩
  · obtain ⟨hmem, hlost⟩ := unanswerable_of_ends hk h hphase hpending
    exact panics_of_unanswerable hmem hlost
  · refine Bool.eq_false_iff.mpr fun hended => hno ?_
    subst ha
    cases step_quiet rfl h with
    | begun j _ hj =>
      rw [hrpc] at hj
      cases hj
      have hmem : CallPhase.sending k internal ∈ s.calls ++ [.sending k internal] :=
        List.mem_append_right _ (List.mem_singleton_self _)
      exact panics_of_unanswerable hmem ⟨t, ht, hended⟩
    | notConnected _ hj =>
      rw [hrpc] at hj
      cases hj

/-! ## The property -/

theorem live_of_run {s : ApplicationClient S} {as : List ApplicationAct}
    (h : run (step version) (init S) as = some s) (hno : ¬ Once (Endangers version S) as) : Live s := by
  refine run_history (I := fun as s => ¬ Once (Endangers version S) as → Live s) (fun _ => live_init S) ?_ h hno
  intro bs t a t' hrun hinv hs hnot
  rw [once_concat, not_or] at hnot
  refine step_live (hinv hnot.1) ?_ hs
  by_contra hunsafe
  exact hnot.2 ⟨t, hrun, hunsafe⟩

/-- **No call panics exactly if every step is safe**: no loop ends with an unanswered call on it, and no call
is made to a loop that is over. -/
theorem neverPanics_iff {s : ApplicationClient S} {as : List ApplicationAct}
    (h : run (step version) (init S) as = some s) :
    NeverPanics version S as ↔ ¬ Once (Endangers version S) as := by
  constructor
  · rintro hnever ⟨bs, a, cs, rfl, t, ht, hunsafe⟩
    obtain ⟨t₀, hbs, hrest⟩ := run_append_eq_some.mp h
    obtain rfl : t₀ = t := Option.some.inj (hbs.symm.trans ht)
    obtain ⟨t', hs, -⟩ := run_cons_eq_some.mp hrest
    obtain ⟨b, t'', hb, hmem⟩ := step_endangers hunsafe hs
    have htake : (bs ++ a :: cs).take (bs.length + 1) = bs ++ [a] := by
      rw [List.take_append, List.take_of_length_le (by omega), Nat.add_sub_cancel_left]
      rfl
    refine hnever.no_panic (bs.length + 1) b t'' ?_ hmem
    rw [htake]
    exact run_concat_eq_some.mpr ⟨t', run_concat_eq_some.mpr ⟨_, hbs, hs⟩, hb⟩
  · intro hno
    have hlive : ∀ n t, run (step version) (init S) (as.take n) = some t → Live t := by
      intro n t ht
      refine live_of_run ht fun honce => hno ?_
      rw [← List.take_append_drop n as]
      exact honce.append _
    refine ⟨fun n b t ht => ?_, fun n t ht phase hphase hlost => ?_, fun n encoded t t' ht hrpc hs => ?_⟩
    · obtain ⟨t', ht', hb⟩ := run_concat_eq_some.mp ht
      exact (hlive n t' ht').no_panic hb
    · exact ((hlive n t ht).calls phase hphase).not_unanswerable hlost
    · cases step_quiet rfl hs with
      | notConnected _ _ => rfl
      | notEncoded k hk => rw [hrpc] at hk; cases hk
      | begun k _ hk => rw [hrpc] at hk; cases hk

/-- A call that is answered, and then the shutdown of its connection. -/
def answeredRun : List ApplicationAct :=
  [.connect, .task 0 (.connected { status := 101, headers := [(.secWebSocketProtocol, ascii "hl/1")] } true),
    .connected, .makeRpcCall (some [1]), .sendCall 0, .task 0 (.loop .takeRequest),
    .task 0 (.loop (.send .sent)), .task 0 (.loop .fillSlot),
    .task 0 (.receive (some (.rpcResponse { id := 0, output := .ok [2], call := 0 }))), .pollCall 0,
    .disconnect, .task 0 (.loop .shutdown)]

theorem neverPanics_answeredRun : ∃ s, run (step (ascii "hl/1")) (init counterState.toStateStruct) answeredRun =
    some s ∧ (NeverPanics (ascii "hl/1") counterState.toStateStruct answeredRun ↔
      ¬ Once (Endangers (ascii "hl/1") counterState.toStateStruct) answeredRun) := by
  have hrun : (run (step (ascii "hl/1")) (init counterState.toStateStruct) answeredRun).isSome = true := rfl
  obtain ⟨s, hs⟩ := Option.isSome_iff_exists.mp hrun
  exact ⟨s, hs, neverPanics_iff hs⟩

/-- A connection that is shut down, and then called. -/
def disconnectedRun : List ApplicationAct :=
  [.connect, .task 0 (.connected { status := 101, headers := [(.secWebSocketProtocol, ascii "hl/1")] } true),
    .connected, .disconnect, .task 0 (.loop .shutdown), .makeRpcCall (some [1])]

/-- The call panics in its send. -/
theorem panics_disconnectedRun : ¬ ∀ (as : List ApplicationAct) (s : ApplicationClient counterState.toStateStruct),
    run (step (ascii "hl/1")) (init counterState.toStateStruct) as = some s →
      NeverPanics (ascii "hl/1") counterState.toStateStruct as := by
  intro hall
  have hrun : (run (step (ascii "hl/1")) (init counterState.toStateStruct) disconnectedRun).isSome = true := rfl
  have hcalls : (run (step (ascii "hl/1")) (init counterState.toStateStruct)
      (disconnectedRun.take 6 ++ [.sendCall 0])).map (fun s => s.calls) = some [.panicked] := rfl
  obtain ⟨s, hs⟩ := Option.isSome_iff_exists.mp hrun
  obtain ⟨t, ht, hpanicked⟩ := Option.map_eq_some_iff.mp hcalls
  refine (hall disconnectedRun s hs).no_panic 6 (.sendCall 0) t ht ?_
  rw [hpanicked]
  exact List.mem_singleton_self _

end ApplicationClient

end HardLight
