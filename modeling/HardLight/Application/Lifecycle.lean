import HardLight.Application.Client

/-!
# The life of a generated client

Over every order of `connect` (which succeeds, fails, panics or is cancelled), `disconnect` and the final
drop, with the spawned tasks at any point of their own.

* `OwnershipStep`, `step_ownership` : what the operations do to the senders;
* `Owned`, `OwnershipStep.owned` : the sender of a task's shutdown channel is there exactly as long as the struct or a
  waiting `connect` has it;
* `waiting_fields` : a `connect` that does not succeed leaves the fields as they were;
* `Lifecycle`, `lifecycle_of_run` : the fields belong to the last connection, and every other task has been
  told to stop.
-/

namespace HardLight
open Lib

namespace ApplicationClient
variable {S : StateStruct} {version : HeaderValue}

/-- Who has which sender. -/
structure Owned (o : Ownership) : Prop where
  rpc_tx : o.rpcTx = if o.dropped then none else o.last
  events_tx : o.eventsTx = o.rpcTx
  state : o.state = o.rpcTx
  shutdown_last : ∀ k : Nat, o.shutdown = some k → o.last = some k
  attempt_new : ∀ k : Nat, o.attempt = some k → o.last ≠ some k ∧ o.dropped = false
  last_lt : ∀ k : Nat, o.last = some k → k < o.signals.length
  signal_iff : ∀ (k : Nat) (x : Signal), o.signals[k]? = some x →
    (x = .held ↔ o.attempt = some k ∨ o.shutdown = some k)

theorem owned_init (S : StateStruct) : Owned (init S).ownership where
  rpc_tx := rfl
  events_tx := rfl
  state := rfl
  shutdown_last k h := by cases h
  attempt_new k h := by cases h
  last_lt k h := by cases h
  signal_iff k x h := by cases h

/-- The signals when a sender is used or dropped. -/
def release (signals : List Signal) (sender : Option Nat) (x : Signal) : List Signal :=
  match sender with
  | some k => signals.modify k fun _ => x
  | none => signals

theorem length_release (signals : List Signal) (sender : Option Nat) (x : Signal) :
    (release signals sender x).length = signals.length := by
  cases sender with
  | none => rfl
  | some k => exact List.length_modify _ _ _

theorem getElem?_release (signals : List Signal) (sender : Option Nat) (x : Signal) (k : Nat) :
    (release signals sender x)[k]? = signals[k]?.map fun y => if sender = some k then x else y := by
  cases sender with
  | none => simp [release]
  | some j =>
    rw [release, List.getElem?_modify]
    simp only [Option.some.injEq]
    rfl

theorem signal_release {signals : List Signal} {P : Nat → Prop}
    (hinv : ∀ k x, signals[k]? = some x → (x = .held ↔ P k)) (sender : Option Nat) {y : Signal}
    (hy : y ≠ .held) (k : Nat) (x : Signal) (hx : (release signals sender y)[k]? = some x) :
    x = .held ↔ P k ∧ sender ≠ some k := by
  rw [getElem?_release] at hx
  obtain ⟨z, hz, rfl⟩ := Option.map_eq_some_iff.mp hx
  by_cases h : sender = some k
  · simp [h, hy]
  · simp [h, hinv k z hz]

theorem ownership_signalTo (s : ApplicationClient S) (sender : Option Nat) (x : Signal) :
    (s.signalTo sender x).ownership = { s.ownership with signals := release s.ownership.signals sender x } := by
  cases sender with
  | none => rfl
  | some k =>
    have hmap : (s.tasks.modify k fun t => { t with signal := x }).map (·.signal) =
        (s.tasks.map (·.signal)).modify k fun _ => x := by
      apply List.ext_getElem?
      intro j
      rw [List.getElem?_map, List.getElem?_modify, List.getElem?_modify, List.getElem?_map]
      cases s.tasks[j]? with
      | none => rfl
      | some t => by_cases h : k = j <;> simp [h]
    simp only [ownership, signalTo, release, hmap]

/-! ## The operations -/

/-- What the steps do to the ownership. -/
inductive OwnershipStep (o : Ownership) : ApplicationAct → Ownership → Prop
  | quiet (a : ApplicationAct) (ha : ApplicationClient.quiet a = true) : OwnershipStep o a o
  | connect (hattempt : o.attempt = none) (hopen : o.dropped = false) :
      OwnershipStep o .connect { o with attempt := some o.signals.length, signals := o.signals ++ [.held] }
  | connected (k : Nat) (hattempt : o.attempt = some k) (hk : k < o.signals.length) :
      OwnershipStep o .connected { o with
        shutdown := some k, rpcTx := some k, eventsTx := some k, state := some k, attempt := none, last := some k
        signals := release o.signals o.shutdown .dropped }
  | connectEnds (how : ConnectEnd) (k : Nat) (hattempt : o.attempt = some k) :
      OwnershipStep o (.connectEnds how) { o with
        attempt := none, signals := release o.signals (some k) .dropped }
  | disconnect (hattempt : o.attempt = none) :
      OwnershipStep o .disconnect { o with shutdown := none, signals := release o.signals o.shutdown .fired }
  | drop (hattempt : o.attempt = none) :
      OwnershipStep o .drop { o with
        shutdown := none, rpcTx := none, eventsTx := none, state := none, dropped := true
        signals := release o.signals o.shutdown .fired }

theorem exclusive_cases {s : ApplicationClient S} (h : s.exclusive = true) :
    s.attempt = none ∧ s.dropped = false := by
  simp only [exclusive, shared, Bool.and_eq_true, Option.isNone_iff_eq_none, Bool.not_eq_true'] at h
  exact h.1

theorem shutDown_ownership (s : ApplicationClient S) : s.shutDown.ownership = { s.ownership with
    shutdown := none, signals := release s.ownership.signals s.shutdown .fired } :=
  congrArg (fun o : Ownership => { o with shutdown := none }) (ownership_signalTo s s.shutdown .fired)

theorem OperationStep.ownership {s s' : ApplicationClient S} {a : ApplicationAct} (h : OperationStep s a s') :
    OwnershipStep s.ownership a s'.ownership := by
  cases h with
  | connect hexcl =>
    have heq : ({ s with attempt := some s.tasks.length, tasks := s.tasks ++ [.spawn S] } :
        ApplicationClient S).ownership = { s.ownership with
          attempt := some s.ownership.signals.length, signals := s.ownership.signals ++ [.held] } := by
      simp [ApplicationClient.ownership, Background.spawn]
    rw [heq]
    exact .connect (exclusive_cases hexcl).1 (exclusive_cases hexcl).2
  | connected k t loop hattempt ht hloop =>
    have hk : k < s.ownership.signals.length := by
      simpa [ApplicationClient.ownership] using (List.getElem?_eq_some_iff.mp ht).1
    have heq : ({ s.signalTo s.shutdown .dropped with
        shutdown := some k, rpcTx := some k, eventsTx := some k, state := some k, attempt := none
        last := some k } : ApplicationClient S).ownership = _ :=
      congrArg (fun o : Ownership => { o with
        shutdown := some k, rpcTx := some k, eventsTx := some k, state := some k, attempt := none
        last := some k }) (ownership_signalTo s s.shutdown .dropped)
    rw [heq]
    exact .connected k hattempt hk
  | connectEnds how k hattempt =>
    rw [ownership_signalTo]
    exact .connectEnds how k hattempt
  | disconnect hexcl =>
    rw [shutDown_ownership]
    exact .disconnect (exclusive_cases hexcl).1
  | drop hexcl =>
    have heq : ({ s.shutDown with rpcTx := none, eventsTx := none, state := none, dropped := true } :
        ApplicationClient S).ownership = _ :=
      congrArg (fun o : Ownership => { o with
        rpcTx := none, eventsTx := none, state := none, dropped := true }) (shutDown_ownership s)
    rw [heq]
    exact .drop (exclusive_cases hexcl).1

theorem step_ownership {s s' : ApplicationClient S} {a : ApplicationAct} (h : s.step version a = some s') :
    OwnershipStep s.ownership a s'.ownership := by
  cases hq : quiet a with
  | true =>
    rw [(step_quiet hq h).ownership]
    exact .quiet a hq
  | false => exact (step_operation hq h).ownership

/-- With no `connect` waiting, no signal is held once the sender in the struct is used. -/
theorem Owned.stopped {o : Ownership} (hinv : Owned o) (hattempt : o.attempt = none) (k : Nat) (x : Signal)
    (hx : (release o.signals o.shutdown .fired)[k]? = some x) : x ≠ .held := by
  have hsignal := signal_release (y := .fired) hinv.signal_iff o.shutdown (by decide)
  rw [Ne, hsignal k x hx, hattempt]
  rintro ⟨hk | hk, hne⟩
  · cases hk
  · exact hne hk

theorem Owned.last_lt_release {o : Ownership} (hinv : Owned o) (sender : Option Nat) (x : Signal) (k : Nat)
    (hk : o.last = some k) : k < (release o.signals sender x).length := by
  rw [length_release]
  exact hinv.last_lt k hk

/-- **Every step keeps the account of the senders.** -/
theorem OwnershipStep.owned {o o' : Ownership} {a : ApplicationAct} (hinv : Owned o)
    (h : OwnershipStep o a o') : Owned o' := by
  cases h with
  | quiet => exact hinv
  | connect hattempt hopen =>
    have hfresh : o.last ≠ some o.signals.length := fun hlast => Nat.lt_irrefl _ (hinv.last_lt _ hlast)
    have hunshut : o.shutdown ≠ some o.signals.length := fun hs => hfresh (hinv.shutdown_last _ hs)
    refine ⟨hinv.rpc_tx, hinv.events_tx, hinv.state, hinv.shutdown_last, fun k hk => ?_, fun k hk => ?_,
      fun k x hx => ?_⟩
    · cases hk
      exact ⟨hfresh, hopen⟩
    · have hlt := hinv.last_lt k hk
      rw [List.length_append]
      omega
    · show x = .held ↔ some o.signals.length = some k ∨ o.shutdown = some k
      by_cases hk : k < o.signals.length
      · rw [List.getElem?_append_left hk] at hx
        rw [hinv.signal_iff k x hx, hattempt]
        simp [show o.signals.length ≠ k by omega]
      · rw [List.getElem?_append_right (by omega)] at hx
        obtain ⟨hzero, hx⟩ := List.getElem?_eq_some_iff.mp hx
        rw [List.length_singleton] at hzero
        obtain rfl : k = o.signals.length := by omega
        simpa using hx.symm
  | connected k hattempt hk =>
    have hsignal := signal_release (y := .dropped) hinv.signal_iff o.shutdown (by decide)
    obtain ⟨hnew, hopen⟩ := hinv.attempt_new k hattempt
    refine ⟨by simp [hopen], rfl, rfl, fun j hj => hj, (fun j hj => by cases hj), fun j hj => ?_,
      fun j x hx => ?_⟩
    · cases hj
      rwa [length_release]
    · -- the sender of the task just connected is in the struct, the one that was there is dropped
      rw [hsignal j x hx, hattempt]
      show (some k = some j ∨ o.shutdown = some j) ∧ o.shutdown ≠ some j ↔ none = some j ∨ some k = some j
      have hne : some k = some j → o.shutdown ≠ some j := by
        rintro ⟨⟩ hs
        exact hnew (hinv.shutdown_last k hs)
      constructor
      · rintro ⟨hj | hj, hno⟩
        · exact Or.inr hj
        · exact absurd hj hno
      · rintro (hj | hj)
        · cases hj
        · exact ⟨Or.inl hj, hne hj⟩
  | connectEnds how k hattempt =>
    have hsignal := signal_release (y := .dropped) hinv.signal_iff (some k) (by decide)
    refine ⟨hinv.rpc_tx, hinv.events_tx, hinv.state, hinv.shutdown_last, (fun j hj => by cases hj),
      hinv.last_lt_release (some k) .dropped, fun j x hx => ?_⟩
    · rw [hsignal j x hx, hattempt]
      show (some k = some j ∨ o.shutdown = some j) ∧ some k ≠ some j ↔ none = some j ∨ o.shutdown = some j
      constructor
      · rintro ⟨hj | hj, hno⟩
        · exact absurd hj hno
        · exact Or.inr hj
      · rintro (hj | hj)
        · cases hj
        · refine ⟨Or.inr hj, ?_⟩
          rintro ⟨⟩
          exact (hinv.attempt_new k hattempt).1 (hinv.shutdown_last k hj)
  | disconnect hattempt =>
    refine ⟨hinv.rpc_tx, hinv.events_tx, hinv.state, (fun j hj => by cases hj), hinv.attempt_new,
      hinv.last_lt_release o.shutdown .fired, fun j x hx => ?_⟩
    · rw [iff_false_intro (hinv.stopped hattempt j x hx)]
      simp [hattempt]
  | drop hattempt =>
    refine ⟨rfl, rfl, rfl, (fun j hj => by cases hj), fun j hj => ?_,
      hinv.last_lt_release o.shutdown .fired, fun j x hx => ?_⟩
    · rw [hattempt] at hj
      cases hj
    · rw [iff_false_intro (hinv.stopped hattempt j x hx)]
      simp [hattempt]

theorem owned_of_run {s : ApplicationClient S} {as : List ApplicationAct}
    (h : run (step version) (init S) as = some s) : Owned s.ownership :=
  run_invariant (P := fun _ => True) (I := fun s => Owned s.ownership)
    (fun _ _ _ _ hinv hs => (step_ownership hs).owned hinv) (fun _ _ => trivial) (owned_init S) h

/-! ## The property -/

/-- The four fields that `connect` sets. -/
def fields (o : Ownership) : Option Nat × Option Nat × Option Nat × Option Nat :=
  (o.shutdown, o.rpcTx, o.eventsTx, o.state)

theorem OwnershipStep.waiting {o o' : Ownership} {a : ApplicationAct} (h : OwnershipStep o a o') {k : Nat}
    (hk : k < o.signals.length) : k < o'.signals.length ∧
      (o'.attempt = some k → o.attempt = some k ∧ fields o' = fields o) := by
  cases h with
  | quiet => exact ⟨hk, fun hattempt => ⟨hattempt, rfl⟩⟩
  | connect hattempt hopen =>
    refine ⟨by rw [List.length_append]; omega, fun hnew => ?_⟩
    have heq := Option.some.inj hnew
    omega
  | connected j hattempt hj => exact ⟨by rwa [length_release], fun hnew => by cases hnew⟩
  | connectEnds how j hattempt => exact ⟨by rwa [length_release], fun hnew => by cases hnew⟩
  | disconnect hattempt => exact ⟨by rwa [length_release], fun hnew => by rw [hattempt] at hnew; cases hnew⟩
  | drop hattempt => exact ⟨by rwa [length_release], fun hnew => by rw [hattempt] at hnew; cases hnew⟩

theorem OwnershipStep.started {o o' : Ownership} (h : OwnershipStep o .connect o') :
    ∃ k, k < o'.signals.length ∧ o'.attempt = some k ∧ fields o' = fields o := by
  cases h with
  | quiet _ ha => cases ha
  | connect hattempt hopen => exact ⟨o.signals.length, by simp, rfl, rfl⟩

theorem OwnershipStep.ended {o o' : Ownership} {how : ConnectEnd} (h : OwnershipStep o (.connectEnds how) o') :
    fields o' = fields o := by
  cases h with
  | quiet _ ha => cases ha
  | connectEnds _ k hattempt => rfl

theorem OwnershipStep.stops {o o' : Ownership} {a : ApplicationAct} (h : OwnershipStep o a o')
    (ha : a = .disconnect ∨ a = .drop) : o'.attempt = none ∧ o'.shutdown = none := by
  cases h with
  | disconnect hattempt => exact ⟨hattempt, rfl⟩
  | drop hattempt => exact ⟨hattempt, rfl⟩
  | quiet _ hq => rcases ha with rfl | rfl <;> cases hq
  | _ => rcases ha with ha | ha <;> cases ha

theorem waiting_fields {s s' : ApplicationClient S} {as : List ApplicationAct} {k : Nat}
    (hk : k < s.ownership.signals.length) (h : run (step version) s as = some s')
    (hattempt : s'.attempt = some k) : fields s'.ownership = fields s.ownership := by
  have hstep : ∀ (t : ApplicationClient S) (a : ApplicationAct) (t' : ApplicationClient S), True →
      (k < t.ownership.signals.length ∧ (t.attempt = some k → fields t.ownership = fields s.ownership)) →
        t.step version a = some t' →
          k < t'.ownership.signals.length ∧
            (t'.attempt = some k → fields t'.ownership = fields s.ownership) := by
    intro t a t' _ hinv hs
    obtain ⟨hlt, hwait⟩ := (step_ownership hs).waiting hinv.1
    refine ⟨hlt, fun hattempt => ?_⟩
    obtain ⟨hbefore, hsame⟩ := hwait hattempt
    exact hsame.trans (hinv.2 hbefore)
  have hinv := run_invariant (P := fun _ => True) hstep (fun _ _ => trivial) ⟨hk, fun _ => rfl⟩ h
  exact hinv.2 hattempt

/-- The loop of the task is running, and its shutdown channel has not been used. -/
def running (t : Background S) : Bool := !t.ended && t.loop?.isSome && t.signal == .held

/-- **What holds of a generated client.** -/
structure Lifecycle (version : HeaderValue) (s : ApplicationClient S) : Prop where
  /-- The fields belong to the last connection, if to any. -/
  same : (s.rpcTx = none ∧ s.state = none ∧ s.eventsTx = none) ∨
    ∃ k, s.last = some k ∧ s.rpcTx = some k ∧ s.state = some k ∧ s.eventsTx = some k
  /-- Every other task has been told to stop; while a `connect` waits, its own task is still its to stop. -/
  others : ∀ (k : Nat) (t : Background S), s.tasks[k]? = some t → s.last ≠ some k → s.attempt ≠ some k →
    t.signal = .fired ∨ t.signal = .dropped
  one : s.attempt = none → ∀ (j k : Nat) (t u : Background S), s.tasks[j]? = some t → s.tasks[k]? = some u →
    running t = true → running u = true → j = k
  stopped : ∀ a s', a = .disconnect ∨ a = .drop → s.step version a = some s' → ∀ t ∈ s'.tasks,
    t.signal = .fired ∨ t.signal = .dropped
  /-- A `connect` called now that fails, panics or is cancelled leaves the fields as they are. -/
  unchanged : ∀ s₁ as s₂ how s₃, s.step version .connect = some s₁ → run (step version) s₁ as = some s₂ →
    s₂.attempt = s₁.attempt → s₂.step version (.connectEnds how) = some s₃ →
      fields s₃.ownership = fields s.ownership

theorem signal_eq_of_ne {x : Signal} (h : x ≠ .held) : x = .fired ∨ x = .dropped := by
  cases x with
  | held => exact absurd rfl h
  | fired => exact Or.inl rfl
  | dropped => exact Or.inr rfl

theorem Owned.signal {s : ApplicationClient S} (hinv : Owned s.ownership) {k : Nat} {t : Background S}
    (ht : s.tasks[k]? = some t) : t.signal = .held ↔ s.attempt = some k ∨ s.shutdown = some k :=
  hinv.signal_iff k t.signal (by simp [ownership, ht])

theorem running_held {t : Background S} (h : running t = true) : t.signal = .held := by
  rw [running, Bool.and_eq_true, beq_iff_eq] at h
  exact h.2

/-- **A generated client leaves no connection running behind it.** -/
theorem lifecycle_of_run {s : ApplicationClient S} {as : List ApplicationAct}
    (h : run (step version) (init S) as = some s) : Lifecycle version s := by
  have hinv := owned_of_run h
  have hshut : ∀ k, s.shutdown = some k → s.last = some k := hinv.shutdown_last
  refine ⟨?_, fun k t ht hlast hattempt => ?_, fun hattempt j k t u ht hu hrt hru => ?_,
    fun a s' ha hs t ht => ?_, fun s₁ bs s₂ how s₃ hs₁ hrun hsame hs₃ => ?_⟩
  · have hrpc : s.rpcTx = if s.dropped then none else s.last := hinv.rpc_tx
    have hevents : s.eventsTx = s.rpcTx := hinv.events_tx
    have hstate : s.state = s.rpcTx := hinv.state
    rw [hevents, hstate]
    cases hcase : s.rpcTx with
    | none => exact Or.inl ⟨rfl, rfl, rfl⟩
    | some k =>
      refine Or.inr ⟨k, ?_, rfl, rfl, rfl⟩
      rw [hcase] at hrpc
      split at hrpc
      · cases hrpc
      · exact hrpc.symm
  · refine signal_eq_of_ne fun hheld => ?_
    rcases (hinv.signal ht).mp hheld with hk | hk
    · exact hattempt hk
    · exact hlast (hshut k hk)
  · have hj := (hinv.signal ht).mp (running_held hrt)
    have hk := (hinv.signal hu).mp (running_held hru)
    rw [hattempt] at hj hk
    simp only [reduceCtorEq, false_or] at hj hk
    exact Option.some.inj (hj.symm.trans hk)
  · have hinv' := (step_ownership hs).owned hinv
    obtain ⟨k, hk⟩ := List.mem_iff_getElem?.mp ht
    refine signal_eq_of_ne fun hheld => ?_
    have hown := (hinv'.signal hk).mp hheld
    have hnone : s'.attempt = none ∧ s'.shutdown = none := (step_ownership hs).stops ha
    rw [hnone.1, hnone.2] at hown
    simp at hown
  · obtain ⟨k, hk, hattempt, hstart⟩ := (step_ownership hs₁).started
    have hwait := waiting_fields hk hrun (hsame.trans hattempt)
    exact (step_ownership hs₃).ended.trans (hwait.trans hstart)

/-- A client that connects, fails to connect again, disconnects, and is dropped. -/
def reconnectRun : List ApplicationAct :=
  [.connect, .task 0 (.connected { status := 101, headers := [(.secWebSocketProtocol, ascii "hl/1")] } true),
    .connected, .connect, .task 1 .connectFails, .connectEnds .fails, .disconnect, .task 0 (.loop .shutdown), .drop]

theorem lifecycle_reconnectRun : ∃ s, run (step (ascii "hl/1")) (init counterState.toStateStruct) reconnectRun =
    some s ∧ s.tasks.map (·.signal) = [.fired, .dropped] ∧ Lifecycle (ascii "hl/1") s := by
  have hrun : (run (step (ascii "hl/1")) (init counterState.toStateStruct) reconnectRun).map (fun s =>
      s.tasks.map (·.signal)) = some [.fired, .dropped] := rfl
  obtain ⟨s, hs, hsignals⟩ := Option.map_eq_some_iff.mp hrun
  exact ⟨s, hs, hsignals, lifecycle_of_run hs⟩

end ApplicationClient

end HardLight
