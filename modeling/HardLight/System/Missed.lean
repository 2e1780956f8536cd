import HardLight.System.Delivery
import HardLight.Session.Precedence

/-!
# Events after a subscription

A call's handler emits an event on a topic that an earlier call's handler has added, and whose response
the client had when it made the later call.

* `subscribesFirst`, `mem_far_iff` : a topic of the near end is one of the far end unless the queue
  subscribes to it first;
* `Causes`, `step_causes` : the order of calls on each connection, and the calls that events come from;
* `Due` : the connection should get the event;
* `delivered_iff` : it does exactly when the switch has taken its `Subscribe` before. The `select!` of the
  switch polls events first;
* `NoneMissed`, `noneMissed_iff` : over a whole run.
-/

namespace HardLight
open Lib

namespace SubscriptionNotification
variable {χ : Type}

/-- The first notification on `t` in the queue is a `Subscribe`. -/
def subscribesFirst (q : List (SubscriptionNotification χ)) (t : Topic) : Bool :=
  (q.find? fun n => decide (n.topic = t)).any isSubscribe

theorem subscribesFirst_cons (n : SubscriptionNotification χ) (q : List (SubscriptionNotification χ))
    (t : Topic) :
    subscribesFirst (n :: q) t = if n.topic = t then n.isSubscribe else subscribesFirst q t := by
  rw [subscribesFirst, List.find?_cons]
  by_cases ht : n.topic = t
  · simp [ht]
  · simp [ht, subscribesFirst]

theorem mem_apply_of_ne {A : Subscriptions} {n : SubscriptionNotification χ} {t : Topic} (ht : n.topic ≠ t)
    (id : SubscriptionID) : (t, id) ∈ n.apply A ↔ (t, id) ∈ A := by
  cases n with
  | subscribe topic new tx =>
    have hne : (t, id) ≠ (topic, new) := fun he => ht (congrArg Prod.fst he).symm
    simp [apply, hne]
  | unsubscribe topic old =>
    have hne : (t, id) ≠ (topic, old) := fun he => ht (congrArg Prod.fst he).symm
    simp [apply, hne]

/-- **Where the far end is behind.** A topic of the near end is one of the far end too, unless the queue
subscribes to it first. -/
theorem mem_far_iff {far near : Subscriptions} {q : List (SubscriptionNotification χ)} {t : Topic}
    (h : Behind apply Enabled far q near) (hnear : ∃ id, (t, id) ∈ near) :
    (∃ id, (t, id) ∈ far) ↔ subscribesFirst q t = false := by
  induction q generalizing far with
  | nil =>
    rw [h.settled]
    exact iff_of_true hnear rfl
  | cons n q ih =>
    obtain ⟨hn, hrest⟩ := h.receive
    rw [subscribesFirst_cons]
    by_cases ht : n.topic = t
    · rw [if_pos ht]
      subst ht
      cases n with
      | subscribe topic new tx => exact iff_of_false (fun ⟨id, hin⟩ => hn id hin) (by simp [isSubscribe])
      | unsubscribe topic old => exact iff_of_true ⟨old, hn⟩ rfl
    · rw [if_neg ht, ← ih hrest]
      exact exists_congr fun id => (mem_apply_of_ne ht id).symm

end SubscriptionNotification

namespace System
variable {S : StateStruct}

/-! ## The order of calls -/

/-- The calls of connection `c`, whose peer is the client loop, and the events its handlers emit. -/
structure Causes (s : System S) (c : ConnId) : Prop where
  consistent : Session.Consistent (s.sessions c)
  precedence : Session.Precedence (s.sessions c)
  origin : ∀ x ∈ s.newEventRx, ∀ call, x.origin = some (c, call) → ∃ q ∈ (s.conn c).accepted, q.call = call

theorem step_accepted {s s' : System S} {a : SystemAct} (h : Step s a s') {c : ConnId} {q : Request}
    (hq : q ∈ (s.conn c).accepted) : q ∈ (s'.conn c).accepted := by
  rcases h.session_step c with hs | ⟨b, -, hs⟩
  · rw [conn, hs]
    exact hq
  · rcases Session.step_opStep hs with ⟨-, hop⟩ | ⟨-, -, hk⟩
    · exact hop.mem_accepted hq
    · rw [conn, hk]
      exact hq

theorem step_causes {s s' : System S} {a : SystemAct} {c : ConnId} (hinv : Causes s c) (h : Step s a s') :
    Causes s' c := by
  have hstep := h
  have hold : ∀ x ∈ s.newEventRx, ∀ call, x.origin = some (c, call) →
      ∃ q ∈ (s'.conn c).accepted, q.call = call := by
    intro x hx call ho
    obtain ⟨q, hq, heq⟩ := hinv.origin x hx call ho
    exact ⟨q, step_accepted h hq, heq⟩
  have hsession : Session.Consistent (s'.sessions c) ∧ Session.Precedence (s'.sessions c) := by
    rcases h.session_step c with hs | ⟨b, -, hs⟩
    · rw [hs]
      exact ⟨hinv.consistent, hinv.precedence⟩
    · exact ⟨Session.step_consistent hinv.consistent hs,
        Session.step_precedence hinv.consistent hinv.precedence hs⟩
  refine ⟨hsession.1, hsession.2, ?_⟩
  cases h with
  | emitted place origin event horigin =>
    intro x hx call ho
    rw [emit] at hx
    split at hx
    · rcases List.mem_append.mp hx with hx | hx
      · exact hold x hx call ho
      · rw [List.mem_singleton] at hx
        subst hx
        obtain ⟨r, hr, rfl⟩ := horigin c call ho
        obtain ⟨q, hq, heq⟩ := hinv.consistent.accepted_of_task hr
        exact ⟨q, step_accepted hstep hq, heq⟩
    · exact hold x hx call ho
  | event emission rest halive harm hq =>
    exact fun x hx => hold x (hq ▸ List.mem_cons_of_mem _ hx)
  | _ => exact hold

theorem causes_init {shipped : ConnId → Bool} {c : ConnId} (hship : shipped c = true) :
    Causes (init S shipped) c := by
  have hsession : (init S shipped).sessions c = .init S true :=
    congrArg (Session.init S) hship
  refine ⟨?_, ?_, fun x hx => by cases hx⟩
  · rw [hsession]
    exact Session.consistent_init S
  · rw [hsession]
    exact Session.precedence_init S

/-! ## Events that are due -/

/-- Connection `c` should get the event: its application made the call the event comes from after the
response of an earlier one, whose handler added the topic, and its handlers have not removed it since. -/
def Due (s : System S) (c : ConnId) (emission : Emission) : Prop :=
  ∃ call issue earlier before after, emission.origin = some (c, call) ∧
    (s.sessions c).client.issued[call]? = some issue ∧ earlier ∈ issue.seen ∧
    (s.conn c).handled ++ (s.conn c).proxyRx =
      before ++ ⟨some earlier, .subscribe emission.event.topic⟩ :: after ∧
    ∀ o ∈ after, o.op ≠ .unsubscribe emission.event.topic

theorem lastAdded_of_due {s : System S} {c : ConnId} {emission : Emission} (hcauses : Causes s c)
    (hin : emission ∈ s.newEventRx) (hdue : s.Due c emission) :
    HandlerOp.LastAdded (s.conn c).handled emission.event.topic := by
  obtain ⟨call, issue, earlier, before, after, horigin, hissue, hseen, hops, hafter⟩ := hdue
  obtain ⟨q, hq, rfl⟩ := hcauses.origin emission hin call horigin
  have hnone := hcauses.precedence.accepted q hq issue hissue earlier hseen
  rcases List.append_eq_append_iff.mp hops with ⟨mid, rfl, hproxy⟩ | ⟨mid, hhandled, hrest⟩
  · exact absurd rfl (hnone _ (hproxy ▸ List.mem_append_right _ List.mem_cons_self))
  · cases mid with
    | nil =>
      rw [List.nil_append] at hrest
      exact absurd rfl (hnone _ (hrest ▸ List.mem_cons_self))
    | cons o mid =>
      rw [List.cons_append, List.cons.injEq] at hrest
      obtain ⟨rfl, rfl⟩ := hrest
      exact ⟨before, _, mid, hhandled, rfl, fun o ho => hafter o (List.mem_append_left _ ho)⟩

/-- **The connection gets an event that is due exactly when its `Subscribe` is not queued any more.** -/
theorem delivered_iff {s s' : System S} {c : ConnId} {emission : Emission} {rest : List Emission}
    (hviews : Views s c) (hcauses : Causes s c) (hex : (s.conn c).exited = false)
    (hq : s.newEventRx = emission :: rest) (hdue : s.Due c emission) (h : Step s .switchEvent s') :
    (s'.conn c).eventsRx = (s.conn c).eventsRx ++ [emission.event] ↔
      SubscriptionNotification.subscribesFirst (s.queueOf c) emission.event.topic = false := by
  cases h with
  | event emission' rest' halive harm hq' =>
    rw [hq] at hq'
    cases hq'
    have hlast := lastAdded_of_due hcauses (hq ▸ List.mem_cons_self) hdue
    have hlocal : emission.event.topic ∈ (s.conn c).localTopics := by
      rw [hviews.topics halive, HandlerOp.mem_replay_iff]
      exact Or.inl hlast
    have hfar := SubscriptionNotification.mem_far_iff (hviews.behind hex) (Conn.mem_localTopics_iff.mp hlocal)
    have hgot : EventSwitch.subscribes s.switch.subscriptions c emission.event.topic = true ↔
        SubscriptionNotification.subscribesFirst (s.queueOf c) emission.event.topic = false := by
      rw [EventSwitch.subscribes_iff, ← hfar]
      rfl
    rw [← hgot]
    show (s.conn c).eventsRx ++ List.replicate _ emission.event = _ ↔ _
    rw [count_receivers hviews hex, List.append_cancel_left_eq]
    split
    next hsub => exact iff_of_true rfl hsub
    next hsub => exact iff_of_false (by simp) hsub

/-! ## The property -/

/-- In the run `as`, whenever the switch takes an event that is due to `c`, `P` holds of the state it was
in and the state it gets to. -/
def WhenTaken (S : StateStruct) (shipped : ConnId → Bool) (c : ConnId)
    (P : System S → Event → System S → Prop) (as : List SystemAct) : Prop :=
  ∀ (n : Nat) s s' emission rest, as[n]? = some .switchEvent → run step (init S shipped) (as.take n) = some s →
    s.step .switchEvent = some s' → s.newEventRx = emission :: rest → s.Due c emission → P s emission.event s'

/-- **No event that is due is missed**: it goes to the connection's event channel. -/
def NoneMissed (S : StateStruct) (shipped : ConnId → Bool) (c : ConnId) : List SystemAct → Prop :=
  WhenTaken S shipped c fun s event s' => (s'.conn c).eventsRx = (s.conn c).eventsRx ++ [event]

/-- No event that is due is taken while the `Subscribe` to its topic is queued. -/
def AllInTime (S : StateStruct) (shipped : ConnId → Bool) (c : ConnId) : List SystemAct → Prop :=
  WhenTaken S shipped c fun s event _ =>
    SubscriptionNotification.subscribesFirst (s.queueOf c) event.topic = false

theorem causes_of_run {shipped : ConnId → Bool} {as : List SystemAct} {s : System S} {c : ConnId}
    (hship : shipped c = true) (h : run step (init S shipped) as = some s) : Causes s c :=
  run_invariant (P := fun _ => True) (fun _ _ _ _ hinv hs => step_causes hinv (step_cases hs))
    (fun _ _ => trivial) (causes_init hship) h

theorem exited_of_run {as : List SystemAct} {s s' : System S} {c : ConnId} (h : run step s as = some s')
    (hex : (s'.conn c).exited = false) : (s.conn c).exited = false := by
  by_contra hno
  rw [Bool.not_eq_false] at hno
  have hgone : (s'.conn c).exited = true := by
    refine run_invariant (P := fun _ => True) (I := fun s : System S => (s.conn c).exited = true)
      (fun s a s' _ hinv hs => ?_) (fun _ _ => trivial) hno h
    by_contra hback
    rw [Bool.not_eq_true] at hback
    rw [(step_cases hs).exited hback] at hinv
    cases hinv
  rw [hgone] at hex
  cases hex

/-- **A subscription is missed by no later event exactly when the switch takes it in time.** -/
theorem noneMissed_iff {shipped : ConnId → Bool} {as : List SystemAct} {s : System S} {c : ConnId}
    (hship : shipped c = true) (h : run step (init S shipped) as = some s)
    (hex : (s.conn c).exited = false) :
    NoneMissed S shipped c as ↔ AllInTime S shipped c as := by
  have hiff : ∀ (n : Nat) u u' emission rest, run step (init S shipped) (as.take n) = some u →
      u.step .switchEvent = some u' → u.newEventRx = emission :: rest → u.Due c emission →
        ((u'.conn c).eventsRx = (u.conn c).eventsRx ++ [emission.event] ↔
          SubscriptionNotification.subscribesFirst (u.queueOf c) emission.event.topic = false) := by
    intro n u u' emission rest hu hstep hq hdue
    obtain ⟨v, hv, hrest⟩ := run_take h n
    rw [hu] at hv
    cases hv
    exact delivered_iff ((views_of_run hu).2 c) (causes_of_run hship hu) (exited_of_run hrest hex) hq hdue
      (step_cases hstep)
  constructor
  · intro hnone n u u' emission rest hn hu hstep hq hdue
    exact (hiff n u u' emission rest hu hstep hq hdue).mp (hnone n u u' emission rest hn hu hstep hq hdue)
  · intro hall n u u' emission rest hn hu hstep hq hdue
    exact (hiff n u u' emission rest hu hstep hq hdue).mpr (hall n u u' emission rest hn hu hstep hq hdue)

/-- A call whose handler adds a topic, its response, and a second call up to its handler. -/
def secondCall : List SystemAct :=
  [.session 0 (.client (.call [1])), .session 0 (.client .takeRequest), .session 0 (.client (.send .sent)),
    .session 0 (.client .fillSlot),
    .session 0 (.conn .pollNext), .session 0 (.conn .pollNext), .session 0 (.conn .pollNext),
    .session 0 (.conn .pollNext), .session 0 (.conn (.clientMessage true)),
    .session 0 (.conn (.handlerOp (some 0) (.subscribe ⟨[116], true⟩))),
    .session 0 (.conn (.handlerReturns 0 (.ok []))), .session 0 (.conn .response),
    .session 0 (.conn (.sendDone true)), .session 0 (.receive true),
    .session 0 (.client (.call [2])), .session 0 (.client .takeRequest), .session 0 (.client (.send .sent)),
    .session 0 (.client .fillSlot),
    .session 0 (.conn .pollNext), .session 0 (.conn .pollNext), .session 0 (.conn .pollNext),
    .subscription 0 (Vector.replicate 16 0),
    .session 0 (.conn .pollNext), .session 0 (.conn .pollNext), .session 0 (.conn .pollNext),
    .session 0 (.conn .pollNext), .session 0 (.conn (.clientMessage true))]

/-- The second handler emits an event on the topic before the switch gets to the `Subscribe`. -/
def lateRun : List SystemAct :=
  secondCall ++ [.emit (some (0, 0)) ⟨⟨[116], true⟩, [7]⟩, .switchEvent]

/-- The switch gets to the `Subscribe` first. -/
def inTimeRun : List SystemAct :=
  secondCall ++ [.switchPoll, .switchNotification, .emit (some (0, 0)) ⟨⟨[116], true⟩, [7]⟩, .switchEvent]

theorem noneMissed_inTimeRun :
    ∃ s, run step (init counterState.toStateStruct fun _ => true) inTimeRun = some s ∧
      (s.conn 0).eventsRx = [⟨⟨[116], true⟩, [7]⟩] ∧
      NoneMissed counterState.toStateStruct (fun _ => true) 0 inTimeRun := by
  have hrun : (run step (init counterState.toStateStruct fun _ => true) inTimeRun).map (fun s =>
      ((s.conn 0).exited, (s.conn 0).eventsRx)) = some (false, [⟨⟨[116], true⟩, [7]⟩]) := by decide
  obtain ⟨s, hs, hstate⟩ := Option.map_eq_some_iff.mp hrun
  rw [Prod.mk.injEq] at hstate
  refine ⟨s, hs, hstate.2, (noneMissed_iff rfl hs hstate.1).mpr ?_⟩
  intro n u u' emission rest hn hu hstep hq hdue
  -- the switch takes the one event in the last step
  have hlast : n = 30 := by
    have hlt : n < 31 := (List.getElem?_eq_some_iff.mp hn).1
    by_contra hne
    have hfront : (inTimeRun.take 30)[n]? = some .switchEvent := by
      rw [List.getElem?_take_of_lt (by omega), hn]
    exact absurd (List.mem_of_getElem? hfront) (by simp [inTimeRun, secondCall])
  subst hlast
  have hqueue : (run step (init counterState.toStateStruct fun _ => true) (inTimeRun.take 30)).map (fun u =>
      u.subscriptionRx.isEmpty) = some true := by decide
  rw [hu, Option.map_some, Option.some.injEq, List.isEmpty_iff] at hqueue
  rw [queueOf, hqueue]
  rfl

/-- **The event is missed.** -/
theorem missed_lateRun :
    ¬ ∀ (shipped : ConnId → Bool) (as : List SystemAct) (s : System counterState.toStateStruct) (c : ConnId),
      shipped c = true → run step (init _ shipped) as = some s → (s.conn c).exited = false →
        NoneMissed counterState.toStateStruct shipped c as := by
  intro hall
  have hbefore : (run step (init counterState.toStateStruct fun _ => true) (lateRun.take 28)).map (fun u =>
      (u.newEventRx, (u.conn 0).handled ++ (u.conn 0).proxyRx,
        (u.sessions 0).client.issued[1]?.map Issue.seen)) =
      some ([⟨⟨⟨[116], true⟩, [7]⟩, some (0, 1)⟩], [⟨some 0, .subscribe ⟨[116], true⟩⟩], some [0]) := by
    decide
  have hafter : (run step (init counterState.toStateStruct fun _ => true) lateRun).map (fun s =>
      ((s.conn 0).exited, (s.conn 0).eventsRx)) = some (false, []) := by decide
  obtain ⟨s, hs, hstate⟩ := Option.map_eq_some_iff.mp hafter
  obtain ⟨u, hu, hustate⟩ := Option.map_eq_some_iff.mp hbefore
  simp only [Prod.mk.injEq] at hstate hustate
  obtain ⟨hqueue, hops, hseen⟩ := hustate
  obtain ⟨issue, hissue, hseen⟩ := Option.map_eq_some_iff.mp hseen
  have hstep : u.step .switchEvent = some s := by
    have hrun : run step _ (lateRun.take 28 ++ [.switchEvent]) = some s := hs
    obtain ⟨v, hv, hstep⟩ := run_concat_eq_some.mp hrun
    rw [hu] at hv
    cases hv
    exact hstep
  have hdue : u.Due 0 ⟨⟨⟨[116], true⟩, [7]⟩, some (0, 1)⟩ :=
    ⟨1, issue, 0, [], [], rfl, hissue, hseen ▸ List.mem_cons_self, hops, fun o ho => by cases ho⟩
  have hgot : (s.conn 0).eventsRx = (u.conn 0).eventsRx ++ [⟨⟨[116], true⟩, [7]⟩] :=
    hall _ lateRun s 0 rfl hs hstate.1 28 u s _ [] rfl hu hstep hqueue hdue
  rw [hstate.2] at hgot
  simp at hgot

end System

end HardLight
