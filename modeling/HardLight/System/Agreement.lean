import HardLight.System.Basic
import HardLight.Server.InFlight

/-!
# Agreement on subscriptions

Three views of a connection's subscriptions: the topics its handler has added, its local map, and its
entries in the switch's map. Each is behind the one before it by a queue.

* `Owned` : a subscription id belongs to the connection that drew it, in the queue, in the switch's map
  and in the local maps;
* `Views` : the switch's entries of a connection are behind its local map by its queued notifications,
  and the topics of the local map are what its handler's operations yield;
* `step_owned`, `step_views` : every step keeps both;
* `Agreement`, `agreement_of_run` : replaying the queues, in every reachable state.
-/

namespace HardLight
open Lib

namespace Conn

theorem step_exited {k k' : Conn} {a : ConnAct} (h : k.step a = some k') (hex : k'.exited = false) :
    k.exited = false := by
  cases step_cases h with
  | noArmLeft hpolls hall =>
    rw [allDisabled_eq_false] at hall
    cases hall
  | _ => exact hex

end Conn

namespace Session
variable {S : StateStruct}

theorem step_frame {s s' : Session S} {a : SessionAct} (hres : a.reserved = false)
    (h : s.step a = some s') :
    s'.conn.subscriptions = s.conn.subscriptions ∧ s'.conn.handled = s.conn.handled := by
  cases a with
  | client a =>
    obtain ⟨out, -, -, hk⟩ := step_client h
    cases out with
    | none =>
      have hsame : s'.conn = s.conn := hk
      rw [hsame]
      exact ⟨rfl, rfl⟩
    | some r => exact Conn.step_subscriptions hk fun _ _ hne => by cases hne
  | receive decoded =>
    obtain ⟨-, -, -, -, -, hk⟩ := step_receive h
    exact Conn.step_subscriptions hk fun _ _ hne => by cases hne
  | conn a =>
    refine Conn.step_subscriptions (step_conn h).2.2.2 fun id alive hne => ?_
    subst hne
    cases hres
  | abort => cases h; exact ⟨rfl, rfl⟩

theorem step_exited {s s' : Session S} {a : SessionAct} (h : s.step a = some s')
    (hex : s'.conn.exited = false) : s.conn.exited = false := by
  rcases step_conn_cases h with hk | ⟨b, hk⟩ | ⟨-, hk⟩
  · exact hk ▸ hex
  · exact Conn.step_exited hk hex
  · rw [hk] at hex
    cases hex

end Session

namespace System
variable {S : StateStruct}

/-- The notifications of connection `c` that the switch has not taken. -/
def queueOf (s : System S) (c : ConnId) : List (SubscriptionNotification ConnId) :=
  (s.subscriptionRx.filter fun x => x.1 = c).map Prod.snd

theorem Step.exited {s s' : System S} {a : SystemAct} (h : Step s a s') {c : ConnId}
    (hex : (s'.conn c).exited = false) : (s.conn c).exited = false := by
  rcases h.session_step c with hs | ⟨b, -, hs⟩
  · rw [conn, hs] at hex
    exact hex
  · exact Session.step_exited hs hex

/-! ## Ids -/

/-- Every id is the one connection's that drew it. -/
structure Owned (s : System S) : Prop where
  minted_nodup : (s.minted.map Prod.fst).Nodup
  queue : ∀ x ∈ s.subscriptionRx, (x.2.id, x.1) ∈ s.minted ∧ ∀ t id tx, x.2 = .subscribe t id tx → tx = x.1
  switch : ∀ t id c, s.switch.find t id = some c → (id, c) ∈ s.minted
  locals : ∀ c t id, (s.conn c).subscriptions.lookup t = some id → (id, c) ∈ s.minted

theorem Owned.unique {s : System S} (h : Owned s) {id : SubscriptionID} {c c' : ConnId}
    (hc : (id, c) ∈ s.minted) (hc' : (id, c') ∈ s.minted) : c = c' := by
  have hinj := List.inj_on_of_nodup_map h.minted_nodup hc hc' rfl
  exact congrArg Prod.snd hinj

theorem owned_of_frame {s s' : System S} (hinv : Owned s) (hminted : s'.minted = s.minted)
    (hqueue : s'.subscriptionRx = s.subscriptionRx) (hswitch : s'.switch = s.switch)
    (hlocals : ∀ c t, (s'.conn c).subscriptions.lookup t = (s.conn c).subscriptions.lookup t) :
    Owned s' where
  minted_nodup := hminted ▸ hinv.minted_nodup
  queue := by rw [hminted, hqueue]; exact hinv.queue
  switch := by rw [hminted, hswitch]; exact hinv.switch
  locals c t id hl := by
    rw [hlocals] at hl
    rw [hminted]
    exact hinv.locals c t id hl

theorem locals_setConn {s : System S} {c : ConnId} {k : Conn} {minted : List (SubscriptionID × ConnId)}
    (hother : ∀ c t id, (s.conn c).subscriptions.lookup t = some id → (id, c) ∈ minted)
    (hown : ∀ t id, k.subscriptions.lookup t = some id → (id, c) ∈ minted) (c' : ConnId) (t : Topic)
    (id : SubscriptionID) (hl : ((s.setConn c k).conn c').subscriptions.lookup t = some id) :
    (id, c') ∈ minted := by
  rw [conn_setConn] at hl
  split at hl
  next heq => exact heq ▸ hown t id hl
  next => exact hother c' t id hl

theorem owned_subscribed {s : System S} {c : ConnId} {id : SubscriptionID} {topic : Topic} {k : Conn}
    (hinv : Owned s) (h : (s.conn c).onSubscription c id s.switchAlive = some (k, some (.subscribe topic id c)))
    (hfresh : id ∉ s.minted.map Prod.fst) :
    Owned { s.setConn c k with
      subscriptionRx := s.subscriptionRx ++ [(c, .subscribe topic id c)], minted := s.minted ++ [(id, c)] } := by
  have hlast : (id, c) ∈ s.minted ++ [(id, c)] := List.mem_append_right _ List.mem_cons_self
  refine ⟨?_, fun x hx => ?_, fun t id' c' hf => List.mem_append_left _ (hinv.switch t id' c' hf),
    locals_setConn (fun c t id' hl => List.mem_append_left _ (hinv.locals c t id' hl)) fun t id' hl => ?_⟩
  · rw [List.map_append, List.nodup_append]
    refine ⟨hinv.minted_nodup, List.nodup_singleton _, ?_⟩
    rintro x hx y hy rfl
    rw [List.map_singleton, List.mem_singleton] at hy
    have hid : x = id := hy
    exact hfresh (hid ▸ hx)
  · rcases List.mem_append.mp hx with hx | hx
    · exact ⟨List.mem_append_left _ (hinv.queue x hx).1, (hinv.queue x hx).2⟩
    · rw [List.mem_singleton] at hx
      subst hx
      exact ⟨hlast, fun t id tx heq => by cases heq; rfl⟩
  · obtain ⟨o, rest, -, -, -, -, hcase⟩ := Conn.onSubscription_cases h
    cases hcase with
    | subscribed t' hop halive hnew hsubs =>
      rw [hsubs, HashMap.lookup_insert_if] at hl
      split at hl
      next =>
        cases hl
        exact hlast
      next => exact List.mem_append_left _ (hinv.locals c t id' hl)

theorem owned_unsubscribed {s : System S} {c : ConnId} {id old : SubscriptionID} {topic : Topic} {k : Conn}
    (hinv : Owned s) (h : (s.conn c).onSubscription c id s.switchAlive = some (k, some (.unsubscribe topic old))) :
    Owned { s.setConn c k with subscriptionRx := s.subscriptionRx ++ [(c, .unsubscribe topic old)] } := by
  obtain ⟨o, rest, -, -, -, -, hcase⟩ := Conn.onSubscription_cases h
  cases hcase with
  | unsubscribed _ _ hop halive hold hsubs =>
    refine ⟨hinv.minted_nodup, fun x hx => ?_, hinv.switch, locals_setConn hinv.locals fun t id' hl => ?_⟩
    · rcases List.mem_append.mp hx with hx | hx
      · exact hinv.queue x hx
      · rw [List.mem_singleton] at hx
        subst hx
        exact ⟨hinv.locals c topic old hold, fun t id tx heq => by cases heq⟩
    · rw [hsubs, HashMap.lookup_erase_if] at hl
      split at hl
      next => cases hl
      next => exact hinv.locals c t id' hl

theorem step_owned {s s' : System S} {a : SystemAct} (hinv : Owned s) (h : Step s a s') : Owned s' := by
  cases h with
  | session c a session hres h =>
    refine owned_of_frame hinv rfl rfl rfl fun c' t => ?_
    simp only [conn, Function.update_apply]
    split
    next heq => rw [heq, (Session.step_frame hres h).1]
    next => rfl
  | kept c id k hpolls h =>
    obtain ⟨o, rest, -, -, -, -, hcase⟩ := Conn.onSubscription_cases h
    refine owned_of_frame hinv rfl rfl rfl fun c' t => ?_
    rw [conn_setConn]
    split
    next heq =>
      cases hcase with
      | kept hlookup htopics => rw [hlookup, heq]
    next => rfl
  | subscribed c id topic k hpolls h hfresh => exact owned_subscribed hinv h hfresh
  | unsubscribed c id topic old k hpolls h => exact owned_unsubscribed hinv h
  | emitted place origin event horigin =>
    obtain ⟨hswitch, hqueue, hsessions, hminted, -⟩ := emit_frame s origin event
    exact owned_of_frame hinv hminted hqueue hswitch fun c t => by rw [conn, hsessions, conn]
  | event emission rest halive harm hq =>
    refine ⟨hinv.minted_nodup, hinv.queue, fun t id c hf => ?_, hinv.locals⟩
    exact hinv.switch t id c (EventSwitch.find_onEvent_subset hf)
  | notification c n rest halive hq =>
    have hhead := hinv.queue (c, n) (hq ▸ List.mem_cons_self)
    refine ⟨hinv.minted_nodup, fun x hx => hinv.queue x (hq ▸ List.mem_cons_of_mem _ hx), ?_, hinv.locals⟩
    intro t id c' hf
    rcases EventSwitch.find_onNotification hf with hf | rfl
    · exact hinv.switch t id c' hf
    · -- the sender of a queued `Subscribe` is the connection's own
      have hc : c' = c := hhead.2 t id c' rfl
      exact hc ▸ hhead.1
  | polled arm => exact ⟨hinv.minted_nodup, hinv.queue, hinv.switch, hinv.locals⟩
  | stopped => exact ⟨hinv.minted_nodup, hinv.queue, hinv.switch, hinv.locals⟩

/-! ## The three views -/

/-- The switch, the local map and the handler of connection `c`. -/
structure Views (s : System S) (c : ConnId) : Prop where
  behind : (s.conn c).exited = false → Behind SubscriptionNotification.apply
    SubscriptionNotification.Enabled (s.switch.ofSender c) (s.queueOf c) (s.conn c).localSubs
  one_id : (s.conn c).exited = false → OneId (s.switch.ofSender c)
  topics : s.switchAlive = true → (s.conn c).localTopics = (s.conn c).handled.foldl HandlerOp.apply ∅

theorem localSubs_congr {k k' : Conn} (h : ∀ t, k'.subscriptions.lookup t = k.subscriptions.lookup t) :
    k'.localSubs = k.localSubs ∧ k'.localTopics = k.localTopics := by
  constructor
  · ext x
    rw [Conn.localSubs, Conn.localSubs, Set.mem_ofPred_eq, Set.mem_ofPred_eq, h]
  · ext t
    rw [Conn.localTopics, Conn.localTopics, Set.mem_ofPred_eq, Set.mem_ofPred_eq, h]

theorem views_of_frame {s s' : System S} {c : ConnId} (hinv : Views s c)
    (hexited : (s'.conn c).exited = false → (s.conn c).exited = false)
    (hswitch : (s'.conn c).exited = false → s'.switch.ofSender c = s.switch.ofSender c)
    (hqueue : s'.queueOf c = s.queueOf c)
    (hlookup : ∀ t, (s'.conn c).subscriptions.lookup t = (s.conn c).subscriptions.lookup t)
    (hhandled : (s'.conn c).handled = (s.conn c).handled)
    (halive : s'.switchAlive = true → s.switchAlive = true) : Views s' c := by
  obtain ⟨hsubs, htopics⟩ := localSubs_congr hlookup
  refine ⟨fun hex => ?_, fun hex => ?_, fun ha => ?_⟩
  · rw [hswitch hex, hqueue, hsubs]
    exact hinv.behind (hexited hex)
  · rw [hswitch hex]
    exact hinv.one_id (hexited hex)
  · rw [htopics, hhandled]
    exact hinv.topics (halive ha)

theorem views_of_subscription {s s' : System S} {c c' : ConnId} {id : SubscriptionID} {k : Conn}
    {n : Option (SubscriptionNotification ConnId)} (hinv : Views s c)
    (h : (s.conn c').onSubscription c' id s.switchAlive = some (k, n))
    (hconn : s'.conn = (s.setConn c' k).conn) (hswitch : s'.switch = s.switch)
    (hqueue : s'.subscriptionRx = s.subscriptionRx ++ n.toList.map fun n => (c', n))
    (halive : s'.switchAlive = s.switchAlive) : Views s' c := by
  have hqueueOf : s'.queueOf c = s.queueOf c ++ if c' = c then n.toList else [] := by
    rw [queueOf, queueOf, hqueue, List.filter_append, List.map_append]
    congr 1
    cases n with
    | none => simp
    | some n => by_cases hc : c' = c <;> simp [hc]
  by_cases hc : c = c'
  · subst hc
    have hk : s'.conn c = k := by rw [hconn, conn_setConn, if_pos rfl]
    rw [if_pos rfl] at hqueueOf
    obtain ⟨o, rest, -, -, hhandled, hexited, hcase⟩ := Conn.onSubscription_cases h
    refine ⟨fun hex => ?_, fun hex => ?_, fun ha => ?_⟩
    · rw [hk, hexited] at hex
      rw [hk, hswitch, hqueueOf]
      cases n with
      | none =>
        rw [Option.toList_none, List.append_nil, hcase.localSubs_kept]
        exact hinv.behind hex
      | some n =>
        rw [hcase.localSubs_eq.2]
        exact (hinv.behind hex).send hcase.localSubs_eq.1
    · rw [hk, hexited] at hex
      rw [hswitch]
      exact hinv.one_id hex
    · rw [halive] at ha
      rw [hk, hhandled, List.foldl_append, ← hinv.topics ha, hcase.localTopics_eq ha]
      rfl
  · have hk : s'.conn c = s.conn c := by rw [hconn, conn_setConn, if_neg hc]
    refine views_of_frame hinv (by rw [hk]; exact fun h => h) (fun _ => by rw [hswitch]) ?_
      (fun t => by rw [hk]) (by rw [hk]) (by rw [halive]; exact fun h => h)
    rw [hqueueOf, if_neg (fun he => hc he.symm), List.append_nil]

theorem step_views {s s' : System S} {a : SystemAct} (howned : Owned s) {c : ConnId} (hinv : Views s c)
    (h : Step s a s') : Views s' c := by
  have hexited : (s'.conn c).exited = false → (s.conn c).exited = false := h.exited
  cases h with
  | session c' a session hres h =>
    have hframe : (Function.update s.sessions c' session c).conn.subscriptions = (s.conn c).subscriptions ∧
        (Function.update s.sessions c' session c).conn.handled = (s.conn c).handled := by
      rw [Function.update_apply]
      split
      next heq => rw [heq]; exact Session.step_frame hres h
      next => exact ⟨rfl, rfl⟩
    exact views_of_frame hinv hexited (fun _ => rfl) rfl (fun t => by rw [conn, hframe.1]) hframe.2
      fun h => h
  | kept c' id k hpolls h =>
    exact views_of_subscription hinv h rfl rfl (by simp [setConn]) rfl
  | subscribed c' id topic k hpolls h hfresh => exact views_of_subscription hinv h rfl rfl rfl rfl
  | unsubscribed c' id topic old k hpolls h => exact views_of_subscription hinv h rfl rfl rfl rfl
  | emitted place origin event horigin =>
    obtain ⟨hswitch, hqueue, hsessions, hminted, halive, -⟩ := emit_frame s origin event
    have hconn : (s.emit origin event).conn c = s.conn c := by rw [conn, hsessions, conn]
    exact views_of_frame hinv hexited (fun _ => by rw [hswitch]) (by rw [queueOf, hqueue, queueOf])
      (fun t => by rw [hconn]) (by rw [hconn]) (by rw [halive]; exact fun h => h)
  | event emission rest halive harm hq =>
    refine views_of_frame hinv hexited (fun hex => ?_) rfl (fun t => rfl) rfl fun h => h
    exact EventSwitch.ofSender_onEvent s.switch emission.event fun _ => hexited hex
  | notification c' n rest halive hq =>
    have hhead := howned.queue (c', n) (hq ▸ List.mem_cons_self)
    by_cases hc : c' = c
    · subst hc
      have hqueueOf : s.queueOf c' = n :: ((rest.filter fun x => x.1 = c').map Prod.snd) := by
        rw [queueOf, hq, List.filter_cons_of_pos (by simp), List.map_cons]
      have hown := EventSwitch.ofSender_onNotification_own s.switch c' n hhead.2
      refine ⟨fun hex => ?_, fun hex => ?_, hinv.topics⟩
      · have hbehind := hinv.behind hex
        rw [hqueueOf] at hbehind
        have hrest := hbehind.receive.2
        rw [← hown] at hrest
        exact hrest
      · have hbehind := hinv.behind hex
        rw [hqueueOf] at hbehind
        have hone := oneId_apply (hinv.one_id hex) hbehind.receive.1
        rw [← hown] at hone
        exact hone
    · have hother : (s.switch.onNotification n).ofSender c = s.switch.ofSender c := by
        refine EventSwitch.ofSender_onNotification_other s.switch c n (fun t id tx heq => ?_) fun t hin => ?_
        · rw [hhead.2 t id tx heq]
          exact hc
        · exact hc (howned.unique hhead.1 (howned.switch t n.id c hin))
      refine views_of_frame hinv hexited (fun _ => hother) ?_ (fun t => rfl) rfl fun h => h
      rw [queueOf, queueOf, hq, List.filter_cons_of_neg (by simp [hc])]
  | polled arm => exact views_of_frame hinv hexited (fun _ => rfl) rfl (fun t => rfl) rfl fun h => h
  | stopped => exact views_of_frame hinv hexited (fun _ => rfl) rfl (fun t => rfl) rfl fun h => by cases h

/-! ## The property -/

/-- **The views agree once the queues between them are replayed.** -/
structure Agreement (s : System S) (c : ConnId) : Prop where
  /-- Replaying `c`'s queued notifications on its entries in the switch yields its local map. -/
  local_eq : s.switchAlive = true → (s.conn c).exited = false →
    (s.queueOf c).foldl SubscriptionNotification.apply (s.switch.ofSender c) = (s.conn c).localSubs
  /-- A topic has one id at most, at the switch and in the local map. -/
  one_id : s.switchAlive = true → (s.conn c).exited = false →
    OneId (s.switch.ofSender c) ∧ OneId (s.conn c).localSubs
  /-- Replaying what the handler has queued yields the topics whose last operation was `add`. -/
  topics_eq : s.switchAlive = true → (s.conn c).proxyRx.foldl HandlerOp.apply (s.conn c).localTopics =
    {t | HandlerOp.LastAdded ((s.conn c).handled ++ (s.conn c).proxyRx) t}
  /-- With the switch gone nothing is sent and the local map stays as it is. -/
  rolled_back : s.switchAlive = false → ∀ id s', s.step (.subscription c id) = some s' →
    s'.subscriptionRx = s.subscriptionRx ∧
      ∀ t, (s'.conn c).subscriptions.lookup t = (s.conn c).subscriptions.lookup t

theorem rolled_back_of_step {s s' : System S} {c : ConnId} {id : SubscriptionID}
    (halive : s.switchAlive = false) (h : Step s (.subscription c id) s') :
    s'.subscriptionRx = s.subscriptionRx ∧
      ∀ t, (s'.conn c).subscriptions.lookup t = (s.conn c).subscriptions.lookup t := by
  cases h with
  | kept _ _ k hpolls h =>
    obtain ⟨o, rest, -, -, -, -, hcase⟩ := Conn.onSubscription_cases h
    refine ⟨rfl, fun t => ?_⟩
    rw [conn_setConn, if_pos rfl]
    cases hcase with
    | kept hlookup htopics => exact hlookup t
  | subscribed _ _ topic k hpolls h hfresh =>
    obtain ⟨o, rest, -, -, -, -, hcase⟩ := Conn.onSubscription_cases h
    cases hcase with
    | subscribed _ _ ha _ _ => rw [halive] at ha; cases ha
  | unsubscribed _ _ topic old k hpolls h =>
    obtain ⟨o, rest, -, -, -, -, hcase⟩ := Conn.onSubscription_cases h
    cases hcase with
    | unsubscribed _ _ _ ha _ _ => rw [halive] at ha; cases ha

theorem agreement_of_views {s : System S} {c : ConnId} (hinv : Views s c) : Agreement s c where
  local_eq _ hex := (hinv.behind hex).replay
  one_id _ hex := ⟨hinv.one_id hex, Conn.oneId_localSubs _⟩
  topics_eq halive := by
    rw [hinv.topics halive, ← List.foldl_append]
    ext t
    rw [HandlerOp.mem_replay_iff, Set.mem_ofPred_eq]
    simp
  rolled_back halive id s' hs := rolled_back_of_step halive (step_cases hs)

theorem views_init (shipped : ConnId → Bool) :
    Owned (init S shipped) ∧ ∀ c, Views (init S shipped) c := by
  have hempty : ∀ c, (init S shipped).switch.ofSender c = ∅ := by
    intro c
    ext x
    simp [EventSwitch.ofSender, init]
  have hlocal : ∀ c, ((init S shipped).conn c).localSubs = ∅ := by
    intro c
    ext x
    simp [Conn.localSubs, init, conn, Session.init, Conn.init]
  refine ⟨⟨List.nodup_nil, ?_, ?_, ?_⟩, fun c => ⟨fun _ => ?_, fun _ => ?_, fun _ => ?_⟩⟩
  · intro x hx; cases hx
  · intro t id c hf
    rw [init, EventSwitch.find_new] at hf
    cases hf
  · intro c t id hl; cases hl
  · rw [hempty, hlocal]
    exact .start ∅
  · rw [hempty]
    exact fun t id id' hin => absurd hin (Set.notMem_empty _)
  · ext t
    simp [Conn.localTopics, init, conn, Session.init, Conn.init]

theorem step_owned_views {s s' : System S} {a : SystemAct} (hinv : Owned s ∧ ∀ c, Views s c)
    (h : Step s a s') : Owned s' ∧ ∀ c, Views s' c :=
  ⟨step_owned hinv.1 h, fun c => step_views hinv.1 (hinv.2 c) h⟩

/-- The invariants of every reachable state. -/
theorem views_of_run {shipped : ConnId → Bool} {as : List SystemAct} {s : System S}
    (h : run step (init S shipped) as = some s) : Owned s ∧ ∀ c, Views s c :=
  run_invariant (P := fun _ => True) (I := fun s : System S => Owned s ∧ ∀ c, Views s c)
    (fun _ _ _ _ hinv hs => step_owned_views hinv (step_cases hs)) (fun _ _ => trivial)
    (views_init shipped) h

/-- **Subscriptions agree in every reachable state, for every connection.** -/
theorem agreement_of_run {shipped : ConnId → Bool} {as : List SystemAct} {s : System S}
    (h : run step (init S shipped) as = some s) (c : ConnId) : Agreement s c :=
  agreement_of_views ((views_of_run h).2 c)

/-- Two connections subscribe to a topic, one of them twice; the switch has taken one notification. -/
def subscribeRun : List SystemAct :=
  [.session 0 (.conn (.handlerOp none (.subscribe ⟨[116], true⟩))),
    .session 1 (.conn (.handlerOp none (.subscribe ⟨[116], true⟩))),
    .session 0 (.conn (.handlerOp none (.subscribe ⟨[116], true⟩))),
    .session 0 (.conn .pollNext), .session 0 (.conn .pollNext), .session 0 (.conn .pollNext),
    .subscription 0 (Vector.replicate 16 0),
    .session 1 (.conn .pollNext), .session 1 (.conn .pollNext), .session 1 (.conn .pollNext),
    .subscription 1 (Vector.replicate 16 1),
    .switchPoll, .switchNotification]

theorem agreement_subscribeRun :
    ∃ s, run step (init counterState.toStateStruct fun _ => true) subscribeRun = some s ∧ Agreement s 0 := by
  have hrun : (run step (init counterState.toStateStruct fun _ => true) subscribeRun).isSome = true := by
    decide
  obtain ⟨s, hs⟩ := Option.isSome_iff_exists.mp hrun
  exact ⟨s, hs, agreement_of_run hs 0⟩

end System

end HardLight
