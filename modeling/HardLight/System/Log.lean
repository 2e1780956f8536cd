import HardLight.System.Delivery
import HardLight.Lib.PubSub

/-!
# One log of operations and events

The operations of the handlers reach the switch through the connection loops, and late. What the connections get is
still what a publish/subscribe service gives that does one thing at a time: its log takes in an operation when the
switch takes the notification that it led to.

* `Passes` : the operations that a connection loop has taken, with the notifications it has sent for them;
* `Logged`, `step_logged` : the log has the operations of every connection up to those the switch has not got to;
* `OneLog`, `oneLog_of_run` : one log, of which every state of a run has a beginning.
-/

namespace HardLight
open Lib

/-- What the service does: operations of connections, and events. -/
abbrev LogEntry := Entry ConnId Topic Event

namespace SubscriptionNotification
variable {χ : Type}

/-- The operation that the notification passes on. -/
def proxied : SubscriptionNotification χ → ProxiedSubscriptionNotification
  | subscribe topic _ _ => .subscribe topic
  | unsubscribe topic _ => .unsubscribe topic

end SubscriptionNotification

/-- The topics of subscriptions. -/
def topicsOf (A : Subscriptions) : Set Topic := {t | ∃ id, (t, id) ∈ A}

theorem topicsOf_apply {χ : Type} {A : Subscriptions} {n : SubscriptionNotification χ} (hone : OneId A)
    (hn : n.Enabled A) : topicsOf (n.apply A) = n.proxied.apply (topicsOf A) := by
  ext t
  cases n with
  | subscribe topic id tx =>
    simp only [topicsOf, SubscriptionNotification.apply, SubscriptionNotification.proxied,
      ProxiedSubscriptionNotification.apply, Set.mem_ofPred_eq, Set.mem_insert_iff, Prod.mk.injEq]
    constructor
    · rintro ⟨id', ⟨ht, -⟩ | hin⟩
      · exact Or.inl ht
      · exact Or.inr ⟨id', hin⟩
    · rintro (ht | ⟨id', hin⟩)
      · exact ⟨id, Or.inl ⟨ht, rfl⟩⟩
      · exact ⟨id', Or.inr hin⟩
  | unsubscribe topic id =>
    simp only [topicsOf, SubscriptionNotification.apply, SubscriptionNotification.proxied,
      ProxiedSubscriptionNotification.apply, Set.mem_ofPred_eq, Set.mem_sdiff, Set.mem_singleton_iff, Prod.mk.injEq]
    constructor
    · rintro ⟨id', hin, hne⟩
      refine ⟨⟨id', hin⟩, fun ht => hne ⟨ht, ?_⟩⟩
      -- there is no other id to unsubscribe from
      exact hone t id' id hin (ht ▸ hn)
    · rintro ⟨⟨id', hin⟩, hne⟩
      exact ⟨id', hin, fun he => hne he.1⟩

namespace HandlerOp

/-- The operation in the log. -/
def entry (c : ConnId) (o : HandlerOp) : LogEntry :=
  match o.op with
  | .subscribe t => .subscribe c t
  | .unsubscribe t => .unsubscribe c t

theorem published_entry (c : ConnId) (ops : List HandlerOp) :
    (ops.map (entry c)).filterMap Entry.published? = [] := by
  rw [List.filterMap_map, List.filterMap_eq_nil_iff]
  intro o ho
  rw [Function.comp_apply, entry]
  cases o.op <;> rfl

theorem own_entry (c c' : ConnId) (ops : List HandlerOp) :
    Entry.own c (ops.map (entry c')) = if c' = c then ops.map (entry c') else [] := by
  have hof : ∀ o : HandlerOp, (o.entry c').isOf c = decide (c' = c) := by
    intro o
    rw [entry]
    cases o.op <;> rfl
  rw [Entry.own, List.filter_map]
  split
  next hc =>
    congr 1
    exact List.filter_eq_self.mpr fun o _ => (hof o).trans (decide_eq_true hc)
  next hc =>
    rw [List.filter_eq_nil_iff.mpr fun o _ => ?_, List.map_nil]
    rw [Function.comp_apply, hof, decide_eq_false hc]
    exact Bool.false_ne_true

theorem coe_apply_entry (c : ConnId) (T : Finset Topic) (o : HandlerOp) :
    ((o.entry c).apply c T : Set Topic) = o.apply T := by
  rw [entry, apply]
  cases o.op <;> simp [Entry.apply, ProxiedSubscriptionNotification.apply]

theorem coe_foldl_entry (c : ConnId) (ops : List HandlerOp) (T : Finset Topic) :
    (((ops.map (entry c)).foldl (Entry.apply c) T : Finset Topic) : Set Topic) = ops.foldl apply (T : Set Topic) := by
  induction ops generalizing T with
  | nil => rfl
  | cons o ops ih => rw [List.map_cons, List.foldl_cons, List.foldl_cons, ih, coe_apply_entry]

end HandlerOp

/-! ## Operations and notifications -/

/-- A connection that has the topics `T` takes the operations `ops` and sends the notifications `q`. -/
inductive Passes {χ : Type} : Set Topic → List HandlerOp → List (SubscriptionNotification χ) → Prop
  | nil (T : Set Topic) : Passes T [] []
  /-- There is nothing to do. -/
  | idle (T : Set Topic) (o : HandlerOp) (ops : List HandlerOp) (q : List (SubscriptionNotification χ))
      (ho : o.apply T = T) (h : Passes T ops q) : Passes T (o :: ops) q
  | sent (T : Set Topic) (o : HandlerOp) (n : SubscriptionNotification χ) (ops : List HandlerOp)
      (q : List (SubscriptionNotification χ)) (ho : o.op = n.proxied) (h : Passes (o.apply T) ops q) :
      Passes T (o :: ops) (n :: q)

namespace Passes
variable {χ : Type} {T : Set Topic} {ops : List HandlerOp} {q : List (SubscriptionNotification χ)} {o : HandlerOp}
  {n : SubscriptionNotification χ}

theorem concat_idle (h : Passes T ops q) (ho : o.apply (ops.foldl HandlerOp.apply T) = ops.foldl HandlerOp.apply T) :
    Passes T (ops ++ [o]) q := by
  induction h with
  | nil T => exact .idle T o [] [] ho (.nil T)
  | idle T o' ops q ho' h ih =>
    rw [List.foldl_cons, ho'] at ho
    exact .idle T o' _ q ho' (ih ho)
  | sent T o' n ops q ho' h ih => exact .sent T o' n _ q ho' (ih ho)

theorem concat_sent (h : Passes T ops q) (ho : o.op = n.proxied) : Passes T (ops ++ [o]) (q ++ [n]) := by
  induction h with
  | nil T => exact .sent T o n [] [] ho (.nil _)
  | idle T o' ops q ho' h ih => exact .idle T o' _ _ ho' ih
  | sent T o' n' ops q ho' h ih => exact .sent T o' n' _ _ ho' ih

/-- The first notification takes the operations before it along, which did nothing. -/
theorem receive (h : Passes T ops (n :: q)) :
    ∃ done todo, ops = done ++ todo ∧ done.foldl HandlerOp.apply T = n.proxied.apply T ∧
      Passes (n.proxied.apply T) todo q := by
  generalize hq : n :: q = nq at h
  induction h with
  | nil T => cases hq
  | idle T o ops q' ho h ih =>
    obtain ⟨done, todo, rfl, hdone, hrest⟩ := ih hq
    exact ⟨o :: done, todo, rfl, by rw [List.foldl_cons, ho, hdone], hrest⟩
  | sent T o n' ops q' ho h ih =>
    cases hq
    rw [HandlerOp.apply, ho] at h
    exact ⟨[o], ops, rfl, congrArg (fun op => op.apply T) ho, h⟩

end Passes

namespace System
variable {S : StateStruct}

/-! ## The log of a state -/

/-- The operations of connection `c` are in the log up to `todo`, of which the switch has not heard. -/
structure Lag (log : List LogEntry) (s : System S) (c : ConnId) (todo : List HandlerOp) : Prop where
  handled : (Entry.own c log ++ todo.map (HandlerOp.entry c)) = (s.conn c).handled.map (HandlerOp.entry c)
  topics : (Entry.topics c log : Set Topic) = topicsOf (s.switch.ofSender c)
  passes : s.switchAlive = true → Passes (Entry.topics c log : Set Topic) todo (s.queueOf c)

/-- What the service has done by now. -/
structure Logged (log : List LogEntry) (s : System S) : Prop where
  taken : log.filterMap Entry.published? = s.taken.map Taken.event
  own : ∀ c, Entry.own c log <+: (s.conn c).handled.map (HandlerOp.entry c)
  lag : ∀ c, (s.conn c).exited = false → ∃ todo, Lag log s c todo
  expected : ∀ c, (s.conn c).exited = false → s.expected c = Entry.delivered Event.topic c log

theorem logged_init (shipped : ConnId → Bool) : Logged [] (init S shipped) where
  taken := rfl
  own _ := List.nil_prefix
  lag c _ := by
    refine ⟨[], rfl, ?_, fun _ => .nil _⟩
    ext t
    simp [Entry.topics, topicsOf, EventSwitch.ofSender, init]
  expected _ _ := rfl

theorem Lag.congr {log : List LogEntry} {s s' : System S} {c : ConnId} {todo : List HandlerOp}
    (h : Lag log s c todo) (hhandled : (s'.conn c).handled = (s.conn c).handled)
    (hswitch : s'.switch.ofSender c = s.switch.ofSender c) (hqueue : s'.queueOf c = s.queueOf c)
    (halive : s'.switchAlive = true → s.switchAlive = true) : Lag log s' c todo where
  handled := hhandled ▸ h.handled
  topics := hswitch ▸ h.topics
  passes ha := hqueue ▸ h.passes (halive ha)

theorem logged_of_frame {log : List LogEntry} {s s' : System S} (hinv : Logged log s)
    (hexited : ∀ c, (s'.conn c).exited = false → (s.conn c).exited = false)
    (hhandled : ∀ c, (s'.conn c).handled = (s.conn c).handled) (hswitch : s'.switch = s.switch)
    (hqueue : s'.subscriptionRx = s.subscriptionRx) (halive : s'.switchAlive = true → s.switchAlive = true)
    (htaken : s'.taken = s.taken) : Logged log s' where
  taken := htaken ▸ hinv.taken
  own c := hhandled c ▸ hinv.own c
  lag c hex := by
    obtain ⟨todo, hlag⟩ := hinv.lag c (hexited c hex)
    exact ⟨todo, hlag.congr (hhandled c) (hswitch ▸ rfl) (by rw [queueOf, hqueue, queueOf]) halive⟩
  expected c hex := by
    rw [System.expected, htaken]
    exact hinv.expected c (hexited c hex)

theorem queueOf_append {s s' : System S} {c' : ConnId} {n : Option (SubscriptionNotification ConnId)}
    (h : s'.subscriptionRx = s.subscriptionRx ++ n.toList.map fun n => (c', n)) (c : ConnId) :
    s'.queueOf c = s.queueOf c ++ if c' = c then n.toList else [] := by
  rw [queueOf, queueOf, h, List.filter_append, List.map_append]
  congr 1
  cases n with
  | none => simp
  | some n => by_cases hc : c' = c <;> simp [hc]

theorem Lag.localTopics {log : List LogEntry} {s : System S} {c : ConnId} {todo : List HandlerOp}
    (h : Lag log s c todo) (hviews : Views s c) (halive : s.switchAlive = true) :
    todo.foldl HandlerOp.apply (Entry.topics c log : Set Topic) = (s.conn c).localTopics := by
  rw [hviews.topics halive, ← HandlerOp.coe_foldl_entry c todo, ← Entry.topics_own, Entry.topics,
    ← List.foldl_append, h.handled, HandlerOp.coe_foldl_entry, Finset.coe_empty]

theorem logged_of_subscription {log : List LogEntry} {s s' : System S} {c' : ConnId} {id : SubscriptionID} {k : Conn}
    {n : Option (SubscriptionNotification ConnId)} (hinv : Logged log s) (hviews : ∀ c, Views s c)
    (h : (s.conn c').onSubscription c' id s.switchAlive = some (k, n))
    (hconn : s'.conn = (s.setConn c' k).conn) (hswitch : s'.switch = s.switch)
    (hqueue : s'.subscriptionRx = s.subscriptionRx ++ n.toList.map fun n => (c', n))
    (halive : s'.switchAlive = s.switchAlive) (htaken : s'.taken = s.taken) : Logged log s' := by
  obtain ⟨o, rest, -, -, hhandled, hexited, hcase⟩ := Conn.onSubscription_cases h
  have hconn' : ∀ c, (s'.conn c).exited = (s.conn c).exited ∧
      (s'.conn c).handled = (s.conn c).handled ++ if c' = c then [o] else [] := by
    intro c
    rw [hconn, conn_setConn]
    by_cases hc : c = c'
    · subst hc
      rw [if_pos rfl, if_pos rfl]
      exact ⟨hexited, hhandled⟩
    · rw [if_neg hc, if_neg (Ne.symm hc), List.append_nil]
      exact ⟨rfl, rfl⟩
  refine ⟨htaken ▸ hinv.taken, fun c => ?_, fun c hex => ?_, fun c hex => ?_⟩
  · rw [(hconn' c).2, List.map_append]
    exact (hinv.own c).trans (List.prefix_append _ _)
  · rw [(hconn' c).1] at hex
    obtain ⟨todo, hlag⟩ := hinv.lag c hex
    have hqueueOf := queueOf_append hqueue c
    by_cases hc : c' = c
    · subst hc
      rw [if_pos rfl] at hqueueOf
      refine ⟨todo ++ [o], ?_, hswitch ▸ hlag.topics, fun ha => ?_⟩
      · rw [(hconn' c').2, if_pos rfl, List.map_append, List.map_append, ← List.append_assoc, hlag.handled]
      · rw [halive] at ha
        have hpasses := hlag.passes ha
        have hlocal := hlag.localTopics (hviews c') ha
        rw [hqueueOf]
        cases hcase with
        | kept hlookup htopics =>
          rw [Option.toList_none, List.append_nil]
          refine hpasses.concat_idle ?_
          rw [hlocal, ← htopics ha]
          exact (localSubs_congr hlookup).2
        | subscribed t hop _ _ _ => exact hpasses.concat_sent hop
        | unsubscribed t old hop _ _ _ => exact hpasses.concat_sent hop
    · rw [if_neg hc, List.append_nil] at hqueueOf
      refine ⟨todo, hlag.congr ?_ (hswitch ▸ rfl) hqueueOf (halive ▸ fun ha => ha)⟩
      rw [(hconn' c).2, if_neg hc, List.append_nil]
  · rw [System.expected, htaken]
    exact hinv.expected c ((hconn' c).1 ▸ hex)

theorem logged_event {log : List LogEntry} {s s' : System S} {e : Event} (hinv : Logged log s)
    (hexited : ∀ c, (s'.conn c).exited = false → (s.conn c).exited = false)
    (hhandled : ∀ c, (s'.conn c).handled = (s.conn c).handled)
    (hswitch : ∀ c, (s'.conn c).exited = false → s'.switch.ofSender c = s.switch.ofSender c)
    (hqueue : s'.subscriptionRx = s.subscriptionRx) (halive : s'.switchAlive = s.switchAlive)
    (htaken : s'.taken = s.taken ++ [{ event := e, subscriptions := s.switch.subscriptions }]) :
    Logged (log ++ [.publish e]) s' := by
  have hown : ∀ c, Entry.own c (log ++ [.publish e]) = Entry.own c log := fun c => by
    rw [Entry.own_append]
    exact List.append_nil _
  have htopics : ∀ c, Entry.topics c (log ++ [.publish e]) = Entry.topics c log := fun c => by
    rw [← Entry.topics_own, hown, Entry.topics_own]
  refine ⟨?_, fun c => ?_, fun c hex => ?_, fun c hex => ?_⟩
  · rw [List.filterMap_append, hinv.taken, htaken, List.map_append]
    rfl
  · rw [hown, hhandled]
    exact hinv.own c
  · obtain ⟨todo, hlag⟩ := hinv.lag c (hexited c hex)
    have hlag' := hlag.congr (hhandled c) (hswitch c hex) (by rw [queueOf, hqueue, queueOf]) (halive ▸ fun ha => ha)
    refine ⟨todo, ?_, ?_, fun ha => ?_⟩
    · rw [hown]
      exact hlag'.handled
    · rw [htopics]
      exact hlag'.topics
    · rw [htopics]
      exact hlag'.passes ha
  · obtain ⟨todo, hlag⟩ := hinv.lag c (hexited c hex)
    rw [Entry.delivered_publish, ← hinv.expected c (hexited c hex), System.expected, System.expected, htaken,
      List.filter_append, List.map_append]
    congr 1
    have hiff : EventSwitch.subscribes s.switch.subscriptions c e.topic = true ↔ e.topic ∈ Entry.topics c log := by
      rw [EventSwitch.subscribes_iff, ← Finset.mem_coe, hlag.topics]
      rfl
    by_cases hsub : e.topic ∈ Entry.topics c log
    · simp [hsub, hiff.mpr hsub]
    · simp [hsub, mt hiff.mp hsub]

/-- The switch takes a notification of connection `c`: the service does the operation it passes on, and those before
it that did nothing. -/
theorem logged_notification {log : List LogEntry} {s s' : System S} {c : ConnId}
    {n : SubscriptionNotification ConnId} {rest : List (ConnId × SubscriptionNotification ConnId)}
    (hinv : Logged log s) (howned : Owned s) (hviews : ∀ c, Views s c) (halive : s.switchAlive = true)
    (hq : s.subscriptionRx = (c, n) :: rest) (hconn : s'.conn = s.conn)
    (hswitch : s'.switch = s.switch.onNotification n) (hqueue : s'.subscriptionRx = rest)
    (htaken : s'.taken = s.taken) : ∃ added, Logged (log ++ added) s' := by
  have hhead := howned.queue (c, n) (hq ▸ List.mem_cons_self)
  -- the other connections
  have hother : ∀ c', c ≠ c' → (s'.switch.ofSender c' = s.switch.ofSender c' ∧ s'.queueOf c' = s.queueOf c') := by
    intro c' hc
    constructor
    · rw [hswitch]
      refine EventSwitch.ofSender_onNotification_other s.switch c' n (fun t id tx heq => ?_) fun t hin => ?_
      · rw [hhead.2 t id tx heq]
        exact hc
      · exact hc (howned.unique hhead.1 (howned.switch t n.id c' hin))
    · rw [queueOf, queueOf, hqueue, hq, List.filter_cons_of_neg (by simp [hc])]
  -- the operations to add, if the connection is there
  obtain ⟨added, hquiet, hadded, hown, hlag⟩ : ∃ added : List LogEntry, added.filterMap Entry.published? = [] ∧
      (∀ c', c ≠ c' → Entry.own c' added = []) ∧
      Entry.own c (log ++ added) <+: (s.conn c).handled.map (HandlerOp.entry c) ∧
      ((s'.conn c).exited = false → ∃ todo, Lag (log ++ added) s' c todo) := by
    cases hex : (s'.conn c).exited with
    | true =>
      refine ⟨[], rfl, fun _ _ => rfl, ?_, fun hno => by cases hno⟩
      rw [List.append_nil]
      exact hinv.own c
    | false =>
      rw [hconn] at hex
      obtain ⟨todo, hlag⟩ := hinv.lag c hex
      have hqueueOf : s.queueOf c = n :: s'.queueOf c := by
        rw [queueOf, queueOf, hqueue, hq, List.filter_cons_of_pos (by simp), List.map_cons]
      have hpasses := hlag.passes halive
      rw [hqueueOf] at hpasses
      obtain ⟨done, todo', rfl, hdone, hrest⟩ := hpasses.receive
      have hownc : Entry.own c (log ++ done.map (HandlerOp.entry c)) =
          Entry.own c log ++ done.map (HandlerOp.entry c) := by
        rw [Entry.own_append, HandlerOp.own_entry, if_pos rfl]
      have hhandled : Entry.own c (log ++ done.map (HandlerOp.entry c)) ++ todo'.map (HandlerOp.entry c) =
          (s.conn c).handled.map (HandlerOp.entry c) := by
        rw [hownc, ← hlag.handled, List.map_append, List.append_assoc]
      have htopics : (Entry.topics c (log ++ done.map (HandlerOp.entry c)) : Set Topic) =
          n.proxied.apply (Entry.topics c log : Set Topic) := by
        rw [Entry.topics_append, HandlerOp.coe_foldl_entry, hdone]
      refine ⟨_, HandlerOp.published_entry c done, fun c' hc => ?_, ⟨_, hhandled⟩,
        fun _ => ⟨todo', ?_, ?_, fun _ => ?_⟩⟩
      · rw [HandlerOp.own_entry, if_neg hc]
      · rw [hconn]
        exact hhandled
      · have hbehind := (hviews c).behind hex
        rw [hqueueOf] at hbehind
        rw [htopics, hswitch, EventSwitch.ofSender_onNotification_own s.switch c n hhead.2, hlag.topics,
          topicsOf_apply ((hviews c).one_id hex) hbehind.receive.1]
      · rw [htopics]
        exact hrest
  have hsame : ∀ c', c ≠ c' → (Entry.own c' (log ++ added) = Entry.own c' log ∧
      Entry.topics c' (log ++ added) = Entry.topics c' log) := by
    intro c' hc
    have hown' : Entry.own c' (log ++ added) = Entry.own c' log := by
      rw [Entry.own_append, hadded c' hc, List.append_nil]
    exact ⟨hown', by rw [← Entry.topics_own, hown', Entry.topics_own]⟩
  refine ⟨added, ?_, fun c' => ?_, fun c' hex => ?_, fun c' hex => ?_⟩
  · rw [List.filterMap_append, hquiet, List.append_nil, htaken]
    exact hinv.taken
  · rw [hconn]
    by_cases hc : c = c'
    · exact hc ▸ hown
    · rw [(hsame c' hc).1]
      exact hinv.own c'
  · by_cases hc : c = c'
    · subst hc
      exact hlag hex
    · rw [hconn] at hex
      obtain ⟨todo, hlag'⟩ := hinv.lag c' hex
      have hlag'' : Lag log s' c' todo :=
        hlag'.congr (hconn ▸ rfl) (hother c' hc).1 (hother c' hc).2 fun _ => halive
      exact ⟨todo, (hsame c' hc).1 ▸ hlag''.handled, (hsame c' hc).2 ▸ hlag''.topics,
        (hsame c' hc).2 ▸ hlag''.passes⟩
  · rw [hconn] at hex
    rw [Entry.delivered_append, Entry.deliveredFrom_quiet _ _ _ hquiet, List.append_nil, System.expected, htaken]
    exact hinv.expected c' hex

/-- **Every step adds to the log what the switch takes.** -/
theorem step_logged {log : List LogEntry} {s s' : System S} {a : SystemAct} (howned : Owned s)
    (hviews : ∀ c, Views s c) (hinv : Logged log s) (h : Step s a s') : ∃ added, Logged (log ++ added) s' := by
  have hexited : ∀ c, (s'.conn c).exited = false → (s.conn c).exited = false := fun c => h.exited
  cases h with
  | session c a session hres h =>
    refine ⟨[], (List.append_nil log).symm ▸ logged_of_frame hinv hexited (fun c' => ?_) rfl rfl (fun ha => ha) rfl⟩
    simp only [conn, Function.update_apply]
    split
    next heq => rw [heq, (Session.step_frame hres h).2]
    next => rfl
  | kept c id k hpolls h =>
    exact ⟨[], (List.append_nil log).symm ▸
      logged_of_subscription hinv hviews h rfl rfl (by simp [setConn]) rfl rfl⟩
  | subscribed c id topic k hpolls h hfresh =>
    exact ⟨[], (List.append_nil log).symm ▸ logged_of_subscription hinv hviews h rfl rfl rfl rfl rfl⟩
  | unsubscribed c id topic old k hpolls h =>
    exact ⟨[], (List.append_nil log).symm ▸ logged_of_subscription hinv hviews h rfl rfl rfl rfl rfl⟩
  | emitted place origin event horigin =>
    obtain ⟨hswitch, hqueue, hsessions, -, halive, htaken⟩ := emit_frame s origin event
    refine ⟨[], (List.append_nil log).symm ▸
      logged_of_frame hinv hexited (fun c => ?_) hswitch hqueue (halive ▸ fun ha => ha) htaken⟩
    rw [conn, hsessions, conn]
  | polled arm =>
    exact ⟨[], (List.append_nil log).symm ▸ logged_of_frame hinv hexited (fun _ => rfl) rfl rfl (fun ha => ha) rfl⟩
  | event emission rest halive harm hq =>
    refine ⟨_, logged_event hinv hexited (fun _ => rfl) (fun c hex => ?_) rfl rfl rfl⟩
    exact EventSwitch.ofSender_onEvent s.switch emission.event fun _ => hexited c hex
  | notification c n rest halive hq => exact logged_notification hinv howned hviews halive hq rfl rfl rfl rfl
  | stopped =>
    exact ⟨[], (List.append_nil log).symm ▸
      logged_of_frame hinv hexited (fun _ => rfl) rfl rfl (fun ha => by cases ha) rfl⟩

/-! ## The property -/

end System

end HardLight
