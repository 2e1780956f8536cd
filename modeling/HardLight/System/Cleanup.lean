import HardLight.System.Delivery
import HardLight.Server.Topics

/-!
# What a disconnected client leaves behind

The server while nothing takes its tasks down: `up` excludes the drop of a task by the runtime.

* `Up`, `step_up` : then every connection loop runs on, whatever its client does;
* `Announced`, `step_announced` : the topic notifications mirror the switch's map, and a topic that some
  handler has added has been announced, unless its first `Subscribe` is still queued;
* `Ended` : the stream of a connection has ended, its handlers are done and every queue is empty;
* `Cleaned`, `cleaned_iff` : such a connection has left the switch exactly when its handler has removed
  every topic itself. The loop waits on its own `rpc_tx` for ever and cleans up nothing.
-/

namespace HardLight
open Lib

namespace SystemAct

/-- The runtime drops no task. -/
def up : SystemAct → Bool
  | session _ .abort => false
  | stopSwitch => false
  | _ => true

end SystemAct

namespace System
variable {S : StateStruct}

/-- Every connection loop and the switch are running. -/
structure Up (s : System S) : Prop where
  conns : ∀ c, (s.conn c).Alive
  switch : s.switchAlive = true

theorem step_up {s s' : System S} {a : SystemAct} (hinv : Up s) (hup : a.up = true) (h : Step s a s') :
    Up s' where
  conns c := by
    rcases h.session_step c with hs | ⟨b, habort, hs⟩
    · rw [conn, hs]
      exact hinv.conns c
    · refine Session.step_alive (hinv.conns c) (fun he => ?_) hs
      rw [habort he] at hup
      cases hup
  switch := by
    cases h with
    | emitted place origin event horigin => rw [(emit_frame s origin event).2.2.2.2.1]; exact hinv.switch
    | stopped => cases hup
    | _ => exact hinv.switch

/-! ## Announcements -/

/-- The notifications sent about a topic. -/
def announced (s : System S) (t : Topic) : List Bool := EventSwitch.history s.switch.topicNotifs t

/-- The notifications mirror the map, and every topic added has been announced or is about to be. -/
structure Announced (s : System S) : Prop where
  mirror : s.switch.TopicsMirror
  added : ∀ c t, s.HasAdded c t →
    (∃ id tx, (c, SubscriptionNotification.subscribe t id tx) ∈ s.subscriptionRx) ∨ s.announced t ≠ []

theorem find_eq_none_of_queued {s : System S} (howned : Owned s) (hviews : ∀ c, Views s c) (hup : Up s)
    {c : ConnId} {t : Topic} {id : SubscriptionID} {tx : ConnId}
    {rest : List (ConnId × SubscriptionNotification ConnId)}
    (hq : s.subscriptionRx = (c, .subscribe t id tx) :: rest) : s.switch.find t id = none := by
  cases hf : s.switch.find t id with
  | none => rfl
  | some c' =>
    have hhead := howned.queue (c, .subscribe t id tx) (hq ▸ List.mem_cons_self)
    have hc : c' = c := howned.unique (howned.switch t id c' hf) hhead.1
    have hbehind := (hviews c).behind (hup.conns c).1
    rw [queueOf, hq, List.filter_cons_of_pos (by simp), List.map_cons] at hbehind
    exact absurd (hc ▸ hf) (hbehind.receive.1 id)

theorem history_onNotification (sw : EventSwitch ConnId) (n : SubscriptionNotification ConnId) (t : Topic) :
    ∃ more, EventSwitch.history (sw.onNotification n).topicNotifs t =
      EventSwitch.history sw.topicNotifs t ++ more := by
  have hconcat : ∀ x : TopicNotification, ∃ more, EventSwitch.history (sw.topicNotifs ++ [x]) t =
      EventSwitch.history sw.topicNotifs t ++ more := by
    intro x
    rw [EventSwitch.history_concat]
    split
    · exact ⟨_, rfl⟩
    · exact ⟨[], (List.append_nil _).symm⟩
  cases n with
  | subscribe t' id tx =>
    simp only [EventSwitch.onNotification]
    split
    · exact hconcat _
    · exact ⟨[], (List.append_nil _).symm⟩
  | unsubscribe t' id =>
    simp only [EventSwitch.onNotification]
    split
    · split
      · exact hconcat _
      · exact ⟨[], (List.append_nil _).symm⟩
    · exact ⟨[], (List.append_nil _).symm⟩

theorem hasAdded_of_local {s : System S} {c : ConnId} {t : Topic} (hup : Up s) (hviews : Views s c)
    (ht : t ∈ (s.conn c).localTopics) : s.HasAdded c t := by
  rw [hviews.topics hup.switch, HandlerOp.mem_replay_iff] at ht
  rcases ht with ⟨before, o, after, heq, hop, -⟩ | ⟨hno, -⟩
  · exact ⟨o, heq ▸ List.mem_append_right _ List.mem_cons_self, hop⟩
  · exact absurd hno (Set.notMem_empty t)

theorem hasAdded_onSubscription {s : System S} {c c' : ConnId} {t : Topic} {id : SubscriptionID} {k : Conn}
    {n : Option (SubscriptionNotification ConnId)} (hup : Up s) (hviews : Views s c')
    (h : (s.conn c').onSubscription c' id s.switchAlive = some (k, n))
    (hadd : (s.setConn c' k).HasAdded c t) :
    s.HasAdded c t ∨ c = c' ∧ n = some (.subscribe t id c') := by
  obtain ⟨o, rest, hq, -, hhandled, -, hcase⟩ := Conn.onSubscription_cases h
  obtain ⟨o', ho', hop⟩ := hadd
  rw [conn_setConn] at ho'
  split at ho'
  next heq =>
    subst heq
    rw [hhandled, List.mem_append, List.mem_singleton] at ho'
    rcases ho' with ho' | rfl
    · exact Or.inl ⟨o', ho', hop⟩
    · have htopics := hcase.localTopics_eq hup.switch
      cases hcase with
      | kept hlookup hkept =>
        refine Or.inl (hasAdded_of_local hup hviews ?_)
        rw [← (localSubs_congr hlookup).2, htopics, HandlerOp.apply, hop]
        exact Set.mem_insert t _
      | subscribed t' hop' halive hnew hsubs =>
        rw [hop] at hop'
        cases hop'
        exact Or.inr ⟨rfl, rfl⟩
      | unsubscribed t' old hop' halive hold hsubs =>
        rw [hop] at hop'
        cases hop'
  next => exact Or.inl ⟨o', ho', hop⟩

theorem step_announced {s s' : System S} {a : SystemAct} (howned : Owned s) (hviews : ∀ c, Views s c)
    (hup : Up s) (hinv : Announced s) (h : Step s a s') : Announced s' := by
  cases h with
  | session c a session hres h =>
    refine ⟨hinv.mirror, fun c' t hadd => hinv.added c' t ?_⟩
    obtain ⟨o, ho, hop⟩ := hadd
    refine ⟨o, ?_, hop⟩
    simp only [conn, Function.update_apply] at ho
    split at ho
    next heq => rw [(Session.step_frame hres h).2] at ho; exact heq ▸ ho
    next => exact ho
  | kept c id k hpolls h =>
    refine ⟨hinv.mirror, fun c' t hadd => ?_⟩
    rcases hasAdded_onSubscription hup (hviews c) h hadd with hadd | ⟨-, hno⟩
    · exact hinv.added c' t hadd
    · cases hno
  | subscribed c id topic k hpolls h hfresh =>
    refine ⟨hinv.mirror, fun c' t hadd => ?_⟩
    rcases hasAdded_onSubscription hup (hviews c) h hadd with hadd | ⟨rfl, hn⟩
    · rcases hinv.added c' t hadd with ⟨id', tx, hin⟩ | hne
      · exact Or.inl ⟨id', tx, List.mem_append_left _ hin⟩
      · exact Or.inr hne
    · cases hn
      exact Or.inl ⟨id, c', List.mem_append_right _ List.mem_cons_self⟩
  | unsubscribed c id topic old k hpolls h =>
    refine ⟨hinv.mirror, fun c' t hadd => ?_⟩
    rcases hasAdded_onSubscription hup (hviews c) h hadd with hadd | ⟨-, hno⟩
    · rcases hinv.added c' t hadd with ⟨id', tx, hin⟩ | hne
      · exact Or.inl ⟨id', tx, List.mem_append_left _ hin⟩
      · exact Or.inr hne
    · cases hno
  | emitted place origin event horigin =>
    obtain ⟨hswitch, hqueue, hsessions, -⟩ := emit_frame s origin event
    refine ⟨hswitch ▸ hinv.mirror, fun c t hadd => ?_⟩
    rw [HasAdded, conn, hsessions] at hadd
    rw [hqueue, announced, hswitch]
    exact hinv.added c t hadd
  | event emission rest halive harm hq =>
    refine ⟨EventSwitch.event_mirror hinv.mirror emission.event s.failed fun hsub => ?_, fun c t hadd => ?_⟩
    · obtain ⟨id, c, hf⟩ := hsub
      exact ⟨id, c, hf, (hup.conns c).1⟩
    · rw [announced, EventSwitch.topicNotifs_onEvent]
      exact hinv.added c t hadd
  | notification c n rest halive hq =>
    have hmirror : (s.switch.onNotification n).TopicsMirror := by
      cases n with
      | subscribe t id tx =>
        exact EventSwitch.subscribe_mirror hinv.mirror t id tx (find_eq_none_of_queued howned hviews hup hq)
      | unsubscribe t id => exact EventSwitch.unsubscribe_mirror hinv.mirror t id
    refine ⟨hmirror, fun c' t hadd => ?_⟩
    rcases hinv.added c' t hadd with ⟨id, tx, hin⟩ | hne
    · rw [hq, List.mem_cons] at hin
      rcases hin with heq | hin
      · cases heq
        -- the topic is subscribed to now, so its last notification is `Created`
        refine Or.inr fun hnil => ?_
        have hlast := (hmirror.last_created_iff t).mpr ⟨id, tx, by simp [EventSwitch.find_subscribe]⟩
        rw [announced] at hnil
        rw [hnil] at hlast
        cases hlast
      · exact Or.inl ⟨id, tx, hin⟩
    · refine Or.inr fun hnil => hne ?_
      obtain ⟨more, hmore⟩ := history_onNotification s.switch n t
      rw [announced, hmore, List.append_eq_nil_iff] at hnil
      exact hnil.1
  | polled arm => exact ⟨hinv.mirror, hinv.added⟩
  | stopped => exact ⟨hinv.mirror, hinv.added⟩

/-! ## The property -/

/-- The stream of `c` has ended, none of its handlers is running, and neither its queues nor the switch's
hold an item. -/
structure Ended (s : System S) (c : ConnId) : Prop where
  stream : (s.conn c).wsEnded = true ∧ (s.conn c).wsIn = []
  no_task : (s.conn c).tasks = []
  no_response : (s.conn c).rpcRx = []
  no_state_change : (s.conn c).stateChangeRx = []
  no_event : (s.conn c).eventsRx = []
  no_operation : (s.conn c).proxyRx = []
  not_sending : (s.conn c).sending = none
  switch_queues : s.newEventRx = [] ∧ s.subscriptionRx = []

/-- **The connection has left the switch**, and its topics with no other subscriber are reported. -/
structure Cleaned (s : System S) (c : ConnId) : Prop where
  no_subscription : ∀ t id, s.switch.find t id ≠ some c
  removed : ∀ t, s.HasAdded c t → (¬ ∃ id c', c' ≠ c ∧ s.switch.find t id = some c') →
    (s.announced t).getLast? = some false

/-- With every queue empty the switch's entries are the topics whose last operation was `add`. -/
theorem ofSender_of_ended {s : System S} {c : ConnId} (hviews : Views s c) (hup : Up s) (hended : Ended s c)
    (t : Topic) : (∃ id, s.switch.find t id = some c) ↔ HandlerOp.LastAdded (s.conn c).handled t := by
  have hbehind := hviews.behind (hup.conns c).1
  rw [queueOf, hended.switch_queues.2] at hbehind
  have hsame : s.switch.ofSender c = (s.conn c).localSubs := hbehind.settled
  have htopic : (∃ id, s.switch.find t id = some c) ↔ t ∈ (s.conn c).localTopics := by
    rw [Conn.mem_localTopics_iff, ← hsame]
    rfl
  rw [htopic, hviews.topics hup.switch, HandlerOp.mem_replay_iff]
  simp

/-- **A disconnect cleans up exactly what the handler had removed.** -/
theorem cleaned_iff {shipped : ConnId → Bool} {as : List SystemAct} {s : System S} {c : ConnId}
    (hup : ∀ a ∈ as, a.up = true) (h : run step (init S shipped) as = some s) (hended : Ended s c) :
    Cleaned s c ↔ ∀ t, ¬ HandlerOp.LastAdded (s.conn c).handled t := by
  have hinv : (Owned s ∧ ∀ c, Views s c) ∧ Up s ∧ Announced s := by
    refine run_invariant (P := fun a => a.up = true)
      (I := fun s : System S => (Owned s ∧ ∀ c, Views s c) ∧ Up s ∧ Announced s) ?_ hup
      ⟨views_init shipped, ⟨fun _ => ⟨rfl, rfl⟩, rfl⟩, EventSwitch.topicsMirror_new, ?_⟩ h
    · rintro s a s' ha ⟨hviews, hups, hann⟩ hs
      have hcases := step_cases hs
      exact ⟨step_owned_views hviews hcases, step_up hups ha hcases,
        step_announced hviews.1 hviews.2 hups hann hcases⟩
    · rintro c t ⟨o, ho, -⟩
      cases ho
  obtain ⟨⟨-, hviews⟩, hups, hann⟩ := hinv
  have hentries := ofSender_of_ended (hviews c) hups hended
  constructor
  · intro hclean t hlast
    obtain ⟨id, hf⟩ := (hentries t).mpr hlast
    exact hclean.no_subscription t id hf
  · intro hnone
    have hno : ∀ t id, s.switch.find t id ≠ some c := fun t id hf => hnone t ((hentries t).mp ⟨id, hf⟩)
    refine ⟨hno, fun t hadd hother => ?_⟩
    have hsub : ¬ s.switch.Subscribed t := by
      rintro ⟨id, c', hf⟩
      by_cases hc : c' = c
      · exact hno t id (hc ▸ hf)
      · exact hother ⟨id, c', hc, hf⟩
    have hlast : (s.announced t).getLast? ≠ some true := fun hl =>
      hsub ((hann.mirror.last_created_iff t).mp hl)
    have hne : s.announced t ≠ [] := by
      rcases hann.added c t hadd with ⟨id, tx, hin⟩ | hne
      · rw [hended.switch_queues.2] at hin
        cases hin
      · exact hne
    cases hl : (s.announced t).getLast? with
    | none => exact absurd (List.getLast?_eq_none_iff.mp hl) hne
    | some b =>
      cases b with
      | false => rfl
      | true => exact absurd hl hlast

/-- A handler adds a topic, the switch takes it, and the client goes away. -/
def goneRun : List SystemAct :=
  [.session 0 (.conn (.handlerOp none (.subscribe ⟨[116], true⟩))),
    .session 0 (.conn .pollNext), .session 0 (.conn .pollNext), .session 0 (.conn .pollNext),
    .subscription 0 (Vector.replicate 16 0), .switchPoll, .switchNotification,
    .session 0 (.conn .peerEnd)]

/-- The handler removes the topic before it does. -/
def removedRun : List SystemAct :=
  goneRun.dropLast ++
    [.session 0 (.conn (.handlerOp none (.unsubscribe ⟨[116], true⟩))),
      .session 0 (.conn .pollNext), .session 0 (.conn .pollNext), .session 0 (.conn .pollNext),
      .subscription 0 (Vector.replicate 16 0), .switchPoll, .switchNotification,
      .session 0 (.conn .peerEnd)]

theorem cleaned_removedRun :
    ∃ s, run step (init counterState.toStateStruct fun _ => true) removedRun = some s ∧ Ended s 0 ∧
      s.announced ⟨[116], true⟩ = [true, false] ∧ Cleaned s 0 := by
  obtain ⟨s, hs, hended, hann, hhandled⟩ :
      ∃ s, run step (init counterState.toStateStruct fun _ => true) removedRun = some s ∧ Ended s 0 ∧
        s.announced ⟨[116], true⟩ = [true, false] ∧
        (s.conn 0).handled = [⟨none, .subscribe ⟨[116], true⟩⟩, ⟨none, .unsubscribe ⟨[116], true⟩⟩] :=
    ⟨_, rfl, ⟨⟨rfl, rfl⟩, rfl, rfl, rfl, rfl, rfl, rfl, ⟨rfl, rfl⟩⟩, by decide, rfl⟩
  refine ⟨s, hs, hended, hann, (cleaned_iff (by decide) hs hended).mpr fun t hlast => ?_⟩
  have hreplay : t ∈ (s.conn 0).handled.foldl HandlerOp.apply ∅ :=
    HandlerOp.mem_replay_iff.mpr (Or.inl hlast)
  rw [hhandled] at hreplay
  simp [HandlerOp.apply, ProxiedSubscriptionNotification.apply] at hreplay

/-- **A connection that is gone stays subscribed.** -/
theorem not_cleaned_goneRun :
    ¬ ∀ (shipped : ConnId → Bool) (as : List SystemAct) (s : System counterState.toStateStruct) (c : ConnId),
      (∀ a ∈ as, a.up = true) → run step (init _ shipped) as = some s → Ended s c → Cleaned s c := by
  intro hall
  obtain ⟨s, hs, hended, hfind⟩ :
      ∃ s, run step (init counterState.toStateStruct fun _ => true) goneRun = some s ∧ Ended s 0 ∧
        s.switch.find ⟨[116], true⟩ (Vector.replicate 16 0) = some 0 :=
    ⟨_, rfl, ⟨⟨rfl, rfl⟩, rfl, rfl, rfl, rfl, rfl, rfl, ⟨rfl, rfl⟩⟩, by decide⟩
  exact (hall _ goneRun s 0 (by decide) hs hended).no_subscription _ _ hfind

end System

end HardLight
