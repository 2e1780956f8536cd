import Mathlib.Algebra.Order.BigOperators.Group.Finset
import Mathlib.Data.Fintype.BigOperators
import HardLight.System.Audience
import HardLight.Session.Progress

/-!
# The server is not held up

The work of the event switch and of the connections in `C`, which stay up and lose nothing, beside any other
connections.

* `work`, `Work` : how much work there is, and its steps; `step_work` : a step of work makes it less, although an
  event goes to many connections; `step_brings` : how much more another step can make it;
* `Running`, `step_running` : the switch and the connections in `C` are there and have lost nothing;
* `Drained`, `drained_of_end` : the state in which no work is left;
* `drains_of_run` : in every run the work that is left comes to an end, and it ends in such a state. Each step that is
  not of this work, such as an emission, brings a bounded amount of it;
* `served_of_run` : with nothing in between, and if all sends complete, work leads to a state in which every client has
  heard everything.
-/

namespace HardLight
open Lib

namespace Conn

theorem takes_operation {k k' : Conn} {id : SubscriptionID} {alive : Bool}
    (h : k.step (.subscription id alive) = some k') : k.polls .subscription = true ∧ k.proxyRx ≠ [] := by
  cases step_cases h with
  | notified id alive o rest subscriptions hpolls hq => exact ⟨hpolls, hq ▸ List.cons_ne_nil o rest⟩

end Conn

namespace SessionAct

theorem brings_le {a : SessionAct} (h : a.reserved = false) : a.brings ≤ 65 := by
  cases a with
  | conn a => cases a <;> first | exact Nat.le_refl 65 | cases h
  | client a => exact Nat.le_refl 65
  | receive decoded => exact Nat.zero_le 65
  | abort => exact Nat.zero_le 65

end SessionAct

namespace SystemAct

/-- How much work for the switch and the connections in `C` the action can bring. -/
def brings (C : Finset ConnId) : SystemAct → Nat
  | session _ _ => 263
  | emit _ _ => 116 * C.card + 3
  | _ => 3

end SystemAct

namespace Session
variable {S : StateStruct}

theorem work_deliver (s : Session S) (e : Event) {n : Nat} (hn : n ≤ 1) :
    (s.deliver (List.replicate n e)).work ≤ s.work + 29 := by
  have hconn : (s.deliver (List.replicate n e)).conn.work = s.conn.work + 4 * n := by
    simp only [deliver, Conn.work, List.length_append, List.length_replicate]
    omega
  have hdistance := (s.deliver (List.replicate n e)).conn.distance_le
  rw [work, work, hconn, show (s.deliver (List.replicate n e)).client = s.client from rfl]
  omega

end Session

namespace System
variable {S : StateStruct}

/-! ## Work -/

/-- The switch would take something from the arm if it polled it now. -/
def switchReady (s : System S) : SwitchArm → Bool
  | .event => !s.newEventRx.isEmpty
  | .notification => !s.subscriptionRx.isEmpty

/-- How many arms the switch passes over before it takes something. -/
def switchDistance (s : System S) : Nat := if s.switchReady s.switchArm then 0 else 1

/-- The work there is for the connections in `C` and the switch. An event may go to all of them. -/
def work (C : Finset ConnId) (s : System S) : Nat :=
  4 * ∑ c ∈ C, (s.sessions c).work + 2 * s.subscriptionRx.length + (116 * C.card + 2) * s.newEventRx.length +
    s.switchDistance

/-- A step of work. `returns` says what the handler of a request of a connection returns, if it ever does. -/
def Work (sockets : ConnId → Socket) (returns : ConnId → Request → Option (HandlerResult Bytes)) (C : Finset ConnId)
    (s : System S) : SystemAct → Prop
  | .session c a => c ∈ C ∧ (s.sessions c).Work (sockets c) (returns c) a
  | .subscription c _ => c ∈ C
  | .switchPoll => ∃ arm, s.switchReady arm = true
  | .switchEvent => True
  | .switchNotification => True
  | _ => False

section Measure
variable {C : Finset ConnId} {s s' : System S}

theorem switchDistance_le (s : System S) : s.switchDistance ≤ 1 := by
  unfold switchDistance
  split <;> omega

theorem sum_work_lt {c : ConnId} {session : Session S} (hc : c ∈ C)
    (hsessions : s'.sessions = Function.update s.sessions c session) (hlt : session.work < (s.sessions c).work) :
    ∑ c ∈ C, (s'.sessions c).work < ∑ c ∈ C, (s.sessions c).work := by
  rw [hsessions]
  refine Finset.sum_lt_sum (fun c' _ => ?_) ⟨c, hc, by rwa [Function.update_self]⟩
  by_cases heq : c' = c
  · subst heq
    rw [Function.update_self]
    exact hlt.le
  · rw [Function.update_of_ne heq]

/-- One connection has at most `n` more work. -/
theorem sum_work_le {c : ConnId} {session : Session S} {n : Nat}
    (hsessions : s'.sessions = Function.update s.sessions c session) (hle : session.work ≤ (s.sessions c).work + n) :
    ∑ c ∈ C, (s'.sessions c).work ≤ ∑ c ∈ C, (s.sessions c).work + n := by
  rw [hsessions]
  have hone : ∑ c' ∈ C, (if c' = c then n else 0) ≤ n := by
    rw [Finset.sum_ite_eq']
    split
    · exact Nat.le_refl n
    · exact Nat.zero_le n
  calc ∑ c' ∈ C, (Function.update s.sessions c session c').work
      ≤ ∑ c' ∈ C, ((s.sessions c').work + if c' = c then n else 0) := by
        refine Finset.sum_le_sum fun c' _ => ?_
        by_cases heq : c' = c
        · subst heq
          rw [Function.update_self, if_pos rfl]
          exact hle
        · rw [Function.update_of_ne heq, if_neg heq, Nat.add_zero]
    _ = ∑ c' ∈ C, (s.sessions c').work + ∑ c' ∈ C, (if c' = c then n else 0) := Finset.sum_add_distrib
    _ ≤ ∑ c ∈ C, (s.sessions c).work + n := Nat.add_le_add_left hone _

theorem work_lt_of_sum (hsum : ∑ c ∈ C, (s'.sessions c).work < ∑ c ∈ C, (s.sessions c).work)
    (hevents : s'.newEventRx = s.newEventRx) (hqueue : s'.subscriptionRx.length ≤ s.subscriptionRx.length + 1) :
    s'.work C < s.work C := by
  have hdistance := s'.switchDistance_le
  rw [work, work, hevents]
  omega

theorem work_le_of_sum {n : Nat} (hsum : ∑ c ∈ C, (s'.sessions c).work ≤ ∑ c ∈ C, (s.sessions c).work + n)
    (hevents : s'.newEventRx = s.newEventRx) (hqueue : s'.subscriptionRx.length ≤ s.subscriptionRx.length + 1) :
    s'.work C ≤ s.work C + (4 * n + 3) := by
  have hdistance := s'.switchDistance_le
  rw [work, work, hevents]
  omega

/-- An operation that is taken is less work for its connection. -/
theorem work_subscription {c : ConnId} {id : SubscriptionID} {k : Conn}
    {n : Option (SubscriptionNotification ConnId)} (hpolls : (s.conn c).polls .subscription = true)
    (hk : (s.conn c).onSubscription c id s.switchAlive = some (k, n)) :
    ({ s.sessions c with conn := k } : Session S).work < (s.sessions c).work :=
  Session.work_moves rfl (session_subscription hpolls hk)

/-- Polling an arm that is not ready brings the switch to one that is. -/
theorem work_switchPoll (hready : ∃ arm, s.switchReady arm = true) (h : s.step .switchPoll = some s') :
    s'.work C < s.work C := by
  obtain ⟨arm, harm⟩ := hready
  rw [step, switchPoll, Option.ite_none_right_eq_some] at h
  obtain ⟨-, h⟩ := h
  have hless : s'.switchDistance < s.switchDistance ∧ s'.sessions = s.sessions ∧
      s'.subscriptionRx = s.subscriptionRx ∧ s'.newEventRx = s.newEventRx := by
    split at h
    next hevent =>
      rw [Option.ite_none_right_eq_some] at h
      obtain ⟨hempty, h⟩ := h
      cases h
      cases arm <;> simp_all [switchDistance, switchReady]
    next hnotification =>
      rw [Option.ite_none_right_eq_some] at h
      obtain ⟨hempty, h⟩ := h
      cases h
      cases arm <;> simp_all [switchDistance, switchReady]
  obtain ⟨hdistance, hsessions, hqueue, hevents⟩ := hless
  rw [work, work, hsessions, hqueue, hevents]
  omega

/-- An event that is taken is more work than all that it makes. -/
theorem work_switchEvent {event : Event} {count : ConnId → Nat} (hcount : ∀ c ∈ C, count c ≤ 1)
    (hsessions : s'.sessions = fun c => (s.sessions c).deliver (List.replicate (count c) event))
    (hqueue : s'.subscriptionRx = s.subscriptionRx) (hevents : s'.newEventRx.length + 1 = s.newEventRx.length) :
    s'.work C < s.work C := by
  have hsum : ∑ c ∈ C, (s'.sessions c).work ≤ ∑ c ∈ C, (s.sessions c).work + 29 * C.card := by
    calc ∑ c ∈ C, (s'.sessions c).work
        ≤ ∑ c ∈ C, ((s.sessions c).work + 29) :=
          Finset.sum_le_sum fun c hc => by rw [hsessions]; exact Session.work_deliver _ _ (hcount c hc)
      _ = ∑ c ∈ C, (s.sessions c).work + 29 * C.card := by
          rw [Finset.sum_add_distrib, Finset.sum_const_nat fun _ _ => rfl, Nat.mul_comm]
  have hdistance := s'.switchDistance_le
  rw [work, work, hqueue, ← hevents, Nat.mul_succ]
  omega

/-- **Work gets less with every step of it.** -/
theorem step_work {sockets : ConnId → Socket} {returns : ConnId → Request → Option (HandlerResult Bytes)}
    {a : SystemAct} (hviews : ∀ c, Views s c) (hthere : ∀ c ∈ C, (s.conn c).exited = false)
    (hW : s.Work sockets returns C a) (h : s.step a = some s') : s'.work C < s.work C := by
  cases step_cases h with
  | session c a session hres hs =>
    exact work_lt_of_sum (sum_work_lt hW.1 rfl (Session.step_work hW.2 hs)) rfl (Nat.le_succ _)
  | kept c id k hpolls hk =>
    exact work_lt_of_sum (sum_work_lt hW rfl (work_subscription hpolls hk)) rfl (Nat.le_succ _)
  | subscribed c id topic k hpolls hk hfresh =>
    refine work_lt_of_sum (sum_work_lt hW rfl (work_subscription hpolls hk)) rfl ?_
    rw [List.length_append, List.length_singleton]
  | unsubscribed c id topic old k hpolls hk =>
    refine work_lt_of_sum (sum_work_lt hW rfl (work_subscription hpolls hk)) rfl ?_
    rw [List.length_append, List.length_singleton]
  | polled arm => exact work_switchPoll hW h
  | event emission rest halive harm hq =>
    refine work_switchEvent (fun c hc => ?_) rfl rfl (by rw [hq, List.length_cons])
    rw [count_receivers (hviews c) (hthere c hc)]
    split <;> omega
  | notification c n rest halive hq =>
    have hdistance := switchDistance_le { s with
      subscriptionRx := rest, switch := s.switch.onNotification n, switchArm := .event }
    rw [work, work, hq, List.length_cons]
    dsimp only
    omega
  | emitted place origin event horigin => cases hW
  | stopped => cases hW

/-- **Other steps bring a bounded amount of work**, whichever connection they are of. -/
theorem step_brings {a : SystemAct} (hviews : ∀ c, Views s c) (hthere : ∀ c ∈ C, (s.conn c).exited = false)
    (h : s.step a = some s') : s'.work C ≤ s.work C + a.brings C := by
  cases step_cases h with
  | session c a session hres hs =>
    show _ ≤ s.work C + (4 * 65 + 3)
    have hmore := (Session.step_brings hs).trans (Nat.add_le_add_left (SessionAct.brings_le hres) _)
    exact work_le_of_sum (sum_work_le rfl hmore) rfl (Nat.le_succ _)
  | kept c id k hpolls hk =>
    show _ ≤ s.work C + (4 * 0 + 3)
    exact work_le_of_sum (sum_work_le rfl (work_subscription hpolls hk).le) rfl (Nat.le_succ _)
  | subscribed c id topic k hpolls hk hfresh =>
    show _ ≤ s.work C + (4 * 0 + 3)
    refine work_le_of_sum (sum_work_le rfl (work_subscription hpolls hk).le) rfl ?_
    rw [List.length_append, List.length_singleton]
  | unsubscribed c id topic old k hpolls hk =>
    show _ ≤ s.work C + (4 * 0 + 3)
    refine work_le_of_sum (sum_work_le rfl (work_subscription hpolls hk).le) rfl ?_
    rw [List.length_append, List.length_singleton]
  | emitted place origin event horigin =>
    have hdistance := (s.emit origin event).switchDistance_le
    have hlength : (s.emit origin event).newEventRx.length ≤ s.newEventRx.length + 1 := by
      rw [emit]
      split
      · rw [List.length_append, List.length_singleton]
      · exact Nat.le_succ _
    have hevents := Nat.mul_le_mul_left (116 * C.card + 2) hlength
    rw [Nat.mul_succ] at hevents
    rw [work, work, (emit_frame s origin event).2.1, (emit_frame s origin event).2.2.1, SystemAct.brings]
    omega
  | polled arm =>
    show _ ≤ s.work C + (4 * 0 + 3)
    exact work_le_of_sum (Nat.le_refl _) rfl (Nat.le_succ _)
  | event emission rest halive harm hq =>
    have hW : s.Work (fun _ => Session.oneRoom) (fun _ _ => none) C .switchEvent := trivial
    exact (step_work hviews hthere hW h).le.trans (Nat.le_add_right _ _)
  | notification c n rest halive hq =>
    have hW : s.Work (fun _ => Session.oneRoom) (fun _ _ => none) C .switchNotification := trivial
    exact (step_work hviews hthere hW h).le.trans (Nat.le_add_right _ _)
  | stopped => exact Nat.le_add_right _ _

end Measure

end System

/-! ## What stays up -/

namespace SessionAct

theorem stays_of_reserved {a : SessionAct} (h : a.reserved = true) : a.stays = true := by
  cases a with
  | conn a => cases a <;> first | rfl | cases h
  | _ => cases h

end SessionAct

namespace SystemAct

/-- The switch and the connections in `C` stay up, and the message of the action, if it is one of theirs, gets
through. -/
def stays (C : Finset ConnId) : SystemAct → Bool
  | session c a => decide (c ∉ C) || a.stays
  | stopSwitch => false
  | _ => true

theorem stays_session {C : Finset ConnId} {c : ConnId} {a : SessionAct} (hc : c ∈ C)
    (h : (session c a).stays C = true) : a.stays = true := by
  rw [stays, Bool.or_eq_true, decide_eq_true_eq] at h
  exact h.resolve_left fun hno => hno hc

end SystemAct

namespace System
variable {S : StateStruct} {C : Finset ConnId} {s s' : System S} {a : SystemAct}

/-- The switch is there, and the connections in `C` are up and have lost nothing. -/
structure Running (C : Finset ConnId) (s : System S) : Prop where
  views : Owned s ∧ ∀ c, Views s c
  switch : s.switchAlive = true
  up : ∀ c ∈ C, (s.sessions c).Up
  hears : ∀ c ∈ C, (s.sessions c).Hears
  delivers : ∀ c ∈ C, Delivers s c

theorem running_init {shipped : ConnId → Bool} (hC : ∀ c ∈ C, shipped c = true) : Running C (init S shipped) where
  views := views_init shipped
  switch := rfl
  up c hc := by
    show (Session.init S (shipped c)).Up
    rw [hC c hc]
    exact Session.up_init S
  hears c _ := rfl
  delivers c _ _ := rfl

theorem step_switchAlive (ha : a ≠ .stopSwitch) (h : s.step a = some s') : s'.switchAlive = s.switchAlive := by
  cases step_cases h with
  | emitted place origin event horigin => exact (emit_frame s origin event).2.2.2.2.1
  | stopped => exact absurd rfl ha
  | _ => rfl

theorem step_running (hinv : Running C s) (ha : a.stays C = true) (h : s.step a = some s') : Running C s' where
  views := step_owned_views hinv.views (step_cases h)
  switch := by
    refine (step_switchAlive ?_ h).trans hinv.switch
    rintro rfl
    cases ha
  up c hc := by
    rcases (step_cases h).session_act c with ⟨b, rfl, hb⟩ | ⟨-, heq | ⟨b, hres, hb⟩⟩
    · exact Session.step_up (hinv.up c hc) (SystemAct.stays_session hc ha) hb
    · rw [heq]
      exact hinv.up c hc
    · exact Session.step_up (hinv.up c hc) (SessionAct.stays_of_reserved hres) hb
  hears c hc := by
    refine step_hears (hinv.up c hc).shipped (hinv.hears c hc) ?_ (step_cases h)
    rintro rfl
    cases SystemAct.stays_session hc ha
  delivers c hc := by
    refine step_delivers (hinv.views.2 c) (hinv.delivers c hc) ?_ (step_cases h)
    rintro rfl
    cases SystemAct.stays_session hc ha

theorem Work.stays {sockets : ConnId → Socket} {returns : ConnId → Request → Option (HandlerResult Bytes)}
    (h : s.Work sockets returns C a) : a.stays C = true := by
  cases a with
  | session c a => rw [SystemAct.stays, h.2.stays, Bool.or_true]
  | stopSwitch => cases h
  | _ => rfl

/-! ## Where work ends -/

theorem exists_fresh {ids : List SubscriptionID} (h : ids.length < 2 ^ 128) : ∃ id, id ∉ ids := by
  by_contra hno
  push Not at hno
  have hinj : Function.Injective fun f : Fin 16 → Fin 256 => Vector.ofFn fun i => UInt8.ofFin (f i) := by
    intro f g hfg
    funext i
    have hget := congrArg (fun id : SubscriptionID => id[i.val]) hfg
    exact congrArg UInt8.toFin (by simpa using hget : UInt8.ofFin (f i) = UInt8.ofFin (g i))
  have hle : Fintype.card (Fin 16 → Fin 256) ≤ ids.toFinset.card := by
    rw [← Finset.card_univ, ← Finset.card_image_of_injective _ hinj]
    exact Finset.card_le_card fun id _ => List.mem_toFinset.mpr (hno id)
  have hcard : Fintype.card (Fin 16 → Fin 256) = 2 ^ 128 := by
    rw [Fintype.card_fun, Fintype.card_fin, Fintype.card_fin]
    rfl
  exact absurd (hcard ▸ hle) (Nat.not_le.mpr ((List.toFinset_card_le ids).trans_lt h))

theorem switch_takes (halive : s.switchAlive = true) (hready : s.switchReady s.switchArm = true) :
    (∃ s', s.step .switchEvent = some s') ∨ ∃ s', s.step .switchNotification = some s' := by
  cases harm : s.switchArm with
  | event =>
    rw [harm] at hready
    refine Or.inl (Option.isSome_iff_exists.mp ?_)
    simp only [step, switchEvent, halive, harm, decide_true, Bool.and_self, if_true]
    cases hq : s.newEventRx with
    | nil => simp [switchReady, hq] at hready
    | cons emission rest => rfl
  | notification =>
    rw [harm] at hready
    refine Or.inr (Option.isSome_iff_exists.mp ?_)
    simp only [step, switchNotification, halive, harm, decide_true, Bool.and_self, if_true]
    cases hq : s.subscriptionRx with
    | nil => simp [switchReady, hq] at hready
    | cons x rest => rfl

theorem switchPoll_enabled (halive : s.switchAlive = true) (hready : s.switchReady s.switchArm = false) :
    ∃ s', s.step .switchPoll = some s' := by
  refine Option.isSome_iff_exists.mp ?_
  cases harm : s.switchArm with
  | event =>
    rw [harm, switchReady, Bool.not_eq_false'] at hready
    simp only [step, switchPoll, halive, harm, hready, if_true]
    rfl
  | notification =>
    rw [harm, switchReady, Bool.not_eq_false'] at hready
    simp only [step, switchPoll, halive, harm, hready, if_true]
    rfl

theorem subscription_enabled {c : ConnId} {id : SubscriptionID} (hfresh : id ∉ s.minted.map Prod.fst)
    (hpolls : (s.conn c).polls .subscription = true) (hq : (s.conn c).proxyRx ≠ []) :
    ∃ s', s.step (.subscription c id) = some s' := by
  have hsome : ((s.conn c).onSubscription c id s.switchAlive).isSome = true := by
    obtain ⟨o, rest, hq⟩ := List.exists_cons_of_ne_nil hq
    simp only [Conn.onSubscription, hq]
    split <;> split <;> (try split) <;> rfl
  obtain ⟨⟨k, n⟩, hk⟩ := Option.isSome_iff_exists.mp hsome
  refine Option.isSome_iff_exists.mp ?_
  rw [step, subscription, if_pos hpolls, hk]
  cases n with
  | none => rfl
  | some n =>
    cases n with
    | subscribe topic id' tx =>
      obtain ⟨o, rest, -, -, -, -, hcase⟩ := Conn.onSubscription_cases hk
      cases hcase
      simp only [hfresh, if_false, Option.isSome_some]
    | unsubscribe topic old => rfl

/-- Nothing is queued for the switch, and every operation that a connection's loop has taken is in force. A session is
settled and its client has heard all events that it should, or both its loops wait for their sends. -/
structure Drained (sockets : ConnId → Socket) (returns : ConnId → Request → Option (HandlerResult Bytes))
    (C : Finset ConnId) (s : System S) : Prop where
  no_event : s.newEventRx = []
  no_notification : s.subscriptionRx = []
  settled : ∀ c ∈ C, (s.sessions c).Settled (returns c) ∧ (s.sessions c).client.events = s.expected c ∨
    (s.sessions c).Deadlocked (sockets c)
  in_force : ∀ c ∈ C, ∀ t,
    EventSwitch.subscribes s.switch.subscriptions c t = true ↔ HandlerOp.LastAdded (s.conn c).handled t

section End
variable {sockets : ConnId → Socket} {returns : ConnId → Request → Option (HandlerResult Bytes)}

theorem switchReady_of_end (halive : s.switchAlive = true)
    (hend : ∀ a s', s.Work sockets returns C a → s.step a ≠ some s') (arm : SwitchArm) : s.switchReady arm = false := by
  by_contra harm
  rw [Bool.not_eq_false] at harm
  cases hnow : s.switchReady s.switchArm with
  | true =>
    rcases switch_takes halive hnow with ⟨s', hs⟩ | ⟨s', hs⟩
    · exact hend .switchEvent s' trivial hs
    · exact hend .switchNotification s' trivial hs
  | false =>
    obtain ⟨s', hs⟩ := switchPoll_enabled halive hnow
    exact hend .switchPoll s' ⟨arm, harm⟩ hs

theorem session_of_end {c : ConnId} (hc : c ∈ C) (hids : s.minted.length < 2 ^ 128)
    (hend : ∀ a s', s.Work sockets returns C a → s.step a ≠ some s') (b : SessionAct) (session : Session S)
    (hW : (s.sessions c).Work (sockets c) (returns c) b) : (s.sessions c).step b ≠ some session := by
  intro hb
  by_cases hres : b.reserved = true
  · -- the session would take an operation, and so would the server
    obtain ⟨id, alive, rfl⟩ : ∃ id alive, b = .conn (.subscription id alive) := by
      cases b with
      | conn b =>
        cases b with
        | subscription id alive => exact ⟨id, alive, rfl⟩
        | deliver events => cases hW
        | _ => cases hres
      | _ => cases hres
    obtain ⟨-, -, -, hk⟩ := Session.step_conn hb
    obtain ⟨hpolls, hq⟩ := Conn.takes_operation hk
    have hlength : (s.minted.map Prod.fst).length < 2 ^ 128 := by rwa [List.length_map]
    obtain ⟨fresh, hfresh⟩ := exists_fresh hlength
    obtain ⟨s', hs⟩ := subscription_enabled hfresh hpolls hq
    exact hend (.subscription c fresh) s' hc hs
  · refine hend (.session c b) { s with sessions := Function.update s.sessions c session } ⟨hc, hW⟩ ?_
    rw [step, System.session, if_neg hres, hb, Option.map_some]

theorem drained_of_end (hinv : Running C s) (hids : s.minted.length < 2 ^ 128)
    (hend : ∀ a s', s.Work sockets returns C a → s.step a ≠ some s') : Drained sockets returns C s := by
  have hready := switchReady_of_end hinv.switch hend
  have hevents : s.newEventRx = [] := by simpa [switchReady] using hready .event
  have hqueue : s.subscriptionRx = [] := by simpa [switchReady] using hready .notification
  refine ⟨hevents, hqueue, fun c hc => ?_, fun c hc t => ?_⟩
  · refine (Session.settled_of_end (hinv.up c hc) (session_of_end hc hids hend)).imp_left fun hsettled => ?_
    have hrx : (s.sessions c).conn.eventsRx = [] := by simpa [Conn.ready] using hsettled.no_message .event
    obtain ⟨-, hout, hsending⟩ := hsettled.no_item
    refine ⟨hsettled, ?_⟩
    rw [← hinv.delivers c hc (hinv.up c hc).alive.1, hinv.hears c hc]
    simp [Conn.eventLine, TrafficView.eventLine, Conn.outbox, conn, hout, hsending, hrx]
  · have hviews := hinv.views.2 c
    have hbehind := hviews.behind (hinv.up c hc).alive.1
    rw [queueOf, hqueue, List.filter_nil, List.map_nil] at hbehind
    rw [EventSwitch.subscribes_iff]
    show (∃ id, (t, id) ∈ s.switch.ofSender c) ↔ _
    rw [hbehind.settled, ← Conn.mem_localTopics_iff, hviews.topics hinv.switch, HandlerOp.mem_replay_iff]
    simp

end End

/-! ## The property -/

theorem running_of_run {shipped : ConnId → Bool} {as : List SystemAct} (hC : ∀ c ∈ C, shipped c = true)
    (hstays : ∀ a ∈ as, a.stays C = true) (h : run step (init S shipped) as = some s) : Running C s :=
  run_invariant (P := fun a => a.stays C = true) (fun _ _ _ ha hinv hs => step_running hinv ha hs) hstays
    (running_init hC) h

theorem Running.progress (hrunning : Running C s) (sockets : ConnId → Socket)
    (returns : ConnId → Request → Option (HandlerResult Bytes)) :
    Progress step (fun s => s.Work sockets returns C) (fun _ a => a.stays C = true) (SystemAct.brings C)
      (fun s => s.minted.length < 2 ^ 128 → s.Drained sockets returns C) (s.work C) s := by
  refine progress_of_measure (I := Running C) ?_ ?_ ?_ ?_ ?_ hrunning
  · exact fun s a s' hinv hW hs => step_running hinv hW.stays hs
  · exact fun s a s' hinv ha hs => step_running hinv ha hs
  · exact fun s a s' hinv hW hs => step_work hinv.views.2 (fun c hc => (hinv.up c hc).alive.1) hW hs
  · exact fun s a s' hinv _ hs => step_brings hinv.views.2 (fun c hc => (hinv.up c hc).alive.1) hs
  · exact fun s hinv hend hids => drained_of_end hinv hids hend

/-- **The server is not held up**, in every run in which the switch and the connections in `C` stay up and lose nothing,
whatever the peers of the others do: from where the run has come to, no more than `s.work C` steps of work are left, in
any order, and what other steps bring, those of the other connections as well. Where no work is left every event has
been heard, every operation is in force and every call is answered whose handler has returned or does return, but for
sessions whose loops both wait for their sends. -/
theorem drains_of_run {shipped : ConnId → Bool} {as : List SystemAct} (hC : ∀ c ∈ C, shipped c = true)
    (hstays : ∀ a ∈ as, a.stays C = true) (h : run step (init S shipped) as = some s) (sockets : ConnId → Socket)
    (returns : ConnId → Request → Option (HandlerResult Bytes)) :
    Progress step (fun s => s.Work sockets returns C) (fun _ a => a.stays C = true) (SystemAct.brings C)
      (fun s => s.minted.length < 2 ^ 128 → s.Drained sockets returns C) (s.work C) s :=
  (running_of_run hC hstays h).progress sockets returns

/-- **Everything gets through** when every send completes and no other steps come in between: work leads to a state in
which every client has heard every event that it should, and every session is settled. -/
theorem served_of_run {shipped : ConnId → Bool} {as : List SystemAct} (hC : ∀ c ∈ C, shipped c = true)
    (hstays : ∀ a ∈ as, a.stays C = true) (h : run step (init S shipped) as = some s) {sockets : ConnId → Socket}
    (hsockets : ∀ c ∈ C, (sockets c).Completes) (returns : ConnId → Request → Option (HandlerResult Bytes)) :
    ∃ bs t, Works step (fun s => s.Work sockets returns C) s bs t ∧ (t.minted.length < 2 ^ 128 →
      ∀ c ∈ C, (t.sessions c).Settled (returns c) ∧ (t.sessions c).client.events = t.expected c) := by
  obtain ⟨bs, t, hworks, hdrained⟩ := ((running_of_run hC hstays h).progress sockets returns).exists_works
  exact ⟨bs, t, hworks, fun hids c hc =>
    ((hdrained hids).settled c hc).resolve_right (Session.not_deadlocked (hsockets c hc) _)⟩

/-- An operation of connection 0's handler, an event and a call of client 1 are on their way. The peer of connection 2
has made it do something and given it up. -/
def standingRun : List SystemAct :=
  [.session 0 (.conn (.handlerOp none (.subscribe ⟨[116], true⟩))), .emit none ⟨⟨[116], true⟩, [1]⟩,
    .session 1 (.client (.call [1])), .session 2 (.conn (.peerSend (.binary (some ⟨0, [9], 0⟩)))), .session 2 .abort]

theorem drains_standingRun :
    ∃ s, run step (init counterState.toStateStruct fun c => decide (c < 2)) standingRun = some s ∧
      Progress step (fun s => s.Work (fun _ => Session.oneRoom) (fun _ _ => some (.ok [20])) {0, 1})
        (fun _ a => a.stays {0, 1} = true) (SystemAct.brings {0, 1})
        (fun s => s.minted.length < 2 ^ 128 →
          s.Drained (fun _ => Session.oneRoom) (fun _ _ => some (.ok [20])) {0, 1}) (s.work {0, 1}) s := by
  have hrun : (run step (init counterState.toStateStruct fun c => decide (c < 2)) standingRun).isSome = true := rfl
  obtain ⟨s, hs⟩ := Option.isSome_iff_exists.mp hrun
  exact ⟨s, hs, drains_of_run (by decide) (by decide) hs _ _⟩

end System

end HardLight
