import HardLight.System.Delivery
import HardLight.System.Projection
import HardLight.Lib.Broadcast

/-!
# From `emit` to the application

The whole way of an event: emitted by the application of the server or a handler, routed by the event switch, sent
by the connection loop, put into the client's `broadcast` channel and got by the receivers that the application of
the client has from `subscribe`.

* `emissions` : the events emitted in a run, as long as the switch is there;
* `Session.Hears`, `step_hears` : a client has put into its channel what it has read;
* `Audience` : the system with the receivers of every application;
* `Heard`, `heard_of_run` : there is one order of all events, in which every application gets those of its topics;
  each of its receivers has a complete account of them from where it was made to where it is, and misses some only when
  it is further behind than the channel reaches.
-/

namespace HardLight
open Lib

namespace SystemAct

/-- The events emitted, until the task of the switch is dropped. -/
def emissions : List SystemAct → List Event
  | [] => []
  | .emit _ event :: as => event :: emissions as
  | .stopSwitch :: _ => []
  | _ :: as => emissions as

/-- The event emitted by an action. -/
def emits : SystemAct → List Event
  | emit _ event => [event]
  | _ => []

theorem emissions_concat (as : List SystemAct) (a : SystemAct) :
    (SystemAct.stopSwitch ∈ as → emissions (as ++ [a]) = emissions as) ∧
      (SystemAct.stopSwitch ∉ as → emissions (as ++ [a]) = emissions as ++ a.emits) := by
  induction as with
  | nil =>
    refine ⟨(fun h => by cases h), fun _ => ?_⟩
    cases a <;> rfl
  | cons b as ih =>
    cases b with
    | emit place event =>
      simpa only [emissions, List.cons_append, List.mem_cons, reduceCtorEq, false_or, List.cons.injEq,
        true_and] using ih
    | stopSwitch => exact ⟨fun _ => rfl, fun h => absurd List.mem_cons_self h⟩
    | _ => simpa only [emissions, List.cons_append, List.mem_cons, reduceCtorEq, false_or] using ih

end SystemAct

namespace ClientLoop
variable {S : StateStruct}

theorem Step.events {c c' : ClientLoop S} {out : Option Request} (h : Step c out c') : c'.events = c.events := by
  cases h <;> rfl

theorem onServerMessage_events {c c' : ClientLoop S} {msg : Option ServerMessage}
    (h : c.onServerMessage msg = some c') : c'.events = c.events ++ (msg.bind ServerMessage.event?).toList := by
  unfold onServerMessage at h
  split at h
  next hphase =>
    split at h
    next => cases h; exact (List.append_nil _).symm
    next r =>
      split at h
      · cases h; exact (List.append_nil _).symm
      · cases h; exact (List.append_nil _).symm
    next changes => cases h; exact (List.append_nil _).symm
    next topic payload => cases h; rfl
  next => cases h

end ClientLoop

namespace Conn

theorem step_wsRead {k k' : Conn} {a : ConnAct} (ha : a ≠ .peerRead) (h : k.step a = some k') :
    k'.wsRead = k.wsRead := by
  cases step_cases h with
  | read msg rest hq => exact absurd rfl ha
  | _ => rfl

theorem step_peerRead {k k' : Conn} {msg : ServerMessage} {rest : List ServerMessage} (hq : k.wsOut = msg :: rest)
    (h : k.step .peerRead = some k') : k'.wsRead = k.wsRead ++ [msg] := by
  cases step_cases h with
  | read msg' rest' hq' =>
    rw [hq] at hq'
    cases hq'
    rfl

end Conn

namespace Session
variable {S : StateStruct}

/-- The client has put into its channel the events it has read. -/
def Hears (s : Session S) : Prop := s.client.events = s.conn.wsRead.filterMap ServerMessage.event?

theorem step_hears {s s' : Session S} {a : SessionAct} (hship : s.shipped = true) (hinv : Hears s)
    (ha : a ≠ .receive false) (h : s.step a = some s') : Hears s' := by
  cases a with
  | client a =>
    obtain ⟨out, hc, -, hk⟩ := step_client h
    rw [Hears, (ClientLoop.step_cases hc).events]
    cases out with
    | none => rw [hk]; exact hinv
    | some r => rw [Conn.step_wsRead (by rintro ⟨⟩) hk]; exact hinv
  | receive decoded =>
    obtain ⟨msg, rest, hq, -, hc, hk⟩ := step_receive h
    cases decoded with
    | false => exact absurd rfl ha
    | true =>
      rw [Hears, ClientLoop.onServerMessage_events hc, Conn.step_peerRead hq hk, List.filterMap_append, ← hinv]
      cases msg <;> rfl
  | conn a =>
    obtain ⟨hc, -, hno, hk⟩ := step_conn h
    have hne : a ≠ .peerRead := by
      rintro rfl
      cases hno hship
    rw [Hears, hc, Conn.step_wsRead hne hk]
    exact hinv
  | abort => cases h; exact hinv

theorem step_events_prefix {s s' : Session S} {a : SessionAct} (h : s.step a = some s') :
    s.client.events <+: s'.client.events := by
  cases a with
  | client a =>
    obtain ⟨out, hc, -, -⟩ := step_client h
    rw [(ClientLoop.step_cases hc).events]
  | receive decoded =>
    obtain ⟨msg, rest, -, -, hc, -⟩ := step_receive h
    rw [ClientLoop.onServerMessage_events hc]
    exact List.prefix_append _ _
  | conn a => rw [(step_conn h).1]
  | abort => cases h; exact List.prefix_refl _

end Session

namespace System
variable {S : StateStruct}

/-- The switch has taken the events emitted, or has them in its queue, in order. -/
def Takes (s : System S) (as : List SystemAct) : Prop :=
  (s.switchAlive = true ↔ SystemAct.stopSwitch ∉ as) ∧
    s.taken.map Taken.event ++ s.newEventRx.map Emission.event = SystemAct.emissions as

theorem step_takes {s s' : System S} {as : List SystemAct} {a : SystemAct} (hinv : s.Takes as)
    (h : Step s a s') : s'.Takes (as ++ [a]) := by
  obtain ⟨halive, htaken⟩ := hinv
  -- a step that neither emits nor stops the switch
  have hsame : a ≠ .stopSwitch → a.emits = [] → s'.switchAlive = s.switchAlive →
      s'.taken.map Taken.event ++ s'.newEventRx.map Emission.event =
        s.taken.map Taken.event ++ s.newEventRx.map Emission.event → s'.Takes (as ++ [a]) := by
    intro hne hemits hsw hline
    refine ⟨?_, ?_⟩
    · rw [hsw, halive, List.mem_append, List.mem_singleton, not_or]
      exact ⟨fun hno => ⟨hno, Ne.symm hne⟩, fun hno => hno.1⟩
    · rw [hline, htaken]
      by_cases hstop : SystemAct.stopSwitch ∈ as
      · exact ((SystemAct.emissions_concat as a).1 hstop).symm
      · rw [(SystemAct.emissions_concat as a).2 hstop, hemits, List.append_nil]
  cases h with
  | emitted place origin event horigin =>
    obtain ⟨-, -, -, -, hsw, htk⟩ := emit_frame s origin event
    refine ⟨?_, ?_⟩
    · rw [hsw, halive]
      simp
    · rw [htk, emit]
      by_cases hstop : SystemAct.stopSwitch ∈ as
      · have hdead : s.switchAlive = false := by
          rw [← Bool.not_eq_true, halive]
          exact fun hno => hno hstop
        rw [(SystemAct.emissions_concat as _).1 hstop, hdead, ← htaken]
        rfl
      · rw [(SystemAct.emissions_concat as _).2 hstop, halive.mpr hstop, ← htaken]
        simp [SystemAct.emits]
  | stopped =>
    refine ⟨by simp, ?_⟩
    have hnone : SystemAct.emissions as ++ SystemAct.emits .stopSwitch = SystemAct.emissions as :=
      List.append_nil _
    by_cases hstop : SystemAct.stopSwitch ∈ as
    · exact htaken.trans ((SystemAct.emissions_concat as _).1 hstop).symm
    · exact htaken.trans (hnone.symm.trans ((SystemAct.emissions_concat as _).2 hstop).symm)
  | event emission rest halive' harm hq =>
    refine hsame (by rintro ⟨⟩) rfl rfl ?_
    rw [hq]
    simp
  | session c a session hres h => exact hsame (by rintro ⟨⟩) rfl rfl rfl
  | kept c id k hpolls h => exact hsame (by rintro ⟨⟩) rfl rfl rfl
  | subscribed c id topic k hpolls h hfresh => exact hsame (by rintro ⟨⟩) rfl rfl rfl
  | unsubscribed c id topic old k hpolls h => exact hsame (by rintro ⟨⟩) rfl rfl rfl
  | polled arm => exact hsame (by rintro ⟨⟩) rfl rfl rfl
  | notification c n rest halive' hq => exact hsame (by rintro ⟨⟩) rfl rfl rfl

theorem takes_of_run {shipped : ConnId → Bool} {as : List SystemAct} {s : System S}
    (h : run step (init S shipped) as = some s) : s.Takes as :=
  run_history (I := fun as s => Takes s as) ⟨by simp [init], rfl⟩
    (fun _ _ _ _ _ hinv hs => step_takes hinv (step_cases hs)) h

theorem step_hears {s s' : System S} {a : SystemAct} {c : ConnId} (hship : (s.sessions c).shipped = true)
    (hinv : (s.sessions c).Hears) (ha : a ≠ .session c (.receive false)) (h : Step s a s') :
    (s'.sessions c).Hears := by
  rcases h.session_act c with ⟨b, rfl, hb⟩ | ⟨-, heq | ⟨b, hres, hb⟩⟩
  · exact Session.step_hears hship hinv (fun he => ha (by rw [he])) hb
  · rw [heq]
    exact hinv
  · refine Session.step_hears hship hinv ?_ hb
    rintro rfl
    cases hres

theorem step_events_prefix {s s' : System S} {a : SystemAct} (h : Step s a s') (c : ConnId) :
    (s.sessions c).client.events <+: (s'.sessions c).client.events := by
  rcases h.session_step c with heq | ⟨b, -, hb⟩
  · rw [heq]
  · exact Session.step_events_prefix hb

end System

/-! ## The receivers -/

/-- The capacity of `broadcast::channel(32)`. -/
def eventCapacity : Nat := 32

structure Audience (S : StateStruct) where
  system : System S
  /-- The receivers that the application of client `c` has from `subscribe`. -/
  receivers : ConnId → List (Receiver Event)

inductive AudienceAct
  | system (a : SystemAct)
  | subscribe (c : ConnId)
  /-- Receiver number `n` of the application of client `c` gets its next item. -/
  | recv (c : ConnId) (n : Nat)

def AudienceAct.system? : AudienceAct → Option SystemAct
  | system a => some a
  | _ => none

namespace Audience
variable {S : StateStruct}

def init (S : StateStruct) (shipped : ConnId → Bool) : Audience S where
  system := .init S shipped
  receivers _ := []

/-- The events that client `c` has put into its channel. -/
def events (u : Audience S) (c : ConnId) : List Event := (u.system.sessions c).client.events

def step (u : Audience S) : AudienceAct → Option (Audience S)
  | .system a => (u.system.step a).map fun system => { u with system := system }
  | .subscribe c => some { u with
      receivers := Function.update u.receivers c (u.receivers c ++ [.subscribe (u.events c)]) }
  | .recv c n =>
    ((u.receivers c)[n]?).bind fun r => (r.recv eventCapacity (u.events c)).map fun r => { u with
      receivers := Function.update u.receivers c ((u.receivers c).set n r) }

/-- Every receiver follows the channel of its client. -/
def Following (u : Audience S) : Prop := ∀ c, ∀ r ∈ u.receivers c, r.Follows eventCapacity (u.events c)

theorem step_following {u u' : Audience S} {a : AudienceAct} (hinv : u.Following) (h : u.step a = some u') :
    u'.Following := by
  intro c r hr
  cases a with
  | system a =>
    obtain ⟨system, hs, rfl⟩ := Option.map_eq_some_iff.mp h
    exact (hinv c r hr).send (System.step_events_prefix (System.step_cases hs) c)
  | subscribe c' =>
    cases h
    dsimp only at hr
    by_cases hc : c = c'
    · subst hc
      rw [Function.update_self, List.mem_append, List.mem_singleton] at hr
      rcases hr with hr | rfl
      · exact hinv c r hr
      · exact Receiver.follows_subscribe _
    · rw [Function.update_of_ne hc] at hr
      exact hinv c r hr
  | recv c' n =>
    obtain ⟨r', hr', h⟩ := Option.bind_eq_some_iff.mp h
    obtain ⟨r'', hrecv, rfl⟩ := Option.map_eq_some_iff.mp h
    dsimp only at hr
    by_cases hc : c = c'
    · subst hc
      rw [Function.update_self] at hr
      rcases List.mem_or_eq_of_mem_set hr with hr | rfl
      · exact hinv c r hr
      · exact (hinv c r' (List.mem_of_getElem? hr')).recv hrecv
    · rw [Function.update_of_ne hc] at hr
      exact hinv c r hr

theorem system_of_run {u v : Audience S} {as : List AudienceAct} (h : run step u as = some v) :
    run System.step u.system (as.filterMap AudienceAct.system?) = some v.system := by
  induction as generalizing u with
  | nil => cases h; rfl
  | cons a as ih =>
    obtain ⟨u', hu, hrest⟩ := run_cons_eq_some.mp h
    have htail := ih hrest
    cases a with
    | system a =>
      obtain ⟨system, hs, rfl⟩ := Option.map_eq_some_iff.mp hu
      exact run_cons_eq_some.mpr ⟨system, hs, htail⟩
    | subscribe c => cases hu; exact htail
    | recv c n =>
      obtain ⟨r, -, hu⟩ := Option.bind_eq_some_iff.mp hu
      obtain ⟨r', -, rfl⟩ := Option.map_eq_some_iff.mp hu
      exact htail

/-! ## The property -/

/-- **One order of all events.** -/
structure Heard (u : Audience S) (emitted : List Event) (c : ConnId) : Prop where
  /-- The switch takes the events in the order in which they were emitted; -/
  taken : u.system.taken.map Taken.event <+: emitted
  /-- the application of client `c` gets those of its topics, in that order; -/
  received : u.events c <+: u.system.expected c
  /-- and every receiver has an account of them without a gap, from where it was made to where it is. Those that it has
  missed were followed by as many as the channel keeps, before it was told. -/
  accounted : ∀ r ∈ u.receivers c, Fills eventCapacity (u.events c) r.items r.start r.next
  /-- A receiver that is no further behind than that gets the next event, -/
  next : ∀ r ∈ u.receivers c, ∀ e, (u.events c)[r.next]? = some e → (u.events c).length ≤ r.next + eventCapacity →
    r.recv eventCapacity (u.events c) = some { r with next := r.next + 1, items := r.items ++ [.value e] }
  /-- and one that is further behind is told how many it has missed, and goes on with the oldest kept. -/
  behind : ∀ r ∈ u.receivers c, r.next + eventCapacity < (u.events c).length →
    r.recv eventCapacity (u.events c) = some { r with
      next := (u.events c).length - eventCapacity
      items := r.items ++ [.lagged ((u.events c).length - eventCapacity - r.next)] }
  /-- When nothing is on its way, nothing is missing. -/
  complete : u.system.newEventRx = [] → (u.system.conn c).eventsRx = [] → (u.system.conn c).outbox = [] →
    u.system.taken.map Taken.event = emitted ∧ u.events c = u.system.expected c

namespace Heard
variable {u : Audience S} {emitted : List Event} {c : ConnId} {r : Receiver Event}

/-- What a receiver hears was emitted, and is heard in that order, none of it twice. -/
theorem in_order (h : u.Heard emitted c) (hr : r ∈ u.receivers c) :
    (r.items.filterMap Item.value?).Sublist emitted := by
  have hexpected : (u.system.expected c).Sublist (u.system.taken.map Taken.event) := List.filter_sublist.map _
  have hextract : ((u.events c).extract r.start r.next).Sublist (u.events c) := by
    rw [List.extract_eq_take_drop]
    exact (List.take_sublist _ _).trans (List.drop_sublist _ _)
  have hevents := ((h.accounted r hr).values_sublist.trans hextract).trans h.received.sublist
  exact (hevents.trans hexpected).trans h.taken.sublist

/-- A receiver that did not fall behind has heard everything since it was made. -/
theorem nothing_missed (h : u.Heard emitted c) (hr : r ∈ u.receivers c) (hall : ∀ missed, .lagged missed ∉ r.items) :
    r.items.filterMap Item.value? = (u.system.expected c).extract r.start r.next :=
  ((h.accounted r hr).send h.received).values_eq hall

/-- A receiver that has missed events has been further behind than the channel reaches. -/
theorem fell_behind (h : u.Heard emitted c) (hr : r ∈ u.receivers c) {missed : Nat} (hin : .lagged missed ∈ r.items) :
    0 < missed ∧ r.start + missed + eventCapacity ≤ (u.events c).length :=
  (h.accounted r hr).add_le_of_lagged hin

end Heard

/-- **Every application hears the events of its topics in the order in which they were emitted**, over a connection
that is there and loses nothing, whatever happens at the others. -/
theorem heard_of_run {shipped : ConnId → Bool} {as : List AudienceAct} {u : Audience S} {c : ConnId}
    (h : run step (init S shipped) as = some u) (hc : shipped c = true) (hex : (u.system.conn c).exited = false)
    (hsent : .system (.session c (.conn (.sendDone false))) ∉ as)
    (hread : .system (.session c (.receive false)) ∉ as) :
    u.Heard (SystemAct.emissions (as.filterMap AudienceAct.system?)) c := by
  have hrun := system_of_run h
  have hfollows : u.Following :=
    run_invariant (P := fun _ => True) (fun _ _ _ _ hinv hs => step_following hinv hs) (fun _ _ => trivial)
      (fun c r hr => by cases hr) h
  have hmem : ∀ a, .system a ∉ as → a ∉ as.filterMap AudienceAct.system? := by
    intro a hno hin
    obtain ⟨b, hb, heq⟩ := List.mem_filterMap.mp hin
    cases b with
    | system b => cases heq; exact hno hb
    | _ => cases heq
  obtain ⟨-, htaken⟩ := System.takes_of_run hrun
  have hinit : ((System.init S shipped).sessions c).Hears := rfl
  have hinv : (u.system.sessions c).shipped = true ∧ (u.system.sessions c).Hears := by
    refine run_invariant (P := fun a => a ≠ SystemAct.session c (.receive false))
      (I := fun s : System S => (s.sessions c).shipped = true ∧ (s.sessions c).Hears) ?_
      (fun a ha he => hmem _ hread (he ▸ ha)) ⟨hc, hinit⟩ hrun
    rintro s a s' hne ⟨hship, hhears⟩ hs
    exact ⟨(System.step_shipped hs c).trans hship, System.step_hears hship hhears hne (System.step_cases hs)⟩
  have hline : (u.system.conn c).eventLine = u.system.expected c := by
    have hdel : (System.Owned u.system ∧ ∀ c, System.Views u.system c) ∧ System.Delivers u.system c := by
      refine run_invariant (P := fun a => a ≠ SystemAct.session c (.conn (.sendDone false)))
        (I := fun s : System S => (System.Owned s ∧ ∀ c, System.Views s c) ∧ System.Delivers s c) ?_
        (fun a ha he => hmem _ hsent (he ▸ ha)) ⟨System.views_init shipped, fun _ => rfl⟩ hrun
      rintro s a s' hne ⟨hviews, hdel⟩ hs
      have hcases := System.step_cases hs
      exact ⟨System.step_owned_views hviews hcases, System.step_delivers (hviews.2 c) hdel hne hcases⟩
    exact hdel.2 hex
  have hsplit : u.events c ++ ((u.system.conn c).outbox.filterMap ServerMessage.event? ++ (u.system.conn c).eventsRx) =
      u.system.expected c := by
    rw [← hline, events, hinv.2]
    simp [Conn.eventLine, TrafficView.eventLine, System.conn]
  have hreceived : u.events c <+: u.system.expected c := ⟨_, hsplit⟩
  refine ⟨⟨_, htaken⟩, hreceived, fun r hr => (hfollows c r hr).fills, fun r _ e he hle => Receiver.recv_of_le hle he,
    fun r _ hlt => Receiver.recv_of_lt hlt, fun hnew hrx hout => ?_⟩
  rw [hnew, List.map_nil, List.append_nil] at htaken
  rw [hrx, hout, List.filterMap_nil, List.append_nil, List.append_nil] at hsplit
  exact ⟨htaken, hsplit⟩

/-- The application of the client subscribes, and gets the event that the connection is subscribed to. -/
def audienceRun : List AudienceAct :=
  .subscribe 0 :: System.eventRun.map .system ++ [.recv 0 0]

theorem heard_audienceRun : ∃ u, run step (init counterState.toStateStruct fun _ => true) audienceRun = some u ∧
    (u.receivers 0).map (fun r => r.items.filterMap Item.value?) = [[⟨⟨[116], true⟩, [2]⟩]] ∧
    u.Heard [⟨⟨[117], true⟩, [1]⟩, ⟨⟨[116], true⟩, [2]⟩] 0 := by
  have hrun : (run step (init counterState.toStateStruct fun _ => true) audienceRun).map (fun u =>
      ((u.system.conn 0).exited, (u.receivers 0).map fun r => r.items.filterMap Item.value?)) =
        some (false, [[⟨⟨[116], true⟩, [2]⟩]]) := by decide
  obtain ⟨u, hu, heq⟩ := Option.map_eq_some_iff.mp hrun
  obtain ⟨hex, hitems⟩ := Prod.mk.inj heq
  exact ⟨u, hu, hitems, heard_of_run hu rfl hex (by simp [audienceRun, System.eventRun])
    (by simp [audienceRun, System.eventRun])⟩

end Audience

end HardLight
