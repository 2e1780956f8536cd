import HardLight.Session.Leak
import HardLight.Session.Work
import HardLight.Lib.Progress

/-!
# Answers are not held up

The work of the two loops of a session over a connection that stays up and loses nothing.

* `Up`, `step_up` : the connection is up and has lost nothing;
* `Settled` : nothing is queued or on the wire, and every call is answered, or its handler has panicked or never
  returns;
* `Deadlocked` : both loops wait for their sends, and neither reads; `step_deadlocked` : no work ends it;
* `settled_of_end` : the states in which no work is left; `rests_of_end` : what they are for the server alone;
* `progress_of_run` : in every run the work that is left comes to an end, and it ends in such a state. A handler that
  never returns holds up no other call;
* `drained_of_run` : if all handlers return and all sends complete, work leads to a state in which everything is
  answered.
-/

namespace HardLight
open Lib

namespace SessionAct

/-- The connection stays up, the client keeps running, and the message of the action, if there is one, gets
through. -/
def stays : SessionAct → Bool
  | client .shutdown => false
  | client _ => true
  | receive decoded => decoded
  | conn .peerEnd => false
  | conn a => a.succeeds
  | abort => false

end SessionAct

/-- The arm takes what is ready. -/
def Arm.takes : Arm → ConnAct
  | .rpc => .response
  | .state => .stateChange
  | .event => .event
  | .subscription => .subscription (Vector.replicate 16 0) true
  | .client => .clientMessage true

namespace Conn

theorem step_wsEnded {k k' : Conn} {a : ConnAct} (ha : a ≠ .peerEnd) (h : k.step a = some k') :
    k'.wsEnded = k.wsEnded := by
  cases step_cases h with
  | ended => exact absurd rfl ha
  | _ => rfl

theorem peerSend_enabled {k : Conn} (h : k.wsEnded = false) (item : WsItem) :
    ∃ k', k.step (.peerSend item) = some k' := by
  refine ⟨{ k with wsIn := k.wsIn ++ [item] }, ?_⟩
  simp only [step, h, Bool.false_eq_true, if_false]

/-- While a send lasts, handlers are all that goes on. -/
theorem step_blocked {k k' : Conn} {a : ConnAct} (hsending : k.sending ≠ none) (ha : a.moves = true ∨ a = .pollNext)
    (hsend : ∀ ok, a ≠ .sendDone ok) (h : k.step a = some k') :
    k'.sending = k.sending ∧ k'.wsIn = k.wsIn ∧ k'.wsOut = k.wsOut := by
  have hpolls : ∀ arm, k.polls arm ≠ true := fun arm harm => hsending (polls_iff.mp harm).2.1
  cases step_cases h with
  | passedOver harm hready => exact absurd harm (hpolls _)
  | responded r rest harm hq => exact absurd harm (hpolls _)
  | stateChanged changes rest harm hq => exact absurd harm (hpolls _)
  | newEvent e rest harm hq => exact absurd harm (hpolls _)
  | notified id alive o rest subscriptions harm hq => exact absurd harm (hpolls _)
  | noRequest decoded item rest harm hq hitem => exact absurd harm (hpolls _)
  | undecoded r rest harm hq => exact absurd harm (hpolls _)
  | ignored r rest harm hq hbusy => exact absurd harm (hpolls _)
  | accepted r rest harm hq hfree => exact absurd harm (hpolls _)
  | noArmLeft harm hall => exact absurd harm (hpolls _)
  | sent msg hmsg hrun => exact absurd rfl (hsend true)
  | lost msg hmsg hrun => exact absurd rfl (hsend false)
  | arrived item hopen => rcases ha with ha | ha <;> cases ha
  | read msg rest hq => rcases ha with ha | ha <;> cases ha
  | _ => exact ⟨rfl, rfl, rfl⟩

theorem takes_enabled {k : Conn} (hpolls : k.polls k.arm = true) (hready : k.ready k.arm = true) :
    ∃ k', k.step k.arm.takes = some k' := by
  rw [← Option.isSome_iff_exists]
  cases harm : k.arm with
  | rpc =>
    rw [harm] at hpolls hready
    simp only [Arm.takes, step, hpolls, if_true, onResponse]
    cases hq : k.rpcRx with
    | nil => simp [ready, hq] at hready
    | cons r rest => rfl
  | state =>
    rw [harm] at hpolls hready
    simp only [Arm.takes, step, hpolls, if_true, onStateChange]
    cases hq : k.stateChangeRx with
    | nil => simp [ready, hq] at hready
    | cons changes rest => rfl
  | event =>
    rw [harm] at hpolls hready
    simp only [Arm.takes, step, hpolls, if_true, onEvent]
    cases hq : k.eventsRx with
    | nil => simp [ready, hq] at hready
    | cons e rest => rfl
  | subscription =>
    rw [harm] at hpolls hready
    simp only [Arm.takes, step, hpolls, if_true, onSubscription]
    cases hq : k.proxyRx with
    | nil => simp [ready, hq] at hready
    | cons o rest =>
      dsimp only
      split <;> split <;> rfl
  | client =>
    rw [harm] at hpolls hready
    simp only [Arm.takes, step, hpolls, if_true, onClientMessage]
    cases hq : k.wsIn with
    | nil => simp [ready, hq] at hready
    | cons item rest =>
      dsimp only
      split <;> (try split) <;> rfl

end Conn

namespace ClientLoop
variable {S : StateStruct}

theorem step_running {c c' : ClientLoop S} {a : ClientAct} {out : Option Request} (ha : a ≠ .shutdown)
    (hinv : c.phase ≠ .exited) (h : c.step a = some (c', out)) : c'.phase ≠ .exited := by
  intro hexited
  cases a with
  | shutdown => exact ha rfl
  | call internal =>
    obtain ⟨c'', hcall, heq⟩ := Option.map_eq_some_iff.mp h
    obtain ⟨rfl, rfl⟩ := Prod.mk.inj heq
    rw [call_cases hcall] at hexited
    exact hinv hexited
  | takeRequest =>
    obtain ⟨c'', htake, heq⟩ := Option.map_eq_some_iff.mp h
    obtain ⟨rfl, rfl⟩ := Prod.mk.inj heq
    obtain ⟨internal, call, rest, -, -, ⟨slot, -, rfl⟩ | ⟨-, rfl⟩⟩ := takeRequest_cases htake <;> cases hexited
  | send outcome =>
    obtain ⟨slot, call, internal, -, ⟨-, heq⟩ | ⟨error, -, heq⟩⟩ := onSend_cases h <;>
      (obtain ⟨rfl, rfl⟩ := Prod.mk.inj heq; cases hexited)
  | fillSlot =>
    obtain ⟨c'', hfill, heq⟩ := Option.map_eq_some_iff.mp h
    obtain ⟨rfl, rfl⟩ := Prod.mk.inj heq
    obtain ⟨slot, call, -, rfl⟩ := fillSlot_cases hfill
    cases hexited

theorem Receives.running {c c' : ClientLoop S} {r : Option Response} (h : Receives c r c') :
    c'.phase ≠ .exited := by
  intro hexited
  cases h with
  | completed r call hphase hslot => cases hexited
  | unknown r hphase hslot => rw [hphase] at hexited; cases hexited
  | other state events hphase => rw [hphase] at hexited; cases hexited

theorem onServerMessage_select {c c' : ClientLoop S} {msg : Option ServerMessage}
    (h : c.onServerMessage msg = some c') : c.phase = .select := by
  unfold onServerMessage at h
  split at h
  next hselect => exact hselect
  next => cases h

theorem takeRequest_enabled {c : ClientLoop S} (hselect : c.phase = .select) (hne : c.rpcRequestRx ≠ []) :
    ∃ c', c.takeRequest = some c' := by
  obtain ⟨⟨internal, call⟩, rest, hq⟩ := List.exists_cons_of_ne_nil hne
  rw [← Option.isSome_iff_exists]
  simp only [takeRequest, hselect, hq]
  split <;> rfl

theorem onServerMessage_enabled {c : ClientLoop S} (hselect : c.phase = .select) (msg : Option ServerMessage) :
    ∃ c', c.onServerMessage msg = some c' := by
  rw [← Option.isSome_iff_exists]
  simp only [onServerMessage, hselect]
  split <;> (try split) <;> rfl

end ClientLoop

namespace RpcView

theorem Step.mem_crashed {v v' : RpcView} {l : RpcLabel} (h : Step v l v') {r : Request} (hr : r ∈ v'.crashed) :
    r ∈ v.crashed ∨ r ∈ v.tasks := by
  cases h with
  | panicked q tasks hperm =>
    rcases List.mem_append.mp hr with hr | hr
    · exact Or.inl hr
    · obtain rfl := List.mem_singleton.mp hr
      exact Or.inr (hperm.mem_iff.mpr List.mem_cons_self)
  | _ => exact Or.inl hr

end RpcView

namespace Session
variable {S : StateStruct}

/-! ## The connection stays up -/

/-- The connection is up, its client is running, and no message has been lost. -/
structure Up (s : Session S) : Prop where
  shipped : s.shipped = true
  alive : s.conn.Alive
  opened : s.conn.wsEnded = false
  running : s.client.phase ≠ .exited
  balanced : Balanced s
  /-- The call of a handler that panicked stays under its slot. -/
  crashed : ∀ r ∈ s.conn.crashed, s.client.outstanding (slotOf r.id) = some r.call

theorem step_crashed_owner {s s' : Session S} {a : SessionAct} (htable : Table s)
    (hinv : ∀ r ∈ s.conn.crashed, s.client.outstanding (slotOf r.id) = some r.call) (h : RpcStep s s' a) :
    ∀ r ∈ s'.conn.crashed, s'.client.outstanding (slotOf r.id) = some r.call := by
  have hold : ∀ l, RpcView.Step s.conn.rpcView l s'.conn.rpcView → ∀ r ∈ s'.conn.crashed,
      s.client.outstanding (slotOf r.id) = some r.call := by
    intro l hview r hr
    rcases hview.mem_crashed hr with hr | hr
    · exact hinv r hr
    · exact htable.owner (RpcView.requestKey r) (by
        simp only [RpcView.keys, List.mem_append, List.mem_map]
        exact Or.inl (Or.inl (Or.inr ⟨r, hr, rfl⟩)))
  intro r hr
  cases h with
  | server a hclient hserver hview => rw [hclient]; exact hold _ hview r hr
  | aborted hclient hview => rw [hclient]; exact hold .silent (hview ▸ .silent _) r hr
  | client a hclient hview => rw [outstanding_client hclient]; exact hold .silent (hview ▸ .silent _) r hr
  | message decoded hclient hview => rw [outstanding_message hclient]; exact hold .silent (hview ▸ .silent _) r hr
  | unreadable q hclient hview => rw [outstanding_message hclient]; exact hold _ hview r hr
  | request a q hclient hview =>
    have hcall := hold _ hview r hr
    have hslot : slotOf r.id ≠ slotOf q.id := by
      intro he
      rw [he, hclient.outstanding_free htable.sending_free] at hcall
      cases hcall
    rw [hclient.outstanding, ClientLoop.sentUnder, if_neg hslot, Option.none_or, hcall]
  | response q hclient hview =>
    have hsame : s'.conn.crashed = s.conn.crashed := hview.crashed_eq fun r' he => by cases he
    have hcrashed : r ∈ s.conn.crashed := hsame ▸ hr
    have hslot : slotOf q.id ≠ slotOf r.id := by
      -- the response and the handler that panicked would both be live under the id
      intro he
      have hid : q.id = r.id := slotOf_injective he
      have hle := htable.carried_le r.id
      have hone := s.held_le_one r.id
      have hflight := htable.in_flight r.id
      have hpos : 0 < (s.conn.rpcView.crashed.map Request.id).count r.id :=
        List.count_pos_iff.mpr (List.mem_map_of_mem hcrashed)
      have hreply : 0 < (s.conn.rpcView.replies.map Response.id).count r.id :=
        List.count_pos_iff.mpr (hid ▸ List.mem_map_of_mem hview.read_mem)
      rw [RpcView.carried] at hle
      omega
    rw [hclient.outstanding, Option.map_some, if_neg fun he => hslot (Option.some.inj he)]
    exact hinv r hcrashed

theorem up_init (S : StateStruct) : Up (init S true) where
  shipped := rfl
  alive := ⟨rfl, rfl⟩
  opened := rfl
  running h := by cases h
  balanced := ⟨table_init true, fun _ => rfl, fun call hlt => by cases hlt⟩
  crashed r hr := by cases hr

theorem step_up {s s' : Session S} {a : SessionAct} (hinv : Up s) (ha : a.stays = true) (h : s.step a = some s') :
    Up s' := by
  have hsucceeds : a.succeeds = true := by
    cases a with
    | conn a => cases a <;> first | rfl | exact ha
    | receive decoded => exact ha
    | _ => rfl
  have habort : a ≠ .abort := by
    rintro rfl
    cases ha
  refine ⟨(step_shipped h).trans hinv.shipped, step_alive hinv.alive habort h, ?_, ?_,
    step_balanced hinv.shipped hinv.balanced hsucceeds (step_rpcStep h),
    step_crashed_owner hinv.balanced.table hinv.crashed (step_rpcStep h)⟩
  · cases a with
    | client a =>
      obtain ⟨out, -, -, hk⟩ := step_client h
      cases out with
      | none => rw [hk]; exact hinv.opened
      | some r => rw [Conn.step_wsEnded (by rintro ⟨⟩) hk]; exact hinv.opened
    | receive decoded =>
      obtain ⟨msg, rest, -, -, -, hk⟩ := step_receive h
      rw [Conn.step_wsEnded (by rintro ⟨⟩) hk]
      exact hinv.opened
    | conn a =>
      rw [Conn.step_wsEnded (by rintro rfl; cases ha) (step_conn h).2.2.2]
      exact hinv.opened
    | abort => cases ha
  · cases a with
    | client a =>
      obtain ⟨out, hc, -, -⟩ := step_client h
      exact ClientLoop.step_running (by rintro rfl; cases ha) hinv.running hc
    | receive decoded =>
      obtain ⟨msg, rest, -, -, hc, -⟩ := step_receive h
      exact (ClientLoop.onServerMessage_cases hc).running
    | conn a => rw [(step_conn h).1]; exact hinv.running
    | abort => cases ha

section Work
variable {socket : Socket} {returns : Request → Option (HandlerResult Bytes)} {s : Session S} {a : SessionAct}

theorem Work.stays (h : s.Work socket returns a) : a.stays = true := by
  cases a with
  | client a => cases a <;> first | rfl | cases h
  | receive decoded => exact h
  | conn a => cases a <;> first | rfl | exact h | exact h.1 | cases h
  | abort => cases h

theorem Work.panics (h : s.Work socket returns a) : a.panics = false := by
  cases a with
  | conn a => cases a <;> first | rfl | cases h
  | _ => rfl

end Work

/-! ## Where work ends -/

/-- Nothing is queued or on the wire; what is not answered is with a handler that never returns or has panicked. -/
structure Settled (returns : Request → Option (HandlerResult Bytes)) (s : Session S) : Prop where
  select : s.client.phase = .select
  no_call : s.client.rpcRequestRx = []
  no_item : s.conn.wsIn = [] ∧ s.conn.wsOut = [] ∧ s.conn.sending = none
  no_message : ∀ arm, s.conn.ready arm = false
  never_returns : ∀ r ∈ s.conn.tasks, returns r = none
  answered : ∀ call < s.client.issued.length,
    call ∈ s.client.completions.map Prod.fst ∨ ∃ r ∈ s.conn.tasks ++ s.conn.crashed, r.call = call
  slots : ∀ slot, s.client.activeRpcCalls slot ≠ none → ∃ r ∈ s.conn.tasks ++ s.conn.crashed, slotOf r.id = slot

/-- Both loops wait for their sends, neither of which has room. -/
structure Deadlocked (socket : Socket) (s : Session S) : Prop where
  client : ∃ slot call internal, s.client.phase = .sending slot call internal
  server : s.conn.sending ≠ none
  up : socket.up s.conn.wsIn = false
  down : socket.down s.conn.wsOut = false

/-- One message has room in either direction. -/
def oneRoom : Socket where
  up items := items.isEmpty
  down messages := messages.isEmpty

/-- A request goes up, and its handler returns. -/
def answeredCall : List SessionAct :=
  [.client .takeRequest, .client (.send .sent), .client .fillSlot, .conn .pollNext, .conn .pollNext, .conn .pollNext,
    .conn .pollNext, .conn (.clientMessage true), .conn (.handlerReturns 0 (.ok [])), .conn .response]

/-- The client's loop takes one call after the other, and reads no response. -/
def crossedRun : List SessionAct :=
  List.replicate 4 (.client (.call [1])) ++ answeredCall ++ [.conn (.sendDone true)] ++ answeredCall ++
    [.client .takeRequest, .client (.send .sent), .client .fillSlot, .client .takeRequest]

example : ∃ s, run step (init counterState.toStateStruct true) crossedRun = some s ∧ s.Deadlocked oneRoom :=
  ⟨_, rfl, ⟨_, _, _, rfl⟩, Option.some_ne_none _, rfl, rfl⟩

/-- Where every send completes there is no deadlock. -/
theorem not_deadlocked {socket : Socket} (hsocket : socket.Completes) (s : Session S) : ¬ s.Deadlocked socket := by
  intro h
  have hup := h.up
  rw [hsocket.1] at hup
  cases hup

theorem step_conn_of {s : Session S} {a : ConnAct} {k : Conn} (ha : a.ofClient = false)
    (h : s.conn.step a = some k) : s.step (.conn a) = some { s with conn := k } := by
  rw [step, ha, Bool.and_false, if_neg Bool.false_ne_true, h, Option.map_some]

theorem receive_enabled {s : Session S} {msg : ServerMessage} {rest : List ServerMessage} (hship : s.shipped = true)
    (hselect : s.client.phase = .select) (hq : s.conn.wsOut = msg :: rest) :
    ∃ s', s.step (.receive true) = some s' := by
  obtain ⟨c, hc⟩ := ClientLoop.onServerMessage_enabled hselect (some msg)
  refine ⟨{ s with client := c, conn := { s.conn with wsOut := rest, wsRead := s.conn.wsRead ++ [msg] } }, ?_⟩
  simp only [step, hship, if_true, hq, hc, Conn.step, Option.map_some]

/-- **No work ends a deadlock.** -/
theorem step_deadlocked {socket : Socket} {returns : Request → Option (HandlerResult Bytes)} {s s' : Session S}
    {a : SessionAct} (hinv : s.Deadlocked socket) (hW : s.Work socket returns a) (h : s.step a = some s') :
    s'.Deadlocked socket := by
  obtain ⟨⟨slot, call, internal, hphase⟩, hsending, hup, hdown⟩ := hinv
  cases a with
  | client a =>
    obtain ⟨out, hc, -, -⟩ := step_client h
    cases a with
    | takeRequest =>
      obtain ⟨c, htake, -⟩ := Option.map_eq_some_iff.mp hc
      obtain ⟨-, -, -, hselect, -⟩ := ClientLoop.takeRequest_cases htake
      rw [hphase] at hselect
      cases hselect
    | send outcome =>
      rcases hW.2 with hroom | ⟨-, hnone⟩
      · rw [hup] at hroom
        cases hroom
      · exact absurd hnone hsending
    | fillSlot =>
      obtain ⟨c, hfill, -⟩ := Option.map_eq_some_iff.mp hc
      obtain ⟨slot', call', hsent, -⟩ := ClientLoop.fillSlot_cases hfill
      rw [hphase] at hsent
      cases hsent
    | call internal => cases hW
    | shutdown => cases hW
  | receive decoded =>
    obtain ⟨msg, rest, -, -, hc, -⟩ := step_receive h
    rw [ClientLoop.onServerMessage_select hc] at hphase
    cases hphase
  | conn a =>
    obtain ⟨hc, -, -, hk⟩ := step_conn h
    have hsame : s'.conn.sending = s.conn.sending ∧ s'.conn.wsIn = s.conn.wsIn ∧ s'.conn.wsOut = s.conn.wsOut := by
      refine Conn.step_blocked hsending ?_ ?_ hk
      · cases a <;> first | exact Or.inl rfl | exact Or.inr rfl | exact Or.inl hW.1 | cases hW
      · rintro ok rfl
        rcases hW.2 with hroom | ⟨-, hselect⟩
        · rw [hdown] at hroom
          cases hroom
        · rw [hphase] at hselect
          cases hselect
    obtain ⟨hsending', hin, hout⟩ := hsame
    exact ⟨⟨slot, call, internal, by rw [hc, hphase]⟩, hsending'.symm ▸ hsending, hin.symm ▸ hup, hout.symm ▸ hdown⟩
  | abort => cases hW

/-- The connection loop has nothing to take, or waits for a send that does not go through, and no handler returns. -/
structure Rests (socket : Socket) (returns : Request → Option (HandlerResult Bytes)) (s : Session S) : Prop where
  ready : s.conn.sending = none → ∀ arm, s.conn.ready arm = false
  blocked : s.conn.sending ≠ none → ¬ s.SendsDown socket
  never_returns : ∀ r ∈ s.conn.tasks, returns r = none

section End
variable {socket : Socket} {returns : Request → Option (HandlerResult Bytes)} {s : Session S}

/-- With no work left for the server, it rests, whatever its client does. -/
theorem rests_of_end (halive : s.conn.Alive)
    (hend : ∀ a s', s.Work socket returns (.conn a) → s.step (.conn a) ≠ some s') : Rests socket returns s := by
  refine ⟨fun hsending arm => ?_, fun hne hsends => ?_, fun r hr => ?_⟩
  · by_contra harm
    rw [Bool.not_eq_false] at harm
    have hpolls : s.conn.polls s.conn.arm = true := Conn.polls_iff.mpr ⟨halive.1, hsending, rfl⟩
    cases hnow : s.conn.ready s.conn.arm with
    | true =>
      obtain ⟨k, hk⟩ := Conn.takes_enabled hpolls hnow
      have hW : s.Work socket returns (.conn s.conn.arm.takes) := by
        cases s.conn.arm <;> trivial
      exact hend _ _ hW (step_conn_of (by cases s.conn.arm <;> rfl) hk)
    | false =>
      refine hend .pollNext _ ⟨arm, harm⟩ (step_conn_of (k := { s.conn with arm := s.conn.arm.next }) rfl ?_)
      simp only [Conn.step, hpolls, hnow, Bool.not_false, Bool.and_self, if_true]
  · obtain ⟨msg, hs⟩ := Option.ne_none_iff_exists'.mp hne
    have hstep : s.conn.step (.sendDone true) =
        some { s.conn with sending := none, wsOut := s.conn.wsOut ++ [msg] } := by
      simp only [Conn.step, hs, halive.1, Bool.false_eq_true, if_false, if_true]
    exact hend (.sendDone true) _ ⟨rfl, hsends⟩ (step_conn_of rfl hstep)
  · by_contra hreturns
    obtain ⟨output, houtput⟩ := Option.ne_none_iff_exists'.mp hreturns
    obtain ⟨n, hn⟩ := List.mem_iff_getElem?.mp hr
    have hstep : s.conn.step (.handlerReturns n output) = some { s.conn with
        tasks := s.conn.tasks.eraseIdx n
        rpcRx := s.conn.rpcRx ++ [{ id := r.id, output := output, call := r.call }] } := by
      simp only [Conn.step, Conn.handlerReturns, hn, halive.1, Bool.false_eq_true, if_false]
    exact hend (.handlerReturns n output) _ ⟨r, hn, houtput⟩ (step_conn_of rfl hstep)

/-- With no work left, a client's loop that sends waits for a connection loop that waits for it. -/
theorem deadlocked_of_end (hinv : Up s) (hend : ∀ a s', s.Work socket returns a → s.step a ≠ some s') {slot : Fin 256}
    {call : Call} {internal : Bytes} (hphase : s.client.phase = .sending slot call internal) :
    s.Deadlocked socket := by
  have hblocked : ¬ s.SendsUp socket := by
    intro hsends
    obtain ⟨k, hk⟩ := Conn.peerSend_enabled hinv.opened (.binary (some ⟨idOf slot, internal, call⟩))
    have hstep : s.step (.client (.send .sent)) =
        some { s with client := { s.client with phase := .sent slot call }, conn := k } := by
      simp only [step, hinv.shipped, if_true, ClientLoop.step, ClientLoop.onSend, hphase, hk, Option.map_some]
    exact hend (.client (.send .sent)) _ ⟨rfl, hsends⟩ hstep
  have hrests : Rests socket returns s := rests_of_end hinv.alive fun a => hend (.conn a)
  have hsending : s.conn.sending ≠ none := by
    intro hnone
    -- a connection loop at its `select!` would read on
    have hready := hrests.ready hnone .client
    exact hblocked (Or.inr ⟨by simpa [Conn.ready] using hready, hnone⟩)
  exact ⟨⟨slot, call, internal, hphase⟩, hsending,
    Bool.eq_false_iff.mpr fun hup => hblocked (Or.inl hup),
    Bool.eq_false_iff.mpr fun hdown => hrests.blocked hsending (Or.inl hdown)⟩

theorem settled_of_select (hinv : Up s) (hend : ∀ a s', s.Work socket returns a → s.step a ≠ some s')
    (hselect : s.client.phase = .select) : Settled returns s := by
  have hcall : s.client.rpcRequestRx = [] := by
    by_contra hne
    obtain ⟨c, hc⟩ := ClientLoop.takeRequest_enabled hselect hne
    refine hend (.client .takeRequest) { s with client := c } trivial ?_
    simp only [step, hinv.shipped, if_true, ClientLoop.step, hc, Option.map_some]
  have hout : s.conn.wsOut = [] := by
    cases hq : s.conn.wsOut with
    | nil => rfl
    | cons msg rest =>
      obtain ⟨s', hs⟩ := receive_enabled hinv.shipped hselect hq
      exact absurd hs (hend _ _ rfl)
  have hrests : Rests socket returns s := rests_of_end hinv.alive fun a => hend (.conn a)
  have hsending : s.conn.sending = none := by
    by_contra hne
    exact hrests.blocked hne (Or.inr ⟨hout, hselect⟩)
  have hready := hrests.ready hsending
  have hrpc : s.conn.rpcRx = [] := by simpa [Conn.ready] using hready .rpc
  have hws : s.conn.wsIn = [] := by simpa [Conn.ready] using hready .client
  -- a slot that is filled belongs to a handler task, or to one that has panicked
  have hslot : ∀ slot call, s.client.activeRpcCalls slot = some call →
      ∃ r ∈ s.conn.tasks ++ s.conn.crashed, slotOf r.id = slot ∧ r.call = call := by
    intro slot call hcall'
    have hcarried := hinv.balanced.carried_eq (idOf slot)
    rw [RpcView.carried_eq_live hinv.balanced.table.in_flight, held, slotOf_idOf,
      ClientLoop.outstanding_select hselect, hcall'] at hcarried
    have hcount : (s.conn.tasks.map Request.id).count (idOf slot) +
        (s.conn.crashed.map Request.id).count (idOf slot) = 1 := by
      simpa [RpcView.live, Conn.rpcView, Conn.requests, Conn.replies, hws, hout, hsending, hrpc] using hcarried
    rw [← List.count_append, ← List.map_append] at hcount
    obtain ⟨r, hr, hid⟩ := List.mem_map.mp (List.count_pos_iff.mp (hcount ▸ Nat.one_pos))
    have howner : s.client.outstanding (slotOf r.id) = some r.call := by
      rcases List.mem_append.mp hr with hr | hr
      · exact hinv.balanced.table.owner (RpcView.requestKey r) (by
          simp only [RpcView.keys, List.mem_append, List.mem_map]
          exact Or.inl (Or.inl (Or.inr ⟨r, hr, rfl⟩)))
      · exact hinv.crashed r hr
    rw [hid, slotOf_idOf, ClientLoop.outstanding_select hselect, hcall', Option.some.injEq] at howner
    exact ⟨r, hr, by rw [hid, slotOf_idOf], howner.symm⟩
  refine ⟨hselect, hcall, ⟨hws, hout, hsending⟩, hready, hrests.never_returns, fun call hlt => ?_, fun slot hne => ?_⟩
  · rcases hinv.balanced.known call hlt with hk | ⟨slot, hk⟩ | hk
    · rw [ClientLoop.waiting_select hselect, hcall] at hk
      cases hk
    · rw [ClientLoop.outstanding_select hselect] at hk
      obtain ⟨r, hr, -, hcall'⟩ := hslot slot call hk
      exact Or.inr ⟨r, hr, hcall'⟩
    · exact Or.inl hk
  · obtain ⟨call, hk⟩ := Option.ne_none_iff_exists'.mp hne
    obtain ⟨r, hr, hid, -⟩ := hslot slot call hk
    exact ⟨r, hr, hid⟩

/-- **Where work ends** the session is settled or deadlocked. -/
theorem settled_of_end (hinv : Up s) (hend : ∀ a s', s.Work socket returns a → s.step a ≠ some s') :
    Settled returns s ∨ Deadlocked socket s := by
  cases hphase : s.client.phase with
  | select => exact Or.inl (settled_of_select hinv hend hphase)
  | sending slot call internal => exact Or.inr (deadlocked_of_end hinv hend hphase)
  | sent slot call =>
    have hstep : s.step (.client .fillSlot) = some { s with client := { s.client with
        activeRpcCalls := Function.update s.client.activeRpcCalls slot (some call), phase := .select } } := by
      simp only [step, hinv.shipped, if_true, ClientLoop.step, ClientLoop.fillSlot, hphase, Option.map_some]
    exact absurd hstep (hend _ _ trivial)
  | exited => exact absurd hphase hinv.running

end End

/-! ## The property -/

theorem up_of_run {as : List SessionAct} {s : Session S} (hstays : ∀ a ∈ as, a.stays = true)
    (h : run step (init S true) as = some s) : Up s :=
  run_invariant (P := fun a => a.stays = true) (fun _ _ _ ha hinv hs => step_up hinv ha hs) hstays (up_init S) h

theorem Up.progress {s : Session S} (hup : Up s) (socket : Socket)
    (returns : Request → Option (HandlerResult Bytes)) :
    Progress step (fun s => s.Work socket returns) (fun _ a => a.stays = true) SessionAct.brings
      (fun s => s.Settled returns ∨ s.Deadlocked socket) s.work s := by
  refine progress_of_measure (I := Up) ?_ ?_ ?_ ?_ ?_ hup
  · exact fun s a s' hinv hW hs => step_up hinv hW.stays hs
  · exact fun s a s' hinv ha hs => step_up hinv ha hs
  · exact fun s a s' _ hW hs => step_work hW hs
  · exact fun s a s' _ _ hs => step_brings hs
  · exact fun s hinv hend => settled_of_end hinv hend

/-- **Answers are not held up**, in every run over a connection that stays up and loses nothing: from where the run
has come to, no more than `s.work` steps of work are left, and what other steps bring. Where no work is left every call
is answered whose handler has returned or does return, unless both loops wait for their sends. -/
theorem progress_of_run {as : List SessionAct} {s : Session S} (hstays : ∀ a ∈ as, a.stays = true)
    (h : run step (init S true) as = some s) (socket : Socket) (returns : Request → Option (HandlerResult Bytes)) :
    Progress step (fun s => s.Work socket returns) (fun _ a => a.stays = true) SessionAct.brings
      (fun s => s.Settled returns ∨ s.Deadlocked socket) s.work s :=
  (up_of_run hstays h).progress socket returns

/-- **Everything can be answered**: if no handler has panicked, all of them return, and every send completes, work leads
to a state in which every call is answered and every slot is free. -/
theorem drained_of_run {as : List SessionAct} {s : Session S} (hstays : ∀ a ∈ as, a.stays = true)
    (h : run step (init S true) as = some s) (hcrashed : s.conn.crashed = []) {socket : Socket}
    (hsocket : socket.Completes) {returns : Request → Option (HandlerResult Bytes)} (hreturns : ∀ r, returns r ≠ none) :
    ∃ bs t, Works step (fun s => s.Work socket returns) s bs t ∧
      (∀ call < t.client.issued.length, call ∈ t.client.completions.map Prod.fst) ∧
      ∀ slot, t.client.activeRpcCalls slot = none := by
  have hup := up_of_run hstays h
  obtain ⟨bs, t, hworks, hends⟩ := (hup.progress socket returns).exists_works
  have hsettled : t.Settled returns := hends.resolve_right (not_deadlocked hsocket t)
  have hinv : t.Up ∧ t.conn.crashed = [] := by
    refine hworks.invariant (I := fun t : Session S => t.Up ∧ t.conn.crashed = []) ?_ ⟨hup, hcrashed⟩
    rintro t a t' ⟨hup, hnil⟩ hW ht
    have hne : a ≠ .abort := by
      rintro rfl
      cases hW
    exact ⟨step_up hup hW.stays ht, (step_crashed_iff hup.alive hne ht).mpr ⟨hnil, hW.panics⟩⟩
  have hnone : t.conn.tasks ++ t.conn.crashed = [] := by
    rw [hinv.2, List.append_nil, List.eq_nil_iff_forall_not_mem]
    exact fun r hr => hreturns r (hsettled.never_returns r hr)
  refine ⟨bs, t, hworks, fun call hlt => ?_, fun slot => ?_⟩
  · rcases hsettled.answered call hlt with hc | ⟨r, hr, -⟩
    · exact hc
    · rw [hnone] at hr
      cases hr
  · by_contra hne
    obtain ⟨r, hr, -⟩ := hsettled.slots slot hne
    rw [hnone] at hr
    cases hr

/-- Two calls. -/
def twoCallsRun : List SessionAct := [.client (.call [1]), .client (.call [2])]

/-- The handler of the first one never returns. -/
theorem progress_twoCallsRun : ∃ s, run step (init counterState.toStateStruct true) twoCallsRun = some s ∧
    Progress step (fun s => s.Work oneRoom fun r => if r.call = 0 then none else some (.ok [20]))
      (fun _ a => a.stays = true) SessionAct.brings
      (fun s => (s.Settled fun r => if r.call = 0 then none else some (.ok [20])) ∨ s.Deadlocked oneRoom) s.work s := by
  have hrun : (run step (init counterState.toStateStruct true) twoCallsRun).isSome = true := rfl
  obtain ⟨s, hs⟩ := Option.isSome_iff_exists.mp hrun
  exact ⟨s, hs, progress_of_run (by decide) hs oneRoom _⟩

end Session

end HardLight
