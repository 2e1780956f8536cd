import HardLight.Session.Fields
import HardLight.Session.Precedence
import HardLight.Lib.Past

/-!
# What the state shows when a call returns

A handler that writes to the state has its change list sent on a way of its own, which the answer of the handler may
leave behind: the `select!` polls `rpc_rx` before `state_change_rx`. What the client's replica is when it has the
answer depends on the moment at which the connection loop takes it.

* `Conn.Speaks`, `step_speaks` : what a step adds to what the connection says, and to the change lists that come to it;
* `Logged`, `step_logged` : the replica is what the change lists read so far make of the first state, and all the lists
  together are the deltas of the commits;
* `Takes`, `Reads` : the loop takes an answer, the client reads one;
* `Chronicle`, `step_chronicle` : an answer is read when what the loop had said before it has been, and a call is
  accepted when all that waited in the channel with the answers before it has been said;
* `Shown`, `shown_of_run` : with an answer the client has the commits that the loop had sent the lists of, and those
  that were in the channel with the answers before the call.
-/

namespace HardLight
open Lib

/-! ## What a connection says -/

namespace Arm

/-- The arm for state changes has been polled. -/
def afterState : Arm → Bool
  | event | subscription | client => true
  | _ => false

end Arm

namespace ConnAct

/-- The change list that comes into the channel. -/
def given : ConnAct → List (List StateUpdate)
  | stateUpdate changes => [changes]
  | _ => []

end ConnAct

namespace Conn

/-- What the loop has said, what the peer has read of it first. -/
def said (k : Conn) : List ServerMessage := k.wsRead ++ k.outbox

def saidLists (k : Conn) : List (List StateUpdate) := k.said.filterMap ServerMessage.changes?

/-- The change lists that have come into the channel. -/
def heardLists (k : Conn) : List (List StateUpdate) := k.saidLists ++ k.stateChangeRx

/-- A step of a connection, as far as it is about what is said: with the answer that the loop takes, and the change list
that comes in. -/
inductive Speaks (k k' : Conn) : Option Response → List (List StateUpdate) → Prop
  | answered (resp : Response) (rest : List Response) (hq : k.rpcRx = resp :: rest)
      (hsaid : k'.said = k.said ++ [.rpcResponse resp]) (hstate : k'.stateChangeRx = k.stateChangeRx)
      (harm : k'.arm = .rpc) (haccepted : k'.accepted = k.accepted)
      (hresponded : k'.responded = k.responded ++ [resp]) : Speaks k k' (some resp) []
  | told (msg : ServerMessage) (hmsg : msg.response? = none) (hsaid : k'.said = k.said ++ [msg])
      (hstate : k.stateChangeRx = msg.changes?.toList ++ k'.stateChangeRx) (harm : k'.arm = .rpc)
      (haccepted : k'.accepted = k.accepted) (hresponded : k'.responded = k.responded) : Speaks k k' none []
  | accepted (q : Request) (hclient : k.arm = .client) (hsaid : k'.said = k.said)
      (hstate : k'.stateChangeRx = k.stateChangeRx) (harm : k'.arm = .rpc)
      (haccepted : k'.accepted = k.accepted ++ [q]) (hresponded : k'.responded = k.responded) : Speaks k k' none []
  | moved (given : List (List StateUpdate)) (hsaid : k'.said = k.said)
      (hstate : k'.stateChangeRx = k.stateChangeRx ++ given)
      (harm : k'.arm.afterState = true → k.arm.afterState = true ∨ k.stateChangeRx = [])
      (haccepted : k'.accepted = k.accepted) (hresponded : k'.responded = k.responded) : Speaks k k' none given

theorem Speaks.refl (k : Conn) : Speaks k k none [] := .moved [] rfl (List.append_nil _).symm Or.inl rfl rfl

theorem Speaks.said {k k' : Conn} {answer : Option Response} {given : List (List StateUpdate)}
    (h : Speaks k k' answer given) : k.said <+: k'.said := by
  cases h with
  | answered resp rest hq hsaid hstate harm haccepted hresponded => exact hsaid ▸ List.prefix_append _ _
  | told msg hmsg hsaid hstate harm haccepted hresponded => exact hsaid ▸ List.prefix_append _ _
  | accepted q hclient hsaid hstate harm haccepted hresponded => exact hsaid ▸ List.prefix_refl _
  | moved given hsaid hstate harm haccepted hresponded => exact hsaid ▸ List.prefix_refl _

theorem Speaks.saidLists {k k' : Conn} {answer : Option Response} {given : List (List StateUpdate)}
    (h : Speaks k k' answer given) : k.saidLists <+: k'.saidLists := h.said.filterMap _

theorem Speaks.responded {k k' : Conn} {answer : Option Response} {given : List (List StateUpdate)}
    (h : Speaks k k' answer given) : k'.responded = k.responded ++ answer.toList := by
  cases h with
  | answered resp rest hq hsaid hstate harm haccepted hresponded => exact hresponded
  | told msg hmsg hsaid hstate harm haccepted hresponded => rw [hresponded, Option.toList_none, List.append_nil]
  | accepted q hclient hsaid hstate harm haccepted hresponded => rw [hresponded, Option.toList_none, List.append_nil]
  | moved given hsaid hstate harm haccepted hresponded => rw [hresponded, Option.toList_none, List.append_nil]

theorem Speaks.head {k k' : Conn} {resp : Response} {given : List (List StateUpdate)}
    (h : Speaks k k' (some resp) given) : k.rpcRx.head? = some resp := by
  cases h with
  | answered resp rest hq hsaid hstate harm haccepted hresponded => rw [hq, List.head?_cons]

/-- **Change lists pass through the channel in order**, and nothing else comes between. -/
theorem Speaks.heardLists {k k' : Conn} {answer : Option Response} {given : List (List StateUpdate)}
    (h : Speaks k k' answer given) : k'.heardLists = k.heardLists ++ given := by
  cases h with
  | answered resp rest hq hsaid hstate harm haccepted hresponded =>
    simp [Conn.heardLists, Conn.saidLists, hsaid, hstate, ServerMessage.changes?]
  | told msg hmsg hsaid hstate harm haccepted hresponded =>
    cases hchanges : msg.changes? <;> simp [Conn.heardLists, Conn.saidLists, hsaid, hstate, hchanges]
  | accepted q hclient hsaid hstate harm haccepted hresponded =>
    simp [Conn.heardLists, Conn.saidLists, hsaid, hstate]
  | moved given hsaid hstate harm haccepted hresponded =>
    simp [Conn.heardLists, Conn.saidLists, hsaid, hstate]

/-- What is handed to `send_msg` is said last. -/
theorem said_of_polls {k : Conn} {arm : Arm} (hpolls : k.polls arm = true) (msg : ServerMessage) :
    k.wsRead ++ (k.wsOut ++ [msg]) = k.said ++ [msg] := by
  rw [outbox_of_sending_none (polls_iff.mp hpolls).2.1, ← List.append_assoc]
  rfl

/-- **What a step says**, when nothing is lost. -/
theorem step_speaks {k k' : Conn} {a : ConnAct} (hok : a.succeeds = true) (h : k.step a = some k') :
    ∃ answer, Speaks k k' answer a.given ∧ (answer ≠ none ↔ a = .response) := by
  have hnone {a : ConnAct} (ha : a ≠ .response) : (none : Option Response) ≠ none ↔ a = .response :=
    ⟨fun hne => absurd rfl hne, fun he => absurd he ha⟩
  cases step_cases h with
  | passedOver hpolls hready =>
    refine ⟨none, .moved [] rfl (List.append_nil _).symm (fun harm => ?_) rfl rfl, hnone fun he => by cases he⟩
    -- the arm for state changes is passed over when the channel is empty
    cases hk : k.arm with
    | state =>
      rw [hk, ready, Bool.not_eq_false', List.isEmpty_iff] at hready
      exact Or.inr hready
    | event => exact Or.inl rfl
    | subscription => exact Or.inl rfl
    | client => exact Or.inl rfl
    | rpc =>
      dsimp only at harm
      rw [hk] at harm
      cases harm
  | responded r rest hpolls hq =>
    exact ⟨some r, .answered r rest hq (said_of_polls hpolls _) rfl rfl rfl rfl, fun _ => rfl, fun _ he => by cases he⟩
  | stateChanged changes rest hpolls hq =>
    exact ⟨none, .told (.stateChange changes) rfl (said_of_polls hpolls _) hq rfl rfl rfl, hnone fun he => by cases he⟩
  | newEvent e rest hpolls hq =>
    exact ⟨none, .told (.newEvent e.topic e.payload) rfl (said_of_polls hpolls _) rfl rfl rfl rfl,
      hnone fun he => by cases he⟩
  | accepted r rest hpolls hq hfree =>
    exact ⟨none, .accepted r (polls_iff.mp hpolls).2.2 rfl rfl rfl rfl rfl, hnone fun he => by cases he⟩
  | sent msg hsending hrun =>
    refine ⟨none, .moved [] ?_ (List.append_nil _).symm Or.inl rfl rfl, hnone fun he => by cases he⟩
    simp [Conn.said, Conn.outbox, hsending]
  | lost msg hsending hrun => cases hok
  | updated changes hrun hroom => exact ⟨none, .moved [changes] rfl rfl Or.inl rfl rfl, hnone fun he => by cases he⟩
  | read msg rest hq =>
    refine ⟨none, .moved [] ?_ (List.append_nil _).symm Or.inl rfl rfl, hnone fun he => by cases he⟩
    simp [Conn.said, Conn.outbox, hq]
  | noRequest decoded item rest hpolls hq hitem =>
    exact ⟨none, .moved [] rfl (List.append_nil _).symm (fun harm => by cases harm) rfl rfl,
      hnone fun he => by cases he⟩
  | undecoded r rest hpolls hq => cases hok
  | ignored r rest hpolls hq hbusy =>
    exact ⟨none, .moved [] rfl (List.append_nil _).symm (fun harm => by cases harm) rfl rfl,
      hnone fun he => by cases he⟩
  | notified id alive o rest subscriptions hpolls hq =>
    exact ⟨none, .moved [] rfl (List.append_nil _).symm (fun harm => by cases harm) rfl rfl,
      hnone fun he => by cases he⟩
  | _ => exact ⟨none, .moved [] rfl (List.append_nil _).symm Or.inl rfl rfl, hnone fun he => by cases he⟩

end Conn

/-! ## What a session says and reads -/

namespace SessionAct

def given : SessionAct → List (List StateUpdate)
  | conn a => a.given
  | _ => []

theorem given_of_sendsState {a : SessionAct} (h : a.sendsState = false) : a.given = [] := by
  cases a with
  | conn a =>
    cases a with
    | stateUpdate changes => cases h
    | _ => rfl
  | _ => rfl

end SessionAct

namespace Session
variable {S : StateStruct}

theorem step_speaks {s s' : Session S} {a : SessionAct} (hok : a.succeeds = true) (h : s.step a = some s') :
    ∃ answer, Conn.Speaks s.conn s'.conn answer a.given ∧ (answer ≠ none ↔ a = .conn .response) := by
  -- the peer sends and reads
  have hpeer {b : ConnAct} (hb : b.succeeds = true) (hgiven : b.given = []) (hne : b ≠ .response)
      (hk : s.conn.step b = some s'.conn) : Conn.Speaks s.conn s'.conn none [] := by
    obtain ⟨answer, hspeaks, hiff⟩ := Conn.step_speaks hb hk
    rw [hgiven] at hspeaks
    cases answer with
    | none => exact hspeaks
    | some resp => exact absurd (hiff.mp fun he => by cases he) hne
  have hnone {a : SessionAct} (ha : a ≠ .conn .response) : (none : Option Response) ≠ none ↔ a = .conn .response :=
    ⟨fun hne => absurd rfl hne, fun he => absurd he ha⟩
  cases a with
  | client a =>
    obtain ⟨out, -, -, hk⟩ := step_client h
    refine ⟨none, ?_, hnone fun he => by cases he⟩
    cases out with
    | none =>
      dsimp only at hk
      rw [hk]
      exact .refl _
    | some r => exact hpeer rfl rfl (fun he => by cases he) hk
  | receive decoded =>
    obtain ⟨msg, rest, -, -, -, hk⟩ := step_receive h
    exact ⟨none, hpeer rfl rfl (fun he => by cases he) hk, hnone fun he => by cases he⟩
  | conn a =>
    obtain ⟨answer, hspeaks, hiff⟩ := Conn.step_speaks hok (step_conn h).2.2.2
    refine ⟨answer, hspeaks, hiff.trans ⟨fun he => by rw [he], fun he => by cases he; rfl⟩⟩
  | abort => cases h; exact ⟨none, .moved [] rfl (List.append_nil _).symm Or.inl rfl rfl, hnone fun he => by cases he⟩

/-- The client reads a message and does what it says, or reads none and leaves its state alone. -/
theorem step_reads {s s' : Session S} {a : SessionAct} (hship : s.shipped = true) (hok : a.succeeds = true)
    (h : s.step a = some s') :
    (s'.conn.wsRead = s.conn.wsRead ∧ s'.client.state = s.client.state) ∨
      ∃ msg, s'.conn.wsRead = s.conn.wsRead ++ [msg] ∧ s'.client.state =
        msg.changes?.elim s.client.state fun changes => (S.applyChanges s.client.state changes).1 := by
  have hread {k : Conn} {b : ConnAct} (hb : b ≠ .peerRead) (hk : s.conn.step b = some k) :
      k.wsRead = s.conn.wsRead := by
    cases Conn.step_cases hk with
    | read msg rest hq => exact absurd rfl hb
    | _ => rfl
  cases a with
  | client a =>
    obtain ⟨out, hc, -, hk⟩ := step_client h
    refine Or.inl ⟨?_, (ClientLoop.step_cases hc).state⟩
    cases out with
    | none => exact congrArg Conn.wsRead hk
    | some r => exact hread (fun he => by cases he) hk
  | receive decoded =>
    have hdec : decoded = true := hok
    subst hdec
    obtain ⟨msg, rest, hq, -, hc, hk⟩ := step_receive h
    refine Or.inr ⟨msg, ?_, ClientLoop.onServerMessage_state hc⟩
    generalize s'.conn = k at hk ⊢
    cases Conn.step_cases hk with
    | read msg' rest' hq' =>
      rw [hq, List.cons.injEq] at hq'
      rw [hq'.1]
  | conn a =>
    obtain ⟨hc, -, hserver, hk⟩ := step_conn h
    refine Or.inl ⟨hread (fun he => ?_) hk, by rw [hc]⟩
    subst he
    cases hserver hship
  | abort => cases h; exact Or.inl ⟨rfl, rfl⟩

theorem step_output {s s' : Session S} {a : SessionAct} (hcons : Consistent s) (h : s.step a = some s')
    {call : Call} {output : HandlerResult Bytes}
    (hc : (call, Completion.output output) ∈ s'.client.completions) :
    (call, Completion.output output) ∈ s.client.completions ∨ a = .receive true ∧
      ∃ resp rest, s.conn.wsOut = .rpcResponse resp :: rest ∧ resp.call = call ∧ resp.output = output := by
  cases a with
  | client a =>
    obtain ⟨out, hstep, -, -⟩ := step_client h
    exact Or.inl ((ClientLoop.step_cases hstep).completions hc)
  | receive decoded =>
    obtain ⟨msg, rest, hq, -, hrecv, -⟩ := step_receive h
    rcases (ClientLoop.onServerMessage_cases hrecv).completions hc with hold | ⟨resp, hresp, hslot, houtput⟩
    · exact Or.inl hold
    · cases decoded with
      | false => cases hresp
      | true =>
        cases msg with
        | rpcResponse resp' =>
          cases hresp
          have hreply : resp ∈ s.conn.rpcView.replies := by
            simp [Conn.rpcView, Conn.replies, hq, ServerMessage.response?]
          rw [outstanding_of_reply hcons.table hreply, Option.some.injEq] at hslot
          exact Or.inr ⟨rfl, resp, rest, hq, hslot, houtput⟩
        | newEvent topic payload => cases hresp
        | stateChange changes => cases hresp
  | conn a => exact Or.inl ((step_conn h).1 ▸ hc)
  | abort => cases h; exact Or.inl hc

end Session

/-! ## The lists and the commits -/

namespace Replication
variable {S : LawfulStateStruct}

/-- The change lists that the client has read. -/
def readLists (r : Replication S) : List (List StateUpdate) :=
  r.session.conn.wsRead.filterMap ServerMessage.changes?

/-- Every change list that a task was given, in the order in which the client comes to have them. -/
def lists (r : Replication S) : List (List StateUpdate) := r.session.conn.heardLists ++ r.spawned

/-- The lists that the connection loop has not taken. -/
def unsaid (r : Replication S) : List (List StateUpdate) := r.session.conn.stateChangeRx ++ r.spawned

theorem lists_eq (r : Replication S) : r.lists = r.session.conn.saidLists ++ r.unsaid := List.append_assoc _ _ _

/-- On the group, the lists are the deltas of the commits, and the replica is what those read so far make of the first
state. -/
structure Logged (K : Finset (Fin S.fields)) (r : Replication S) : Prop where
  shipped : r.session.shipped = true
  last : r.commits.getLast? = some (r.guard.getD r.state)
  decodes : ∀ changes ∈ r.lists, ∀ u ∈ changes, S.decodes u = true
  follows : S.delta.Follows (r.commits.map (S.on K)) (S.on K S.default) (S.listsOn K r.lists) 0
  replica : r.replica = r.readLists.foldl S.delta.patch S.default

variable {K : Finset (Fin S.fields)} {r r' : Replication S}

theorem logged_init (S : LawfulStateStruct) (K : Finset (Fin S.fields)) : Logged K (init S) where
  shipped := rfl
  last := rfl
  decodes changes h := by cases h
  follows := Delta.follows_start (S.on K S.default)
  replica := rfl

theorem drop_logged {start : S.State} (hinv : Logged K r) (hguard : r.guard = some start) : Logged K { r with
    guard := none
    commits := r.commits ++ [r.state]
    spawned := r.spawned ++ (S.delta.diff start r.state).toList } := by
  have hlast := hinv.last
  rw [hguard, Option.getD_some] at hlast
  have hdecodes := LawfulStateStruct.decodes_append_diff start r.state hinv.decodes
  have hfollows := LawfulStateStruct.follows_commit hinv.follows hlast r.state
  rw [lists, List.append_assoc] at hdecodes hfollows
  exact ⟨hinv.shipped, by simp, hdecodes, hfollows, hinv.replica⟩

theorem session_replica {s : Session S.toStateStruct} {a : SessionAct} (hinv : Logged K r) (hok : a.succeeds = true)
    (h : r.session.step a = some s) :
    s.client.state = (s.conn.wsRead.filterMap ServerMessage.changes?).foldl S.delta.patch S.default := by
  have hreplica := hinv.replica
  rw [replica, readLists] at hreplica
  rcases Session.step_reads hinv.shipped hok h with ⟨hread, hstate⟩ | ⟨msg, hread, hstate⟩
  · rw [hread, hstate]
    exact hreplica
  · rw [hread, hstate, List.filterMap_append, List.foldl_append, ← hreplica]
    cases hchanges : msg.changes? with
    | none => simp [hchanges]
    | some changes =>
      simp only [hchanges, List.filterMap_cons, List.filterMap_nil, List.foldl_cons, List.foldl_nil]
      rfl

theorem session_logged {s : Session S.toStateStruct} {a : SessionAct} (hinv : Logged K r) (hok : a.succeeds = true)
    (hno : a.sendsState = false) (h : r.session.step a = some s) : Logged K { r with session := s } := by
  obtain ⟨answer, hspeaks, -⟩ := Session.step_speaks hok h
  rw [SessionAct.given_of_sendsState hno] at hspeaks
  have hlists : lists { r with session := s } = r.lists := by
    rw [lists, lists, hspeaks.heardLists, List.append_nil]
  exact ⟨(Session.step_shipped h).trans hinv.shipped, hinv.last, hlists ▸ hinv.decodes, hlists ▸ hinv.follows,
    session_replica hinv hok h⟩

theorem send_logged {s : Session S.toStateStruct} {n : Nat} {changes : List StateUpdate} (hinv : Logged K r)
    (horder : r.keepsOrder K (.send n)) (hget : r.spawned[n]? = some changes)
    (hs : r.session.step (.conn (.stateUpdate changes)) = some s) :
    Logged K { r with session := s, spawned := r.spawned.eraseIdx n } := by
  obtain ⟨answer, hspeaks, -⟩ := Session.step_speaks rfl hs
  have hlists : lists { r with session := s, spawned := r.spawned.eraseIdx n } =
      r.session.conn.heardLists ++ (changes :: r.spawned.eraseIdx n) := by
    rw [lists, hspeaks.heardLists, List.append_assoc]
    rfl
  refine ⟨(Session.step_shipped hs).trans hinv.shipped, hinv.last, fun other hmem => hinv.decodes other ?_, ?_,
    session_replica hinv rfl hs⟩
  · rw [hlists, List.mem_append, ← (Conn.perm_eraseIdx hget).mem_iff] at hmem
    exact List.mem_append.mpr hmem
  · rw [hlists, StateStruct.listsOn_cons_eraseIdx hget (horder _ hget)]
    exact hinv.follows

/-- **Every step that keeps the order of the group** keeps its lists the deltas of its commits. -/
theorem step_logged {a : ReplicationAct S} (hinv : Logged K r) (hok : a.succeeds = true) (horder : r.keepsOrder K a)
    (h : r.step a = some r') : Logged K r' := by
  have hlast := hinv.last
  cases step_cases h with
  | wrote hguard =>
    rw [hguard] at hlast
    exact ⟨hinv.shipped, hlast, hinv.decodes, hinv.follows, hinv.replica⟩
  | mutated next start hguard =>
    rw [hguard] at hlast
    exact ⟨hinv.shipped, by rw [hguard]; exact hlast, hinv.decodes, hinv.follows, hinv.replica⟩
  | dropped start hguard => exact drop_logged hinv hguard
  | sent n changes s hget hs => exact send_logged hinv horder hget hs
  | session a s hno hs => exact session_logged hinv hok hno hs

/-! ## Answers taken and read -/

theorem step_session {a : ReplicationAct S} (h : r.step a = some r') :
    (r'.session = r.session ∧ ∀ b, a ≠ .session b) ∨
      ∃ b, r.session.step b = some r'.session ∧ b.succeeds = a.succeeds ∧
        ∀ c : SessionAct, c.sendsState = false → (b = c ↔ a = .session c) := by
  cases step_cases h with
  | wrote hguard => exact Or.inl ⟨rfl, fun b he => by cases he⟩
  | mutated next start hguard => exact Or.inl ⟨rfl, fun b he => by cases he⟩
  | dropped start hguard => exact Or.inl ⟨rfl, fun b he => by cases he⟩
  | sent n changes s hget hs =>
    refine Or.inr ⟨_, hs, rfl, fun c hno => ⟨fun he => ?_, fun he => by cases he⟩⟩
    subst he
    cases hno
  | session a s hno hs => exact Or.inr ⟨a, hs, rfl, fun c _ => by rw [ReplicationAct.session.injEq]⟩

theorem step_speaks {a : ReplicationAct S} (hok : a.succeeds = true) (h : r.step a = some r') :
    ∃ answer given, Conn.Speaks r.session.conn r'.session.conn answer given ∧
      (answer ≠ none ↔ a = .session (.conn .response)) := by
  rcases step_session h with ⟨hsession, hno⟩ | ⟨b, hb, hsucceeds, hsame⟩
  · rw [hsession]
    exact ⟨none, [], .refl _, fun hne => absurd rfl hne, fun he => absurd he (hno _)⟩
  · obtain ⟨answer, hspeaks, hiff⟩ := Session.step_speaks (hsucceeds.trans hok) hb
    exact ⟨answer, _, hspeaks, hiff.trans (hsame _ rfl)⟩

/-- The connection loop takes the answer `resp`; `r` is the state before. -/
def Takes (resp : Response) (r : Replication S) (bs : List (ReplicationAct S)) (a : ReplicationAct S) : Prop :=
  a = .session (.conn .response) ∧ run step (init S) bs = some r ∧ r.session.conn.rpcRx.head? = some resp

/-- The client reads the answer `resp`; `v` is the state before. -/
def Reads (resp : Response) (v : Replication S) (bs : List (ReplicationAct S)) (a : ReplicationAct S) : Prop :=
  a = .session (.receive true) ∧ run step (init S) bs = some v ∧
    v.session.conn.wsOut.head? = some (.rpcResponse resp)

/-- What has been said and read by the moments at which answers were taken. -/
structure Chronicle (as : List (ReplicationAct S)) (u : Replication S) : Prop where
  consistent : u.session.Consistent
  precedence : u.session.Precedence
  responded : ∀ resp ∈ u.session.conn.responded, ∃ r, Once (Takes resp r) as
  /-- In front of an answer stands what had been said when it was taken. -/
  said : ∀ n resp, u.session.conn.said[n]? = some (.rpcResponse resp) →
    ∃ r, Once (Takes resp r) as ∧ r.session.conn.said = u.session.conn.said.take n
  heard : ∀ resp r, Once (Takes resp r) as → r.session.conn.heardLists <+: u.session.conn.heardLists
  /-- When the arm for state changes has been polled, what waited with an answer has been said. -/
  polled : u.session.conn.arm.afterState = true → ∀ resp r, Once (Takes resp r) as →
    r.session.conn.heardLists <+: u.session.conn.saidLists
  /-- A call is accepted when what waited with the answers before it has been said. -/
  accepted : ∀ q ∈ u.session.conn.accepted, ∀ issue, u.session.client.issued[q.call]? = some issue →
    ∀ call ∈ issue.seen, ∃ resp r, resp.call = call ∧ Once (Takes resp r) as ∧
      r.session.conn.heardLists <+: u.session.conn.saidLists
  /-- The client has read what had been said when the answer was taken. -/
  completed : ∀ call output, (call, Completion.output output) ∈ u.session.client.completions →
    ∃ resp r v, resp.call = call ∧ resp.output = output ∧ v.session.conn.wsRead = r.session.conn.said ∧
      Once (fun bs a => Reads resp v bs a ∧ Once (Takes resp r) bs) as

theorem chronicle_init (S : LawfulStateStruct) : Chronicle [] (init S) where
  consistent := Session.consistent_init _
  precedence := Session.precedence_init _
  responded resp h := by cases h
  said n resp h := by
    rw [show (init S).session.conn.said = [] from rfl, List.getElem?_nil] at h
    cases h
  heard resp r h := absurd h not_once_nil
  polled h := by cases h
  accepted q h := by cases h
  completed call output h := by cases h

theorem takes_concat {bs : List (ReplicationAct S)} {a : ReplicationAct S} (hr : run step (init S) bs = some r)
    {resp : Response} {u : Replication S} (h : Once (Takes resp u) (bs ++ [a])) :
    Once (Takes resp u) bs ∨ a = .session (.conn .response) ∧ u = r := by
  refine (once_concat.mp h).imp_right fun htakes => ⟨htakes.1, ?_⟩
  rw [htakes.2.1, Option.some.injEq] at hr
  exact hr

section Step
variable {bs : List (ReplicationAct S)} {a : ReplicationAct S} {answer : Option Response}
  {given : List (List StateUpdate)}

theorem chronicle_heard (hr : run step (init S) bs = some r) (hinv : Chronicle bs r)
    (hspeaks : Conn.Speaks r.session.conn r'.session.conn answer given) {resp : Response} {u : Replication S}
    (h : Once (Takes resp u) (bs ++ [a])) : u.session.conn.heardLists <+: r'.session.conn.heardLists := by
  rw [hspeaks.heardLists]
  rcases takes_concat hr h with hold | ⟨-, rfl⟩
  · exact (hinv.heard resp u hold).trans (List.prefix_append _ _)
  · exact List.prefix_append _ _

theorem chronicle_polled (hr : run step (init S) bs = some r) (hinv : Chronicle bs r)
    (hspeaks : Conn.Speaks r.session.conn r'.session.conn answer given)
    (hiff : answer ≠ none ↔ a = .session (.conn .response)) (harm' : r'.session.conn.arm.afterState = true)
    {resp : Response} {u : Replication S} (h : Once (Takes resp u) (bs ++ [a])) :
    u.session.conn.heardLists <+: r'.session.conn.saidLists := by
  have hrpc : r'.session.conn.arm ≠ .rpc := fun he => by rw [he] at harm'; cases harm'
  cases hspeaks with
  | answered resp' rest hq hsaid hstate harm haccepted hresponded => exact absurd harm hrpc
  | told msg hmsg hsaid hstate harm haccepted hresponded => exact absurd harm hrpc
  | accepted q hclient hsaid hstate harm haccepted hresponded => exact absurd harm hrpc
  | moved given hsaid hstate harm haccepted hresponded =>
    have hsame : r'.session.conn.saidLists = r.session.conn.saidLists := by rw [Conn.saidLists, hsaid, Conn.saidLists]
    rcases takes_concat hr h with hold | ⟨ha, -⟩
    · rw [hsame]
      rcases harm harm' with hafter | hempty
      · exact hinv.polled hafter resp u hold
      · -- the arm is passed over: all that came into the channel has been said
        have hheard := hinv.heard resp u hold
        rw [Conn.heardLists, Conn.heardLists, hempty, List.append_nil] at hheard
        exact hheard
    · exact absurd rfl (hiff.mpr ha)

theorem chronicle_said (hr : run step (init S) bs = some r) (hinv : Chronicle bs r)
    (hspeaks : Conn.Speaks r.session.conn r'.session.conn answer given)
    (hiff : answer ≠ none ↔ a = .session (.conn .response)) {n : Nat} {resp : Response}
    (h : r'.session.conn.said[n]? = some (.rpcResponse resp)) :
    ∃ u, Once (Takes resp u) (bs ++ [a]) ∧ u.session.conn.said = r'.session.conn.said.take n := by
  have hold : r'.session.conn.said = r.session.conn.said →
      ∃ u, Once (Takes resp u) (bs ++ [a]) ∧ u.session.conn.said = r'.session.conn.said.take n := by
    intro hsame
    rw [hsame] at h ⊢
    obtain ⟨u, hu, htake⟩ := hinv.said n resp h
    exact ⟨u, hu.append _, htake⟩
  -- a message more at the end
  have hmore : ∀ msg, r'.session.conn.said = r.session.conn.said ++ [msg] →
      (∃ u, Once (Takes resp u) (bs ++ [a]) ∧ u.session.conn.said = r'.session.conn.said.take n) ∨
        msg = .rpcResponse resp ∧ r.session.conn.said = r'.session.conn.said.take n := by
    intro msg hsaid
    rw [hsaid] at h ⊢
    rcases lt_trichotomy n r.session.conn.said.length with hlt | rfl | hgt
    · rw [List.getElem?_append_left hlt] at h
      obtain ⟨u, hu, htake⟩ := hinv.said n resp h
      exact Or.inl ⟨u, hu.append _, by rw [htake, List.take_append_of_le_length hlt.le]⟩
    · rw [List.getElem?_concat_length, Option.some.injEq] at h
      exact Or.inr ⟨h, by rw [List.take_left]⟩
    · rw [List.getElem?_eq_none (by rw [List.length_append]; exact hgt)] at h
      cases h
  cases hspeaks with
  | answered resp' rest hq hsaid hstate harm haccepted hresponded =>
    rcases hmore _ hsaid with hu | ⟨hmsg, htake⟩
    · exact hu
    · cases hmsg
      refine ⟨r, once_concat.mpr (Or.inr ⟨hiff.mp (fun he => by cases he), hr, ?_⟩), htake⟩
      rw [hq, List.head?_cons]
  | told msg hmsg hsaid hstate harm haccepted hresponded =>
    rcases hmore _ hsaid with hu | ⟨rfl, -⟩
    · exact hu
    · cases hmsg
  | accepted q hclient hsaid hstate harm haccepted hresponded => exact hold hsaid
  | moved given hsaid hstate harm haccepted hresponded => exact hold hsaid

theorem chronicle_responded (hr : run step (init S) bs = some r) (hinv : Chronicle bs r)
    (hspeaks : Conn.Speaks r.session.conn r'.session.conn answer given)
    (hiff : answer ≠ none ↔ a = .session (.conn .response)) {resp : Response}
    (h : resp ∈ r'.session.conn.responded) : ∃ u, Once (Takes resp u) (bs ++ [a]) := by
  rw [hspeaks.responded, List.mem_append, Option.mem_toList] at h
  rcases h with hin | rfl
  · exact (hinv.responded resp hin).imp fun u hu => hu.append _
  · exact ⟨r, once_concat.mpr (Or.inr ⟨hiff.mp (fun he => by cases he), hr, hspeaks.head⟩)⟩

theorem chronicle_accepted (hinv : Chronicle bs r) (hspeaks : Conn.Speaks r.session.conn r'.session.conn answer given)
    {q : Request} (hq : q ∈ r'.session.conn.accepted) {issue : Issue}
    (hissue : r.session.client.issued[q.call]? = some issue) {call : Call} (hcall : call ∈ issue.seen) :
    ∃ resp u, resp.call = call ∧ Once (Takes resp u) (bs ++ [a]) ∧
      u.session.conn.heardLists <+: r'.session.conn.saidLists := by
  have hold : q ∈ r.session.conn.accepted → ∃ resp u, resp.call = call ∧ Once (Takes resp u) (bs ++ [a]) ∧
      u.session.conn.heardLists <+: r'.session.conn.saidLists := by
    intro hin
    obtain ⟨resp, u, hown, hu, hsaid⟩ := hinv.accepted q hin issue hissue call hcall
    exact ⟨resp, u, hown, hu.append _, hsaid.trans hspeaks.saidLists⟩
  have hlists := hspeaks.saidLists
  cases hspeaks with
  | answered resp rest hq' hsaid hstate harm haccepted hresponded => exact hold (haccepted ▸ hq)
  | told msg hmsg hsaid hstate harm haccepted hresponded => exact hold (haccepted ▸ hq)
  | moved given hsaid hstate harm haccepted hresponded => exact hold (haccepted ▸ hq)
  | accepted q' hclient hsaid hstate harm haccepted hresponded =>
    rw [haccepted, List.mem_append, List.mem_singleton] at hq
    rcases hq with hin | rfl
    · exact hold hin
    · obtain ⟨resp, hresp, hown⟩ := hinv.precedence.seen issue (List.mem_of_getElem? hissue) call hcall
      obtain ⟨u, hu⟩ := hinv.responded resp hresp
      refine ⟨resp, u, hown, hu.append _, ?_⟩
      exact (hinv.polled (by rw [hclient]; rfl) resp u hu).trans hlists

theorem issued_of_accepted {s : Session S.toStateStruct} (hcons : s.Consistent) {q : Request}
    (hq : q ∈ s.conn.accepted) : q.call < s.client.issued.length := by
  have hbytes := hcons.ledger.issued (RpcView.requestBytes q)
    (List.mem_append_right _ (List.mem_append_right _ (List.mem_map_of_mem hq)))
  obtain ⟨issue, hissue, -⟩ := Option.map_eq_some_iff.mp hbytes
  exact (List.getElem?_eq_some_iff.mp hissue).1

theorem step_issue (hcons : r.session.Consistent) (h : r.step a = some r') {q : Request}
    (hq : q ∈ r'.session.conn.accepted) {issue : Issue}
    (hissue : r'.session.client.issued[q.call]? = some issue) : r.session.client.issued[q.call]? = some issue := by
  rcases step_session h with ⟨hsession, -⟩ | ⟨b, hb, -⟩
  · rwa [hsession] at hissue
  · rcases Session.step_opStep hb with ⟨hissued, -⟩ | ⟨internal, hissued, hk⟩
    · rwa [hissued] at hissue
    · rw [hk] at hq
      rwa [hissued, List.getElem?_append_left (issued_of_accepted hcons hq)] at hissue

theorem chronicle_completed (hr : run step (init S) bs = some r) (hinv : Chronicle bs r)
    (h : r.step a = some r') {call : Call} {output : HandlerResult Bytes}
    (hc : (call, Completion.output output) ∈ r'.session.client.completions) :
    ∃ resp u v, resp.call = call ∧ resp.output = output ∧ v.session.conn.wsRead = u.session.conn.said ∧
      Once (fun bs a => Reads resp v bs a ∧ Once (Takes resp u) bs) (bs ++ [a]) := by
  have hold : (call, Completion.output output) ∈ r.session.client.completions →
      ∃ resp u v, resp.call = call ∧ resp.output = output ∧ v.session.conn.wsRead = u.session.conn.said ∧
        Once (fun bs a => Reads resp v bs a ∧ Once (Takes resp u) bs) (bs ++ [a]) := by
    intro hin
    obtain ⟨resp, u, v, hown, hout, hread, honce⟩ := hinv.completed call output hin
    exact ⟨resp, u, v, hown, hout, hread, honce.append _⟩
  rcases step_session h with ⟨hsession, -⟩ | ⟨b, hb, -, hsame⟩
  · exact hold (hsession ▸ hc)
  · rcases Session.step_output hinv.consistent hb hc with hin | ⟨rfl, resp, rest, hq, hown, hout⟩
    · exact hold hin
    · -- the answer stands behind what has been read
      have hget : r.session.conn.said[r.session.conn.wsRead.length]? = some (.rpcResponse resp) := by
        rw [Conn.said, Conn.outbox, hq, List.getElem?_append_right (Nat.le_refl _), Nat.sub_self]
        rfl
      obtain ⟨u, hu, htake⟩ := hinv.said _ resp hget
      rw [Conn.said.eq_def r.session.conn, List.take_left] at htake
      refine ⟨resp, u, r, hown, hout, htake.symm, once_concat.mpr (Or.inr ⟨⟨?_, hr, ?_⟩, hu⟩)⟩
      · exact (hsame (.receive true) rfl).mp rfl
      · rw [hq, List.head?_cons]

theorem step_chronicle (hr : run step (init S) bs = some r) (hinv : Chronicle bs r) (hok : a.succeeds = true)
    (h : r.step a = some r') : Chronicle (bs ++ [a]) r' := by
  obtain ⟨answer, given, hspeaks, hiff⟩ := step_speaks hok h
  have hsession : r'.session.Consistent ∧ r'.session.Precedence := by
    rcases step_session h with ⟨hsession, -⟩ | ⟨b, hb, -⟩
    · rw [hsession]
      exact ⟨hinv.consistent, hinv.precedence⟩
    · exact ⟨Session.step_consistent hinv.consistent hb, Session.step_precedence hinv.consistent hinv.precedence hb⟩
  exact {
    consistent := hsession.1
    precedence := hsession.2
    responded := fun resp hresp => chronicle_responded hr hinv hspeaks hiff hresp
    said := fun n resp hget => chronicle_said hr hinv hspeaks hiff hget
    heard := fun resp u hu => chronicle_heard hr hinv hspeaks hu
    polled := fun harm resp u hu => chronicle_polled hr hinv hspeaks hiff harm hu
    accepted := fun q hq issue hissue call hcall =>
      chronicle_accepted hinv hspeaks hq (step_issue hinv.consistent h hq hissue) hcall
    completed := fun call output hc => chronicle_completed hr hinv h hc }

end Step

theorem chronicle_of_run {as : List (ReplicationAct S)} {u : Replication S} (hok : ∀ a ∈ as, a.succeeds = true)
    (h : run step (init S) as = some u) : Chronicle as u := by
  refine run_history (I := fun as u => (∀ a ∈ as, a.succeeds = true) → Chronicle as u)
    (fun _ => chronicle_init S) (fun bs r a r' hr hinv hs hall => ?_) h hok
  exact step_chronicle hr (hinv fun b hb => hall b (List.mem_append_left _ hb)) (hall a (by simp)) hs

/-! ## What an answer shows -/

/-- What only grows. -/
structure Grows (r r' : Replication S) : Prop where
  commits : r.commits <+: r'.commits
  issued : r.session.client.issued <+: r'.session.client.issued

theorem step_grows {a : ReplicationAct S} (h : r.step a = some r') : Grows r r' where
  commits := by
    cases step_cases h with
    | dropped start hguard => exact List.prefix_append _ _
    | _ => exact List.prefix_refl _
  issued := by
    rcases step_session h with ⟨hsession, -⟩ | ⟨b, hb, -⟩
    · rw [hsession]
    · rcases Session.step_opStep hb with ⟨hissued, -⟩ | ⟨internal, hissued, -⟩
      · rw [hissued]
      · rw [hissued]
        exact List.prefix_append _ _

theorem grows_of_run {bs cs : List (ReplicationAct S)} (hr : run step (init S) bs = some r)
    (h : run step (init S) (bs ++ cs) = some r') : Grows r r' := by
  obtain ⟨s, hs, hrest⟩ := run_append_eq_some.mp h
  rw [hr, Option.some.injEq] at hs
  subst hs
  refine run_invariant (P := fun _ => True) (I := Grows r) (fun s a s' _ hinv hs => ?_) (fun _ _ => trivial)
    ⟨List.prefix_refl _, List.prefix_refl _⟩ hrest
  exact ⟨hinv.commits.trans (step_grows hs).commits, hinv.issued.trans (step_grows hs).issued⟩

/-- On the group, the client has commit `m` of those there are at `r`, and what it does not have is in the channel or
with the tasks. -/
structure ShowsAt (K : Finset (Fin S.fields)) (r v : Replication S) (m : Nat) : Prop where
  commit : ∃ c, r.commits[m]? = some c ∧ ∀ i ∈ K, v.replica i = c i
  lacks : S.listsOn K r.unsaid = S.delta.deltas ((r.commits.map (S.on K)).drop m)
  current : (∀ changes ∈ r.unsaid, S.updatesOn K changes = []) →
    ∀ c, r.commits.getLast? = some c → ∀ i ∈ K, v.replica i = c i

theorem showsAt_of_follows {v : Replication S} {m : Nat} (h : S.delta.Follows (r.commits.map (S.on K))
    (S.on K v.replica) (S.listsOn K r.unsaid) m) : ShowsAt K r v m where
  commit := by
    have hget := h.1
    rw [List.getElem?_map, Option.map_eq_some_iff] at hget
    obtain ⟨c, hc, hon⟩ := hget
    exact ⟨c, hc, fun i hi => (StateStruct.on_eq_iff.mp hon i hi).symm⟩
  lacks := h.2
  current := by
    intro hnone c hlast i hi
    rw [StateStruct.listsOn_eq_nil hnone] at h
    have hcaught := h.caught_up
    rw [List.getLast?_map, hlast, Option.map_some, Option.some.injEq] at hcaught
    exact (StateStruct.on_eq_iff.mp hcaught i hi).symm

/-- On the group, the tasks have the lists from commit `m` on, and those before it have come into the channel. -/
def HandsFrom (K : Finset (Fin S.fields)) (r : Replication S) (m : Nat) : Prop :=
  m < r.commits.length ∧ S.listsOn K r.spawned = S.delta.deltas ((r.commits.map (S.on K)).drop m)

/-- **What the client's state shows with an answer.** The loop takes the answer at `r`, the client reads it at `v`: it
has the commit to which the lists said at `r` lead. That is no earlier than the one to which those lead that were said
or in the channel when the loop took the answer to a call before this one. -/
def Shown (K : Finset (Fin S.fields)) (as : List (ReplicationAct S)) (u : Replication S) (call : Call)
    (output : HandlerResult Bytes) : Prop :=
  ∃ resp r v m, resp.call = call ∧ resp.output = output ∧
    Once (fun bs a => Reads resp v bs a ∧ Once (Takes resp r) bs) as ∧ ShowsAt K r v m ∧
    ∀ issue, u.session.client.issued[call]? = some issue → ∀ earlier ∈ issue.seen,
      ∃ resp' r' m', resp'.call = earlier ∧ Once (fun bs a => Takes resp r bs a ∧ Once (Takes resp' r') bs) as ∧
        HandsFrom K r' m' ∧ m' ≤ m

theorem logged_of_run {as : List (ReplicationAct S)} {u : Replication S} (K : Finset (Fin S.fields))
    (hok : ∀ a ∈ as, a.succeeds = true) (horder : Along step (keepsOrder K) (init S) as)
    (h : run step (init S) as = some u) : Logged K u :=
  run_invariant_along (P := fun u a => a.succeeds = true ∧ u.keepsOrder K a) (I := Logged K)
    (fun _ _ _ ha hinv hs => step_logged hinv ha.1 ha.2 hs) ((Along.of_forall hok).and horder) (logged_init S K) h

/-- What the client has read when it has read what had been said at `r`. -/
theorem Logged.replica_on {v : Replication S} (hv : Logged K v) (hr : Logged K r)
    (hread : v.session.conn.wsRead = r.session.conn.said) :
    S.on K v.replica = (S.listsOn K r.session.conn.saidLists).foldl S.delta.patch (S.on K S.default) := by
  rw [hv.replica, readLists, hread]
  refine LawfulStateStruct.foldl_patch_on S.default fun changes hmem => hr.decodes changes ?_
  rw [lists_eq]
  exact List.mem_append_left _ hmem

theorem Logged.exists_place {v : Replication S} (hv : Logged K v) (hr : Logged K r)
    (hread : v.session.conn.wsRead = r.session.conn.said) :
    ∃ m, ShowsAt K r v m ∧
      ∀ n, S.delta.Follows (r.commits.map (S.on K)) (S.on K v.replica) (S.listsOn K r.unsaid) n → n ≤ m := by
  have hfollows := hr.follows
  rw [lists_eq, StateStruct.listsOn_append] at hfollows
  obtain ⟨m, -, hm⟩ := hfollows.applies
  rw [← hv.replica_on hr hread] at hm
  obtain ⟨last, hlast, hmax⟩ := hm.exists_last
  exact ⟨last, showsAt_of_follows hlast, hmax⟩

/-- A state that has read what was in the channel at `r'` is no further back than what `r'` has sent or is sending. -/
theorem Logged.exists_earlier {v : Replication S} {m : Nat} (hv : Logged K v) (hr : Logged K r) (hr' : Logged K r')
    (hread : v.session.conn.wsRead = r.session.conn.said) (hcommits : r'.commits <+: r.commits)
    (hsaid : r'.session.conn.heardLists <+: r.session.conn.saidLists)
    (hmax : ∀ n, S.delta.Follows (r.commits.map (S.on K)) (S.on K v.replica) (S.listsOn K r.unsaid) n → n ≤ m) :
    ∃ m', HandsFrom K r' m' ∧ m' ≤ m := by
  obtain ⟨more, hmore⟩ := hsaid
  have hfollows := hr.follows
  have hfollows' := hr'.follows
  rw [lists_eq, ← hmore, StateStruct.listsOn_append, StateStruct.listsOn_append] at hfollows
  rw [lists, StateStruct.listsOn_append] at hfollows'
  obtain ⟨m', n, hle, hm', hn⟩ := hfollows'.later (hcommits.map (S.on K)) hfollows
  rw [← StateStruct.listsOn_append, hmore, ← hv.replica_on hr hread] at hn
  refine ⟨m', ⟨?_, hm'.2⟩, hle.trans (hmax n hn)⟩
  have hlt := (List.getElem?_eq_some_iff.mp hm'.1).1
  rwa [List.length_map] at hlt

theorem accepted_of_answer {s : Session S.toStateStruct} (hcons : s.Consistent) {resp : Response}
    (h : s.conn.rpcRx.head? = some resp) : ∃ q ∈ s.conn.accepted, q.call = resp.call := by
  have hin : resp ∈ s.conn.rpcView.answered := List.mem_append_right _ (List.mem_of_mem_head? h)
  have hkey : RpcView.responseKey resp ∈ s.conn.rpcView.accepted.map RpcView.requestKey := by
    rw [hcons.accounted.mem_iff]
    exact List.mem_append_right _ (List.mem_append_left _ (List.mem_map_of_mem hin))
  obtain ⟨q, hq, heq⟩ := List.mem_map.mp hkey
  exact ⟨q, hq, congrArg Prod.snd heq⟩

/-- What waited with the answers before a call has been said when the answer to the call is taken. -/
theorem exists_heard {bs cs : List (ReplicationAct S)} {u : Replication S} (hok : ∀ a ∈ bs, a.succeeds = true)
    (hr : run step (init S) bs = some r) (h : run step (init S) (bs ++ cs) = some u) {resp : Response}
    (hq : r.session.conn.rpcRx.head? = some resp) {issue : Issue}
    (hissue : u.session.client.issued[resp.call]? = some issue) {earlier : Call} (hearlier : earlier ∈ issue.seen) :
    ∃ resp' r', resp'.call = earlier ∧ Once (Takes resp' r') bs ∧
      r'.session.conn.heardLists <+: r.session.conn.saidLists := by
  have hchron := chronicle_of_run hok hr
  obtain ⟨q, hqacc, hqcall⟩ := accepted_of_answer hchron.consistent hq
  obtain ⟨more, hmore⟩ := (grows_of_run hr h).issued
  rw [← hqcall, ← hmore, List.getElem?_append_left (issued_of_accepted hchron.consistent hqacc)] at hissue
  exact hchron.accepted q hqacc issue hissue earlier hearlier

/-- **What the client's state shows with an answer**, in every run in which nothing is lost, on any group of fields
whose order the tasks keep. -/
theorem shown_of_run {as : List (ReplicationAct S)} {u : Replication S} (K : Finset (Fin S.fields))
    (hok : ∀ a ∈ as, a.succeeds = true) (horder : Along step (keepsOrder K) (init S) as)
    (h : run step (init S) as = some u) {call : Call} {output : HandlerResult Bytes}
    (hdone : (call, Completion.output output) ∈ u.session.client.completions) : Shown K as u call output := by
  -- the state after a beginning of the run
  have hlogged : ∀ {bs r}, bs <+: as → run step (init S) bs = some r → Logged K r := by
    rintro bs r ⟨cs, rfl⟩ hr
    exact logged_of_run K (fun a ha => hok a (List.mem_append_left _ ha)) horder.append_left hr
  obtain ⟨resp, r, v, rfl, houtput, hread, honce⟩ := (chronicle_of_run hok h).completed call output hdone
  obtain ⟨cs, a, ds, rfl, hreads, htakes⟩ := id honce
  obtain ⟨bs, b, es, rfl, hb, hr, hq⟩ := htakes
  have hbs : bs <+: bs ++ b :: es ++ a :: ds := ⟨b :: es ++ a :: ds, (List.append_assoc _ _ _).symm⟩
  have hLv := hlogged (List.prefix_append _ _) hreads.2.1
  have hLr := hlogged hbs hr
  obtain ⟨m, hshows, hmax⟩ := hLv.exists_place hLr hread
  refine ⟨resp, r, v, m, rfl, houtput, honce, hshows, fun issue hissue earlier hearlier => ?_⟩
  rw [List.append_assoc] at h
  obtain ⟨resp', r', hown, htakes', hsaid⟩ :=
    exists_heard (fun a ha => hok a (hbs.subset ha)) hr h hq hissue hearlier
  obtain ⟨fs, c, gs, rfl, -, hr', -⟩ := id htakes'
  obtain ⟨m', hhands, hle⟩ := hLv.exists_earlier hLr (hlogged ((List.prefix_append _ _).trans hbs) hr') hread
    (grows_of_run hr' hr).commits hsaid hmax
  refine ⟨resp', r', m', hown, ⟨_, b, es ++ a :: ds, ?_, ⟨hb, hr, hq⟩, htakes'⟩, hhands, hle⟩
  rw [List.append_assoc, List.cons_append]

/-! ## An answer in front of its write -/

/-- The client makes a call, and the loop of a connection with nothing to say accepts it. -/
def callActs (internal : Bytes) : List (ReplicationAct counterState) :=
  [.session (.client (.call internal)), .session (.client .takeRequest), .session (.client (.send .sent)),
    .session (.client .fillSlot), .session (.conn .pollNext), .session (.conn .pollNext), .session (.conn .pollNext),
    .session (.conn .pollNext), .session (.conn (.clientMessage true))]

/-- The handler of the first call writes and returns, and the loop takes the answer first. A second call follows. -/
def lateWriteRun : List (ReplicationAct counterState) :=
  callActs [1] ++
    [.write, .mutate (fun _ => (1 : UInt32)), .drop, .send 0, .session (.conn (.handlerReturns 0 (.ok [10]))),
      .session (.conn .response), .session (.conn (.sendDone true)), .session (.receive true),
      .session (.conn .pollNext), .session (.conn .stateChange), .session (.conn (.sendDone true))] ++
    callActs [2] ++
    [.session (.conn (.handlerReturns 0 (.ok [20]))), .session (.conn .response), .session (.conn (.sendDone true)),
      .session (.receive true), .session (.receive true)]

/-- The first answer comes without the write of its handler, the second one shows it. -/
theorem shown_lateWriteRun : ∃ u, run step (init counterState) lateWriteRun = some u ∧
    (∀ call output, (call, output) ∈ [(0, [10]), (1, [20])] →
      Shown (S := counterState) {⟨0, by decide⟩} lateWriteRun u call (.ok output)) ∧
    (run step (init counterState) (lateWriteRun.take 17)).map (fun v =>
      (v.session.client.answered, v.commits.map counter, counter v.replica)) = some ([0], [0, 1], 0) ∧
    u.session.client.answered = [0, 1] ∧ counter u.replica = 1 := by
  have hrun : (run step (init counterState) lateWriteRun).map (fun u =>
      (u.session.client.completions, u.session.client.answered, counter u.replica)) =
      some ([(0, .output (.ok [10])), (1, .output (.ok [20]))], [0, 1], 1) := rfl
  obtain ⟨u, hu, heq⟩ := Option.map_eq_some_iff.mp hrun
  simp only [Prod.mk.injEq] at heq
  obtain ⟨hdone, hanswered, hreplica⟩ := heq
  refine ⟨u, hu, fun call output hmem => ?_, rfl, hanswered, hreplica⟩
  refine shown_of_run _ (by decide) (by decide) hu ?_
  rw [hdone]
  simpa using hmem

end Replication

end HardLight
