import HardLight.Session.Progress
import HardLight.Session.Grows
import HardLight.Macro.Rpc

/-!
# A session over bytes

What goes over the WebSocket is frames: messages that rkyv has encoded and flate2 has compressed, each end at a level
of its own. Both libraries are parameters, and so is what becomes of a frame that is handed to the WebSocket.

A link is a session with the frames beside its messages. What an end takes from the WebSocket is what its frame
decodes to; the message beside it only lends its history variable.

* `Transport` : the two libraries and the two levels; `Transport.Lawful` : decoding undoes encoding;
* `Link.step` : a step of a session, where frames come and go by their bytes;
* `Carries` : the frames on their way are those of the messages; `step_carries` : a step of a link is a step of its
  session, in which everything decodes;
* `Carried`, `carried_of_run` : a run over bytes is a run over messages.
-/

namespace HardLight
open Lib

/-! ## What is encoded -/

/-- `ClientMessage`, without the history variable of a request. -/
structure ClientMessage where
  id : UInt8
  internal : Bytes

/-- `ServerMessage`, without the history variable of a response. -/
inductive WireMessage
  | rpcResponse (id : UInt8) (output : HandlerResult Bytes)
  | newEvent (topic : Topic) (payload : Bytes)
  | stateChange (changes : List StateUpdate)

namespace ServerMessage

def wire : ServerMessage → WireMessage
  | rpcResponse r => .rpcResponse r.id r.output
  | newEvent topic payload => .newEvent topic payload
  | stateChange changes => .stateChange changes

/-- The history variable, 0 if there is none. -/
def call : ServerMessage → Call
  | rpcResponse r => r.call
  | _ => 0

end ServerMessage

/-- What was decoded, with its history variable. -/
def WireMessage.message (call : Call) : WireMessage → ServerMessage
  | rpcResponse id output => .rpcResponse { id := id, output := output, call := call }
  | newEvent topic payload => .newEvent topic payload
  | stateChange changes => .stateChange changes

theorem ServerMessage.message_wire (msg : ServerMessage) : msg.wire.message msg.call = msg := by
  cases msg <;> rfl

def WsItem.call : WsItem → Call
  | binary (some r) => r.call
  | _ => 0

/-- What `ws_stream.next()` yields, by its bytes. -/
inductive Frame
  | error
  | nonBinary
  | binary (bytes : Bytes)

/-! ## The libraries -/

/-- A `std::io::Write` over a vector. -/
structure Writer where
  State : Type
  writeAll : State → Bytes → Option State
  finish : State → Option Bytes

/-- `DeflateEncoder` and `DeflateDecoder`. -/
structure Flate2 where
  compressor : Writer
  newCompressor : Nat → compressor.State
  decompressor : Writer
  newDecompressor : decompressor.State

namespace Flate2

def inflate (lib : Flate2) (msg : Bytes) : Option Bytes :=
  (lib.decompressor.writeAll lib.newDecompressor msg).bind lib.decompressor.finish

def deflate (lib : Flate2) (msg : Bytes) (level : Nat) : Option Bytes :=
  (lib.compressor.writeAll (lib.newCompressor level) msg).bind lib.compressor.finish

end Flate2

/-- flate2, rkyv for the two types of message, and the levels of the two ends. -/
structure Transport where
  flate2 : Flate2
  clientMessage : Codec ClientMessage
  serverMessage : Codec WireMessage
  clientLevel : Nat
  serverLevel : Nat

namespace Transport

/-- The request branch of the client: the bytes of a message, or why there are none. -/
def encodeRequest (t : Transport) (msg : ClientMessage) : Except SendOutcome Bytes :=
  match t.clientMessage.toBytes msg with
  | none => .error .encodeError
  | some bytes =>
    match t.flate2.deflate bytes t.clientLevel with
    | none => .error .compressError
    | some msg => .ok msg

/-- The background thread of the client message branch of the server. -/
def decodeRequest (t : Transport) (bytes : Bytes) : Option ClientMessage :=
  (t.flate2.inflate bytes).bind t.clientMessage.fromBytes

/-- The background thread of `send_msg`. -/
def encodeMessage (t : Transport) (msg : WireMessage) : Option Bytes :=
  (t.serverMessage.toBytes msg).bind fun bytes => t.flate2.deflate bytes t.serverLevel

/-- The server message branch of the client. -/
def decodeMessage (t : Transport) (bytes : Bytes) : Option WireMessage :=
  (t.flate2.inflate bytes).bind t.serverMessage.fromBytes

/-- What the server takes a frame for. -/
def item (t : Transport) (call : Call) : Frame → WsItem
  | .error => .error
  | .nonBinary => .nonBinary
  | .binary bytes =>
    .binary ((t.decodeRequest bytes).map fun msg => { id := msg.id, internal := msg.internal, call := call })

/-- Inflating undoes deflating, at every level, and decoding undoes encoding. -/
structure Lawful (t : Transport) : Prop where
  inflate_deflate : ∀ level msg bytes, t.flate2.deflate msg level = some bytes → t.flate2.inflate bytes = some msg
  client_decodes : ∀ msg bytes, t.clientMessage.toBytes msg = some bytes → t.clientMessage.fromBytes bytes = some msg
  server_decodes : ∀ msg bytes, t.serverMessage.toBytes msg = some bytes → t.serverMessage.fromBytes bytes = some msg

/-- Nothing fails to be encoded. -/
structure Total (t : Transport) : Prop where
  requests : ∀ msg, ∃ bytes, t.encodeRequest msg = .ok bytes
  messages : ∀ msg, ∃ bytes, t.encodeMessage msg = some bytes

variable {t : Transport}

theorem Lawful.decodeRequest (ht : t.Lawful) {msg : ClientMessage} {bytes : Bytes}
    (h : t.encodeRequest msg = .ok bytes) : t.decodeRequest bytes = some msg := by
  unfold encodeRequest at h
  split at h
  next => cases h
  next encoded hencoded =>
    split at h
    next => cases h
    next deflated hdeflated =>
      cases h
      rw [Transport.decodeRequest, ht.inflate_deflate _ _ _ hdeflated]
      exact ht.client_decodes _ _ hencoded

theorem Lawful.decodeMessage (ht : t.Lawful) {msg : WireMessage} {bytes : Bytes}
    (h : t.encodeMessage msg = some bytes) : t.decodeMessage bytes = some msg := by
  obtain ⟨encoded, hencoded, hdeflated⟩ := Option.bind_eq_some_iff.mp h
  rw [Transport.decodeMessage, ht.inflate_deflate _ _ _ hdeflated]
  exact ht.server_decodes _ _ hencoded

theorem encodeRequest_error {msg : ClientMessage} {outcome : SendOutcome}
    (h : t.encodeRequest msg = .error outcome) : outcome ≠ .sent := by
  unfold encodeRequest at h
  rintro rfl
  split at h
  next => cases h
  next =>
    split at h
    next => cases h
    next => cases h

end Transport

namespace SessionAct

/-- The action hands a frame to the WebSocket or takes one from it. -/
def framed : SessionAct → Bool
  | client (.send _) => true
  | receive _ => true
  | conn (.clientMessage _) => true
  | conn (.sendDone _) => true
  | conn (.peerSend _) => true
  | conn .peerRead => true
  | _ => false

/-- What the action takes from the WebSocket decodes, if it was ever encoded. -/
def decodes : SessionAct → Bool
  | receive decoded => decoded
  | conn (.clientMessage decoded) => decoded
  | _ => true

end SessionAct

/-! ## The link -/

structure Link (S : StateStruct) where
  session : Session S
  /-- The frames of `session.conn.wsIn`. -/
  toServer : List Frame
  /-- The binary frames of `session.conn.wsOut`. -/
  toClient : List Bytes

inductive LinkAct
  /-- The request branch of the client goes on; `sent` is what becomes of `stream.send`, if it comes to that. -/
  | send (sent : Bool)
  | receive
  | clientMessage
  /-- `send_msg` goes on; `sent` is what becomes of `ws_stream.send`, if it comes to that. -/
  | sendDone (sent : Bool)
  /-- A peer that is no client loop sends a frame, or reads one. -/
  | peerSend (frame : Frame)
  | peerRead
  /-- Anything that touches no frame. -/
  | session (a : SessionAct)

def LinkAct.stays : LinkAct → Bool
  | send _ => true
  | receive => true
  | clientMessage => true
  | sendDone sent => sent
  | peerSend _ => true
  | peerRead => true
  | session a => a.stays

namespace Link
variable {S : StateStruct}

def init (S : StateStruct) (shipped : Bool) : Link S where
  session := .init S shipped
  toServer := []
  toClient := []

section Step
variable (t : Transport)

def send (l : Link S) (sent : Bool) : Option (Link S) :=
  match l.session.client.phase with
  | .sending slot _ internal =>
    match t.encodeRequest { id := idOf slot, internal := internal } with
    | .error outcome =>
      (l.session.step (.client (.send outcome))).map fun session => { l with session := session }
    | .ok bytes =>
      if sent then
        (l.session.step (.client (.send .sent))).map fun session =>
          { l with session := session, toServer := l.toServer ++ [.binary bytes] }
      else (l.session.step (.client (.send .sendError))).map fun session => { l with session := session }
  | _ => none

def sendDone (l : Link S) (sent : Bool) : Option (Link S) :=
  match l.session.conn.sending with
  | some msg =>
    match t.encodeMessage msg.wire with
    | some bytes =>
      if sent then
        (l.session.step (.conn (.sendDone true))).map fun session =>
          { l with session := session, toClient := l.toClient ++ [bytes] }
      else (l.session.step (.conn (.sendDone false))).map fun session => { l with session := session }
    | none => (l.session.step (.conn (.sendDone false))).map fun session => { l with session := session }
  | none => none

/-- The session where the server is to take `item`. -/
def offer (s : Session S) (item : WsItem) (rest : List WsItem) : Session S :=
  { s with conn := { s.conn with wsIn := item :: rest } }

/-- The server takes what the frame decodes to. -/
def clientMessage (l : Link S) : Option (Link S) :=
  match l.toServer, l.session.conn.wsIn with
  | frame :: frames, item :: rest =>
    ((offer l.session (t.item item.call frame) rest).step (.conn (.clientMessage true))).map fun session =>
      { l with session := session, toServer := frames }
  | _, _ => none

/-- The session where the client is to take `msg`. -/
def reply (s : Session S) (msg : ServerMessage) (rest : List ServerMessage) : Session S :=
  { s with conn := { s.conn with wsOut := msg :: rest } }

/-- The client takes what the frame decodes to. -/
def receive (l : Link S) : Option (Link S) :=
  match l.toClient, l.session.conn.wsOut with
  | bytes :: frames, msg :: rest =>
    (match t.decodeMessage bytes with
      | some w => (reply l.session (w.message msg.call) rest).step (.receive true)
      | none => l.session.step (.receive false)).map fun session =>
        { l with session := session, toClient := frames }
  | _, _ => none

def step (l : Link S) : LinkAct → Option (Link S)
  | .send sent => l.send t sent
  | .receive => l.receive t
  | .clientMessage => l.clientMessage t
  | .sendDone sent => l.sendDone t sent
  | .peerSend frame => (l.session.step (.conn (.peerSend (t.item 0 frame)))).map fun session =>
      { l with session := session, toServer := l.toServer ++ [frame] }
  | .peerRead => (l.session.step (.conn .peerRead)).map fun session =>
      { l with session := session, toClient := l.toClient.tail }
  | .session a => if a.framed then none else (l.session.step a).map fun session => { l with session := session }

end Step

end Link

/-! ## Frames and messages -/

namespace Conn

theorem step_unframed {k k' : Conn} {a : ConnAct} (ha : (SessionAct.conn a).framed = false)
    (h : k.step a = some k') : k'.wsIn = k.wsIn ∧ k'.wsOut = k.wsOut := by
  cases step_cases h with
  | noRequest => cases ha
  | undecoded => cases ha
  | ignored => cases ha
  | accepted => cases ha
  | sent => cases ha
  | lost => cases ha
  | arrived => cases ha
  | read => cases ha
  | _ => exact ⟨rfl, rfl⟩

theorem step_clientMessage {k k' : Conn} {decoded : Bool} (h : k.step (.clientMessage decoded) = some k') :
    (∃ item, k.wsIn = item :: k'.wsIn) ∧ k'.wsOut = k.wsOut := by
  cases step_cases h with
  | noRequest _ item rest hpolls hq hitem => exact ⟨⟨item, hq⟩, rfl⟩
  | undecoded r rest hpolls hq => exact ⟨⟨_, hq⟩, rfl⟩
  | ignored r rest hpolls hq hbusy => exact ⟨⟨_, hq⟩, rfl⟩
  | accepted r rest hpolls hq hfree => exact ⟨⟨_, hq⟩, rfl⟩

theorem step_sendDone {k k' : Conn} {ok : Bool} (h : k.step (.sendDone ok) = some k') :
    k'.wsIn = k.wsIn ∧ ∃ msg, k.sending = some msg ∧ k'.wsOut = k.wsOut ++ if ok then [msg] else [] := by
  cases step_cases h with
  | sent msg hsending hrun => exact ⟨rfl, msg, hsending, rfl⟩
  | lost msg hsending hrun => exact ⟨rfl, msg, hsending, (List.append_nil _).symm⟩

theorem step_peerSend {k k' : Conn} {item : WsItem} (h : k.step (.peerSend item) = some k') :
    k'.wsIn = k.wsIn ++ [item] ∧ k'.wsOut = k.wsOut := by
  cases step_cases h with
  | arrived _ hopen => exact ⟨rfl, rfl⟩

theorem step_read {k k' : Conn} (h : k.step .peerRead = some k') :
    k'.wsIn = k.wsIn ∧ ∃ msg, k.wsOut = msg :: k'.wsOut := by
  cases step_cases h with
  | read msg rest hq => exact ⟨rfl, msg, hq⟩

end Conn

namespace Session
variable {S : StateStruct}

theorem step_unframed {s s' : Session S} {a : SessionAct} (ha : a.framed = false) (h : s.step a = some s') :
    s'.conn.wsIn = s.conn.wsIn ∧ s'.conn.wsOut = s.conn.wsOut := by
  cases a with
  | client a =>
    obtain ⟨out, hc, -, hk⟩ := step_client h
    have hout : out = none := by
      cases a with
      | send outcome => cases ha
      | _ =>
        obtain ⟨c, -, heq⟩ := Option.map_eq_some_iff.mp hc
        exact (Prod.mk.inj heq).2.symm
    subst hout
    have hsame : s'.conn = s.conn := hk
    rw [hsame]
    exact ⟨rfl, rfl⟩
  | receive decoded => cases ha
  | conn a => exact Conn.step_unframed ha (step_conn h).2.2.2
  | abort => cases h; exact ⟨rfl, rfl⟩

theorem step_send {s s' : Session S} {outcome : SendOutcome} (h : s.step (.client (.send outcome)) = some s') :
    ∃ slot call internal, s.client.phase = .sending slot call internal ∧ s'.conn.wsOut = s.conn.wsOut ∧
      (outcome = .sent ∧ s'.conn.wsIn = s.conn.wsIn ++ [.binary (some ⟨idOf slot, internal, call⟩)] ∨
        outcome ≠ .sent ∧ s'.conn.wsIn = s.conn.wsIn) := by
  obtain ⟨out, hc, -, hk⟩ := step_client h
  obtain ⟨slot, call, internal, hphase, ⟨rfl, heq⟩ | ⟨error, herror, heq⟩⟩ := ClientLoop.onSend_cases hc
  · obtain ⟨-, rfl⟩ := Prod.mk.inj heq
    obtain ⟨hin, hout⟩ := Conn.step_peerSend hk
    exact ⟨slot, call, internal, hphase, hout, Or.inl ⟨rfl, hin⟩⟩
  · obtain ⟨-, rfl⟩ := Prod.mk.inj heq
    have hsame : s'.conn = s.conn := hk
    rw [hsame]
    refine ⟨slot, call, internal, hphase, rfl, Or.inr ⟨?_, rfl⟩⟩
    rintro rfl
    cases herror

end Session

namespace Link
variable {S : StateStruct} {t : Transport}

/-- The frames on their way are those of the messages. -/
structure Carries (t : Transport) (l : Link S) : Prop where
  toServer : List.Forall₂ (fun frame item => t.item item.call frame = item) l.toServer l.session.conn.wsIn
  toClient : List.Forall₂ (fun bytes msg => t.decodeMessage bytes = some msg.wire) l.toClient l.session.conn.wsOut

theorem carries_init (t : Transport) (S : StateStruct) (shipped : Bool) : Carries t (init S shipped) :=
  ⟨.nil, .nil⟩

/-- The action `b` of the session does what the action `a` of the link does to it. -/
structure Answers (t : Transport) (l l' : Link S) (a : LinkAct) (b : SessionAct) : Prop where
  step : l.session.step b = some l'.session
  decodes : b.decodes = true
  stays : t.Total → a.stays = true → b.stays = true
  /-- The client gives a request up before `stream.send` only where a library fails. -/
  send : ∀ outcome, b = .client (.send outcome) → outcome = .sent ∨ outcome = .sendError ∨
    ∃ slot call internal, l.session.client.phase = .sending slot call internal ∧
      t.encodeRequest { id := idOf slot, internal := internal } = .error outcome

theorem send_carries (ht : t.Lawful) {l l' : Link S} {sent : Bool} (hinv : Carries t l)
    (h : l.send t sent = some l') : Carries t l' ∧ ∃ b, Answers t l l' (.send sent) b := by
  unfold send at h
  split at h
  next slot call internal hphase =>
    have hkept : ∀ outcome session, outcome ≠ .sent → l.session.step (.client (.send outcome)) = some session →
        Carries t { l with session := session } := by
      intro outcome session hne hs
      obtain ⟨-, -, -, -, hout, ⟨he, -⟩ | ⟨-, hin⟩⟩ := Session.step_send hs
      · exact absurd he hne
      · exact ⟨hin ▸ hinv.toServer, hout ▸ hinv.toClient⟩
    split at h
    next outcome hencode =>
      obtain ⟨session, hs, rfl⟩ := Option.map_eq_some_iff.mp h
      refine ⟨hkept outcome session (Transport.encodeRequest_error hencode) hs, _, hs, rfl, fun _ _ => rfl, ?_⟩
      rintro outcome' ⟨⟩
      exact Or.inr (Or.inr ⟨slot, call, internal, hphase, hencode⟩)
    next bytes hencode =>
      split at h
      next =>
        obtain ⟨session, hs, rfl⟩ := Option.map_eq_some_iff.mp h
        refine ⟨?_, _, hs, rfl, fun _ _ => rfl, fun outcome he => by cases he; exact Or.inl rfl⟩
        obtain ⟨slot', call', internal', hphase', hout, ⟨-, hin⟩ | ⟨hne, -⟩⟩ := Session.step_send hs
        · rw [hphase] at hphase'
          cases hphase'
          refine ⟨?_, hout ▸ hinv.toClient⟩
          dsimp only
          rw [hin]
          refine List.rel_append hinv.toServer (.cons ?_ .nil)
          rw [Transport.item, ht.decodeRequest hencode]
          rfl
        · exact absurd rfl hne
      next =>
        obtain ⟨session, hs, rfl⟩ := Option.map_eq_some_iff.mp h
        exact ⟨hkept .sendError session (by rintro ⟨⟩) hs, _, hs, rfl, fun _ _ => rfl,
          fun outcome he => by cases he; exact Or.inr (Or.inl rfl)⟩
  next => cases h

theorem sendDone_carries (ht : t.Lawful) {l l' : Link S} {sent : Bool} (hinv : Carries t l)
    (h : l.sendDone t sent = some l') : Carries t l' ∧ ∃ b, Answers t l l' (.sendDone sent) b := by
  unfold sendDone at h
  split at h
  next msg hsending =>
    have hlost : ∀ session, l.session.step (.conn (.sendDone false)) = some session →
        Carries t { l with session := session } := by
      intro session hs
      obtain ⟨hin, msg', -, hout⟩ := Conn.step_sendDone (Session.step_conn hs).2.2.2
      rw [if_neg Bool.false_ne_true, List.append_nil] at hout
      exact ⟨hin ▸ hinv.toServer, hout ▸ hinv.toClient⟩
    split at h
    next bytes hencode =>
      split at h
      next hsent =>
        obtain ⟨session, hs, rfl⟩ := Option.map_eq_some_iff.mp h
        refine ⟨?_, _, hs, rfl, (fun _ _ => rfl), by rintro outcome ⟨⟩⟩
        obtain ⟨hin, msg', hsending', hout⟩ := Conn.step_sendDone (Session.step_conn hs).2.2.2
        rw [hsending] at hsending'
        cases hsending'
        refine ⟨hin ▸ hinv.toServer, ?_⟩
        dsimp only
        rw [hout]
        exact List.rel_append hinv.toClient (.cons (ht.decodeMessage hencode) .nil)
      next hsent =>
        obtain ⟨session, hs, rfl⟩ := Option.map_eq_some_iff.mp h
        exact ⟨hlost session hs, _, hs, rfl, (fun _ hstays => absurd hstays hsent), by rintro outcome ⟨⟩⟩
    next hencode =>
      obtain ⟨session, hs, rfl⟩ := Option.map_eq_some_iff.mp h
      refine ⟨hlost session hs, _, hs, rfl, fun htotal _ => ?_, by rintro outcome ⟨⟩⟩
      obtain ⟨bytes, hbytes⟩ := htotal.messages msg.wire
      rw [hencode] at hbytes
      cases hbytes
  next => cases h

theorem clientMessage_carries {l l' : Link S} (hinv : Carries t l) (h : l.clientMessage t = some l') :
    Carries t l' ∧ ∃ b, Answers t l l' .clientMessage b := by
  unfold clientMessage at h
  split at h
  next frame frames item rest hframes hitems =>
    obtain ⟨session, hs, rfl⟩ := Option.map_eq_some_iff.mp h
    have hto := hinv.toServer
    rw [hframes, hitems] at hto
    cases hto with
    | cons hitem hrest =>
      have hoffer : offer l.session (t.item item.call frame) rest = l.session := by
        rw [hitem, offer, ← hitems]
      rw [hoffer] at hs
      obtain ⟨⟨item', hin⟩, hout⟩ := Conn.step_clientMessage (Session.step_conn hs).2.2.2
      rw [hitems] at hin
      obtain ⟨-, rfl⟩ := List.cons.inj hin
      exact ⟨⟨hrest, hout ▸ hinv.toClient⟩, _, hs, rfl, (fun _ _ => rfl), by rintro outcome ⟨⟩⟩
  next => cases h

theorem receive_carries {l l' : Link S} (hinv : Carries t l) (h : l.receive t = some l') :
    Carries t l' ∧ ∃ b, Answers t l l' .receive b := by
  unfold receive at h
  split at h
  next bytes frames msg rest hframes hmsgs =>
    obtain ⟨session, hs, rfl⟩ := Option.map_eq_some_iff.mp h
    have hto := hinv.toClient
    rw [hframes, hmsgs] at hto
    cases hto with
    | cons hmsg hrest =>
      have hreply : reply l.session (msg.wire.message msg.call) rest = l.session := by
        rw [ServerMessage.message_wire, reply, ← hmsgs]
      simp only [hmsg, hreply] at hs
      obtain ⟨-, -, -, -, -, hk⟩ := Session.step_receive hs
      obtain ⟨hin, msg', hout⟩ := Conn.step_read hk
      rw [hmsgs] at hout
      obtain ⟨-, rfl⟩ := List.cons.inj hout
      exact ⟨⟨hin ▸ hinv.toServer, hrest⟩, _, hs, rfl, (fun _ _ => rfl), by rintro outcome ⟨⟩⟩
  next => cases h

/-- **A step over bytes is a step of the session**, in which what was encoded decodes. -/
theorem step_carries (ht : t.Lawful) {l l' : Link S} {a : LinkAct} (hinv : Carries t l) (h : l.step t a = some l') :
    Carries t l' ∧ ∃ b, Answers t l l' a b := by
  cases a with
  | send sent => exact send_carries ht hinv h
  | receive => exact receive_carries hinv h
  | clientMessage => exact clientMessage_carries hinv h
  | sendDone sent => exact sendDone_carries ht hinv h
  | peerSend frame =>
    obtain ⟨session, hs, rfl⟩ := Option.map_eq_some_iff.mp h
    obtain ⟨hin, hout⟩ := Conn.step_peerSend (Session.step_conn hs).2.2.2
    refine ⟨⟨?_, hout ▸ hinv.toClient⟩, _, hs, rfl, (fun _ _ => rfl), by rintro outcome ⟨⟩⟩
    dsimp only
    rw [hin]
    refine List.rel_append hinv.toServer (.cons ?_ .nil)
    have hcall : (t.item 0 frame).call = 0 := by
      cases frame with
      | binary bytes => rw [Transport.item]; cases t.decodeRequest bytes <;> rfl
      | _ => rfl
    rw [hcall]
  | peerRead =>
    obtain ⟨session, hs, rfl⟩ := Option.map_eq_some_iff.mp h
    obtain ⟨hin, msg, hout⟩ := Conn.step_read (Session.step_conn hs).2.2.2
    have hto := hinv.toClient
    rw [hout] at hto
    obtain ⟨bytes, frames, -, hrest, hframes⟩ := List.forall₂_cons_right_iff.mp hto
    refine ⟨⟨hin ▸ hinv.toServer, ?_⟩, _, hs, rfl, (fun _ _ => rfl), by rintro outcome ⟨⟩⟩
    dsimp only
    rw [hframes]
    exact hrest
  | session a =>
    rw [step, Option.ite_none_left_eq_some, Bool.not_eq_true] at h
    obtain ⟨hframed, h⟩ := h
    obtain ⟨session, hs, rfl⟩ := Option.map_eq_some_iff.mp h
    obtain ⟨hin, hout⟩ := Session.step_unframed hframed hs
    refine ⟨⟨hin ▸ hinv.toServer, hout ▸ hinv.toClient⟩, a, hs, ?_, fun _ hstays => hstays, ?_⟩
    · cases a with
      | receive decoded => cases hframed
      | conn a =>
        cases a with
        | clientMessage decoded => cases hframed
        | _ => rfl
      | _ => rfl
    · rintro outcome rfl
      cases hframed

/-! ## Errors -/

/-- The client has an error of its own for a call because there was no free id or the WebSocket failed, or because
the library failed that the error names. -/
def Honest (t : Transport) (s : Session S) : Prop :=
  ∀ call error, (call, Completion.failed error) ∈ s.client.completions →
    error = .tooManyCallsInFlight ∨ error = .clientNotConnected ∨
      ∃ issue id outcome, s.client.issued[call]? = some issue ∧
        t.encodeRequest { id := id, internal := issue.internal } = .error outcome ∧ outcome.error? = some error

end Link

namespace ClientLoop
variable {S : StateStruct}

theorem mem_complete {c : ClientLoop S} {call call' : Call} {error : RpcHandlerError} {completion : Completion}
    (h : (call, Completion.failed error) ∈ (c.complete call' completion).completions) :
    (call, Completion.failed error) ∈ c.completions ∨ call = call' ∧ Completion.failed error = completion := by
  rcases List.mem_append.mp h with h | h
  · exact Or.inl h
  · exact Or.inr (Prod.mk.inj (List.mem_singleton.mp h))

end ClientLoop

namespace Session
variable {S : StateStruct}

theorem step_error {s s' : Session S} {a : SessionAct} (h : s.step a = some s') {call : Call}
    {error : RpcHandlerError} (hin : (call, Completion.failed error) ∈ s'.client.completions) :
    (call, Completion.failed error) ∈ s.client.completions ∨ error = .tooManyCallsInFlight ∨
      ∃ slot internal outcome, a = .client (.send outcome) ∧ s.client.phase = .sending slot call internal ∧
        outcome.error? = some error := by
  cases a with
  | client a =>
    obtain ⟨out, hc, -, -⟩ := step_client h
    cases a with
    | takeRequest =>
      obtain ⟨c, htake, heq⟩ := Option.map_eq_some_iff.mp hc
      obtain ⟨rfl, -⟩ := Prod.mk.inj heq
      obtain ⟨internal, call', rest, -, -, ⟨slot, -, hc'⟩ | ⟨-, hc'⟩⟩ := ClientLoop.takeRequest_cases htake
      · rw [hc'] at hin
        exact Or.inl hin
      · rw [hc'] at hin
        exact (ClientLoop.mem_complete hin).imp_right fun he => Or.inl (Completion.failed.inj he.2)
    | send outcome =>
      obtain ⟨slot, call', internal, hphase, ⟨-, heq⟩ | ⟨error', herror, heq⟩⟩ := ClientLoop.onSend_cases hc
      · obtain ⟨hc', -⟩ := Prod.mk.inj heq
        rw [hc'] at hin
        exact Or.inl hin
      · obtain ⟨hc', -⟩ := Prod.mk.inj heq
        rw [hc'] at hin
        refine (ClientLoop.mem_complete hin).imp_right ?_
        rintro ⟨rfl, he⟩
        cases he
        exact Or.inr ⟨slot, internal, outcome, rfl, hphase, herror⟩
    | call internal =>
      rw [(step_call h).2.1] at hin
      exact Or.inl hin
    | fillSlot =>
      obtain ⟨c, hfill, heq⟩ := Option.map_eq_some_iff.mp hc
      obtain ⟨rfl, -⟩ := Prod.mk.inj heq
      obtain ⟨slot, call', -, hc'⟩ := ClientLoop.fillSlot_cases hfill
      rw [hc'] at hin
      exact Or.inl hin
    | shutdown =>
      obtain ⟨c, hshut, heq⟩ := Option.map_eq_some_iff.mp hc
      obtain ⟨rfl, -⟩ := Prod.mk.inj heq
      rw [(ClientLoop.shutdown_cases hshut).2] at hin
      exact Or.inl hin
  | receive decoded =>
    obtain ⟨msg, rest, -, -, hc, -⟩ := step_receive h
    exact Or.inl ((ClientLoop.onServerMessage_cases hc).failed hin)
  | conn a =>
    rw [(step_conn h).1] at hin
    exact Or.inl hin
  | abort => cases h; exact Or.inl hin

end Session

namespace Link
variable {S : StateStruct} {t : Transport}

theorem step_honest {s s' : Session S} {b : SessionAct} (hinv : Session.Consistent s) (hhonest : Honest t s)
    (hsend : ∀ outcome, b = .client (.send outcome) → outcome = .sent ∨ outcome = .sendError ∨
      ∃ slot call internal, s.client.phase = .sending slot call internal ∧
        t.encodeRequest { id := idOf slot, internal := internal } = .error outcome)
    (h : s.step b = some s') : Honest t s' := by
  have hissued : s.client.issued <+: s'.client.issued := by
    by_cases hcall : ∃ internal, b = .client (.call internal)
    · obtain ⟨internal, rfl⟩ := hcall
      rw [(Session.step_call h).2.2]
      exact List.prefix_append _ _
    · rw [Session.step_issued h fun internal he => hcall ⟨internal, he⟩]
  have hlookup : ∀ {call : Call} {issue : Issue}, s.client.issued[call]? = some issue →
      s'.client.issued[call]? = some issue := by
    intro call issue hissue
    obtain ⟨new, hnew⟩ := hissued
    rw [← hnew, List.getElem?_append_left (List.getElem?_eq_some_iff.mp hissue).1, hissue]
  intro call error hin
  rcases Session.step_error h hin with hold | hfull | ⟨slot, internal, outcome, rfl, hphase, herror⟩
  · rcases hhonest call error hold with hfull | hlost | ⟨issue, id, outcome, hissue, hencode, herror⟩
    · exact Or.inl hfull
    · exact Or.inr (Or.inl hlost)
    · exact Or.inr (Or.inr ⟨issue, id, outcome, hlookup hissue, hencode, herror⟩)
  · exact Or.inl hfull
  · rcases hsend outcome rfl with rfl | rfl | ⟨slot', call', internal', hphase', hencode⟩
    · cases herror
    · exact Or.inr (Or.inl (Option.some.inj herror).symm)
    · rw [hphase] at hphase'
      cases hphase'
      have hstock : (internal, call) ∈ s.stock := by
        refine List.mem_append_left _ ?_
        rw [ClientLoop.waiting, hphase]
        exact List.mem_append_right _ List.mem_cons_self
      obtain ⟨issue, hissue, rfl⟩ := Option.map_eq_some_iff.mp (hinv.ledger.issued _ hstock)
      exact Or.inr (Or.inr ⟨issue, _, outcome, hlookup hissue, hencode, herror⟩)

/-! ## The property -/

/-- **What goes over as bytes is what goes over as messages.** -/
structure Carried (t : Transport) (shipped : Bool) (as : List LinkAct) (l : Link S) : Prop where
  frames : Carries t l
  /-- The session is in a run of its own in which what was encoded decodes, and in which nothing is lost as long as
  the WebSocket takes every frame and the libraries do not fail. -/
  run : ∃ bs, run Session.step (.init S shipped) bs = some l.session ∧ (∀ b ∈ bs, b.decodes = true) ∧
    (t.Total → (∀ a ∈ as, a.stays = true) → ∀ b ∈ bs, b.stays = true)
  honest : shipped = true → Honest t l.session

/-- **A run over bytes is a run over messages**, whatever the levels of the two ends and whatever the peer sends. -/
theorem carried_of_run {shipped : Bool} {as : List LinkAct} {l : Link S} (ht : t.Lawful)
    (h : Lib.run (step t) (init S shipped) as = some l) : Carried t shipped as l := by
  have hinv : Carries t l ∧ (shipped = true → Session.Consistent l.session ∧ Honest t l.session) ∧
      ∃ bs, Lib.run Session.step (.init S shipped) bs = some l.session ∧ (∀ b ∈ bs, b.decodes = true) ∧
        (t.Total → (∀ a ∈ as, a.stays = true) → ∀ b ∈ bs, b.stays = true) := by
    refine run_history (I := fun as l => Carries t l ∧
      (shipped = true → Session.Consistent l.session ∧ Honest t l.session) ∧
        ∃ bs, Lib.run Session.step (.init S shipped) bs = some l.session ∧ (∀ b ∈ bs, b.decodes = true) ∧
          (t.Total → (∀ a ∈ as, a.stays = true) → ∀ b ∈ bs, b.stays = true)) ?_ ?_ h
    · refine ⟨carries_init t S shipped, ?_, [], rfl, by simp, by simp⟩
      rintro rfl
      exact ⟨Session.consistent_init S, fun call error hin => by cases hin⟩
    · rintro as l a l' - ⟨hcarries, hship, bs, hbs, hdecodes, hstays⟩ hs
      obtain ⟨hcarries', b, hb⟩ := step_carries ht hcarries hs
      refine ⟨hcarries', fun hs => ?_, bs ++ [b], run_concat_eq_some.mpr ⟨_, hbs, hb.step⟩, ?_, ?_⟩
      · obtain ⟨hconsistent, hhonest⟩ := hship hs
        exact ⟨Session.step_consistent hconsistent hb.step, step_honest hconsistent hhonest hb.send hb.step⟩
      · simpa [or_imp, forall_and] using ⟨hdecodes, hb.decodes⟩
      · intro htotal hall
        simp only [List.mem_append, List.mem_singleton, or_imp, forall_and, forall_eq] at hall ⊢
        exact ⟨hstays htotal hall.1, hb.stays htotal hall.2⟩
  exact ⟨hinv.1, hinv.2.2, fun hs => (hinv.2.1 hs).2⟩

end Link

/-! ## Stored blocks

At level 0 deflate stores: one block with its length and the complement of it. rkyv puts the bytes of a vector first,
then, aligned to 4, the value with a pointer to them, relative to itself, and their number. -/

def leBytes (width n : Nat) : Bytes := (List.range width).map fun i => UInt8.ofNat (n / 256 ^ i)

def ofLeBytes (bytes : Bytes) : Nat := bytes.foldr (fun b n => b.toNat + 256 * n) 0

theorem ofLeBytes_leBytes (width : Nat) {n : Nat} (h : n < 256 ^ width) : ofLeBytes (leBytes width n) = n := by
  induction width generalizing n with
  | zero => rw [Nat.lt_one_iff.mp h]; rfl
  | succ width ih =>
    have htail : leBytes (width + 1) n = UInt8.ofNat n :: leBytes width (n / 256) := by
      simp [leBytes, List.range_succ_eq_map, Nat.div_div_eq_div_mul, pow_succ, Nat.mul_comm]
    have hdiv : n / 256 < 256 ^ width := by
      rw [Nat.div_lt_iff_lt_mul (by decide), ← pow_succ]
      exact h
    rw [htail, ofLeBytes, List.foldr_cons]
    show (UInt8.ofNat n).toNat + 256 * ofLeBytes (leBytes width (n / 256)) = n
    rw [ih hdiv, UInt8.toNat_ofNat']
    exact Nat.mod_add_div n 256

theorem length_leBytes (width n : Nat) : (leBytes width n).length = width := by simp [leBytes]

def storeBlock (msg : Bytes) : Option Bytes :=
  if msg.length < 65536 then some (1 :: (leBytes 2 msg.length ++ (leBytes 2 (65535 - msg.length) ++ msg))) else none

def loadBlock : Bytes → Option Bytes
  | 1 :: rest =>
    let msg := rest.drop 4
    if storeBlock msg = some (1 :: rest) then some msg else none
  | _ => none

theorem loadBlock_storeBlock {msg bytes : Bytes} (h : storeBlock msg = some bytes) : loadBlock bytes = some msg := by
  have hstore := h
  rw [storeBlock, Option.ite_none_right_eq_some] at h
  obtain ⟨-, h⟩ := h
  cases h
  have hdrop : (leBytes 2 msg.length ++ (leBytes 2 (65535 - msg.length) ++ msg)).drop 4 = msg := by
    rw [← List.append_assoc, List.drop_left' (by simp [length_leBytes])]
  rw [loadBlock, hdrop, if_pos hstore]

/-- A vector, and the value that it is in: `head` comes before the pointer, `tail` after the length. -/
def archive (head tail data : Bytes) : Bytes :=
  let pos := (data.length + 3) / 4 * 4
  data ++ (List.replicate (pos - data.length) 0 ++ (head ++ leBytes 4 (4294967296 - (pos + head.length)))) ++
    (leBytes 4 data.length ++ tail)

/-- The vector of an archived value, with `tail` bytes after its length. -/
def archived (tail : Nat) (bytes : Bytes) : Bytes :=
  bytes.take (ofLeBytes ((bytes.drop (bytes.length - (4 + tail))).take 4))

theorem archived_archive (head tail : Bytes) {data : Bytes} (h : data.length < 256 ^ 4) :
    archived tail.length (archive head tail data) = data := by
  have hsplit : ∀ front : Bytes, (data ++ front ++ (leBytes 4 data.length ++ tail)).drop
      ((data ++ front ++ (leBytes 4 data.length ++ tail)).length - (4 + tail.length)) =
        leBytes 4 data.length ++ tail := by
    intro front
    refine List.drop_left' ?_
    simp only [List.length_append, length_leBytes]
    omega
  rw [archived, archive, hsplit, List.take_left' (length_leBytes 4 _), ofLeBytes_leBytes 4 h, List.append_assoc,
    List.take_left' rfl]

/-- The last `size` bytes: the value. -/
def rootOf (size : Nat) (bytes : Bytes) : Bytes := bytes.drop (bytes.length - size)

theorem rootOf_archive (head tail data : Bytes) :
    ∃ rest, rootOf (head.length + 8 + tail.length) (archive head tail data) = head ++ rest := by
  refine ⟨leBytes 4 (4294967296 - ((data.length + 3) / 4 * 4 + head.length)) ++ (leBytes 4 data.length ++ tail), ?_⟩
  have hsplit : archive head tail data =
      (data ++ List.replicate ((data.length + 3) / 4 * 4 - data.length) 0) ++
        (head ++ (leBytes 4 (4294967296 - ((data.length + 3) / 4 * 4 + head.length)) ++
          (leBytes 4 data.length ++ tail))) := by
    simp only [archive, List.append_assoc]
  rw [rootOf, hsplit]
  refine List.drop_left' ?_
  simp only [List.length_append, length_leBytes]
  omega

/-- Decodes what `encode` makes of what is found in the bytes. -/
def storedCodec {α : Type} (encode : α → Option Bytes) (found : Bytes → Option α) : Codec α where
  toBytes := encode
  fromBytes bytes := (found bytes).filter fun x => decide (encode x = some bytes)

theorem storedCodec_decodes {α : Type} {encode : α → Option Bytes} {found : Bytes → Option α} {x : α} {bytes : Bytes}
    (hfound : found bytes = some x) (h : encode x = some bytes) :
    (storedCodec encode found).fromBytes bytes = some x := by
  simp [storedCodec, hfound, h]

def storedRequest (msg : ClientMessage) : Option Bytes :=
  if msg.internal.length < 256 ^ 3 then some (archive [0, msg.id, 0, 0] [] msg.internal) else none

/-- An `Ok` response; the other messages do not occur below. -/
def storedResponse : WireMessage → Option Bytes
  | .rpcResponse id (.ok output) =>
    if output.length < 256 ^ 3 then some (archive [0, id, 0, 0, 0, 0, 0, 0] (List.replicate 8 0) output) else none
  | _ => none

def storedTransport : Transport where
  flate2 := {
    compressor := { State := Bytes, writeAll := fun written msg => some (written ++ msg), finish := storeBlock }
    newCompressor := fun _ => []
    decompressor := { State := Bytes, writeAll := fun written msg => some (written ++ msg), finish := loadBlock }
    newDecompressor := [] }
  clientMessage := storedCodec storedRequest fun bytes =>
    (rootOf 12 bytes)[1]?.map fun id => { id := id, internal := archived 0 bytes }
  serverMessage := storedCodec storedResponse fun bytes =>
    (rootOf 24 bytes)[1]?.map fun id => .rpcResponse id (.ok (archived 8 bytes))
  clientLevel := 0
  serverLevel := 0

theorem lawful_storedTransport : storedTransport.Lawful where
  inflate_deflate level msg bytes h := loadBlock_storeBlock h
  client_decodes msg bytes h := by
    refine storedCodec_decodes ?_ h
    obtain ⟨hsize, heq⟩ := Option.ite_none_right_eq_some.mp (show storedRequest msg = some bytes from h)
    cases heq
    obtain ⟨rest, hroot⟩ := rootOf_archive [0, msg.id, 0, 0] [] msg.internal
    have hdata := archived_archive [0, msg.id, 0, 0] [] (show msg.internal.length < 256 ^ 4 by omega)
    rw [show rootOf 12 _ = _ from hroot, show archived 0 _ = _ from hdata]
    rfl
  server_decodes msg bytes h := by
    refine storedCodec_decodes ?_ h
    replace h : storedResponse msg = some bytes := h
    unfold storedResponse at h
    split at h
    next id output =>
      obtain ⟨hsize, heq⟩ := Option.ite_none_right_eq_some.mp h
      cases heq
      obtain ⟨rest, hroot⟩ := rootOf_archive [0, id, 0, 0, 0, 0, 0, 0] (List.replicate 8 0) output
      have hdata := archived_archive [0, id, 0, 0, 0, 0, 0, 0] (List.replicate 8 0)
        (show output.length < 256 ^ 4 by omega)
      rw [show rootOf 24 _ = _ from hroot, show archived 8 _ = _ from hdata]
      rfl
    next => cases h

example : storedTransport.encodeRequest { id := 0, internal := [5] } =
    .ok [1, 16, 0, 239, 255, 5, 0, 0, 0, 0, 0, 0, 0, 248, 255, 255, 255, 1, 0, 0, 0] := rfl

/-- A call and its answer. -/
def storedCall : List LinkAct :=
  [.session (.client (.call [5])), .session (.client .takeRequest), .send true, .session (.client .fillSlot),
    .session (.conn .pollNext), .session (.conn .pollNext), .session (.conn .pollNext), .session (.conn .pollNext),
    .clientMessage, .session (.conn (.handlerReturns 0 (.ok [7]))), .session (.conn .response), .sendDone true]

theorem Link.carried_storedCall :
    ∃ l, run (step storedTransport) (init counterState.toStateStruct true) (storedCall ++ [.receive]) = some l ∧
      l.session.client.answered = [0] ∧ Carried storedTransport true (storedCall ++ [.receive]) l := by
  have hrun : (run (step storedTransport) (init counterState.toStateStruct true) (storedCall ++ [.receive])).map
      (fun l => l.session.client.answered) = some [0] := rfl
  obtain ⟨l, hl, hanswered⟩ := Option.map_eq_some_iff.mp hrun
  exact ⟨l, hl, hanswered, carried_of_run lawful_storedTransport hl⟩

end HardLight
