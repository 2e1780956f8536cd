import HardLight.Session.Basic

/-!
# The handshake

The tasks of the two ends from their start, with the loops of `Conn` and `ClientLoop` as their last phase.
The server's side of the WebSocket handshake is tungstenite's, which asks `callback`; `Tungstenite` is what
is known of it. The peer of either end may be anything.

* `HeaderMap`, `parseU8`, `compressionOf` : what is read of a request's headers;
* `callback`, `checkResponse` : what the two ends make of the version they are given;
* `ServerTask`, `Passed`, `passed_of_run` : the server's task enters its loop after any request that
  tungstenite has an answer to;
* `ClientTask`, `clientGate_of_run` : the client enters its loop after a response with its own version only;
* `versionGate_iff` : the version gate, over every run of both ends.
-/

namespace HardLight
open Lib

/-! ## Headers -/

/-- The name of a header. Case makes no difference to it. -/
inductive HeaderName
  | secWebSocketProtocol
  | xHlCompress
  | other (name : String)
  deriving DecidableEq, Repr

abbrev HeaderValue := Bytes

/-- Headers with their values, in the order in which they were put in. -/
abbrev HeaderMap := List (HeaderName × HeaderValue)

namespace HeaderMap

/-- The first value of a header. -/
def get (headers : HeaderMap) (name : HeaderName) : Option HeaderValue :=
  (headers.find? fun h => decide (h.1 = name)).map Prod.snd

def append (headers : HeaderMap) (name : HeaderName) (value : HeaderValue) : HeaderMap :=
  headers ++ [(name, value)]

theorem get_append (headers : HeaderMap) (name name' : HeaderName) (value : HeaderValue) :
    (headers.append name value).get name' =
      (headers.get name').or (if name = name' then some value else none) := by
  rw [append, get, get, List.find?_append]
  by_cases hn : name = name' <;> cases headers.find? fun h => decide (h.1 = name') <;> simp [hn]

end HeaderMap

def ascii (text : String) : Bytes := text.toList.map fun c => c.toNat.toUInt8

/-- `HeaderValue::to_str`: visible ASCII and tabs only. -/
def HeaderValue.toStr (value : HeaderValue) : Option Bytes :=
  if value.all fun b => decide (32 ≤ b ∧ b < 127 ∨ b = 9) then some value else none

/-- One digit of `u8::from_str`; a number above 255 is an error. -/
def pushDigit (n : Nat) (b : UInt8) : Option Nat :=
  if 48 ≤ b ∧ b ≤ 57 then
    let n := n * 10 + (b.toNat - 48)
    if n ≤ 255 then some n else none
  else none

/-- `str::parse::<u8>`: digits, with a `+` or without one before them. -/
def parseU8 (text : Bytes) : Option Nat :=
  match text with
  | [] => none
  | [43] => none
  | 43 :: digits => digits.foldlM pushDigit 0
  | digits => digits.foldlM pushDigit 0

/-- `Compression::default().level()` -/
def defaultLevel : Nat := 6

/-- The compression level that `callback` settles on. -/
def compressionOf (headers : HeaderMap) : Nat :=
  ((((headers.get .xHlCompress).bind HeaderValue.toStr).bind parseU8).filter fun c => c ≤ 9).getD defaultLevel

/-- The value of a header with a level in it. -/
def levelValue (level : Nat) : HeaderValue := ascii level.repr

/-- The level is always one that `Compression` has. -/
theorem compressionOf_le (headers : HeaderMap) : compressionOf headers ≤ 9 := by
  unfold compressionOf
  cases h : (((headers.get .xHlCompress).bind HeaderValue.toStr).bind parseU8).filter fun c => c ≤ 9 with
  | none => decide
  | some c =>
    rw [Option.filter_eq_some_iff] at h
    simpa using h.2

structure HttpRequest where
  headers : HeaderMap
  deriving DecidableEq, Repr

structure HttpResponse where
  status : Nat
  headers : HeaderMap
  deriving DecidableEq, Repr

/-- `StatusCode::BAD_REQUEST` -/
def badRequest : Nat := 400

/-! ## The two checks -/

/-- The request asks for the server's version. -/
def Matches (version : HeaderValue) (req : HttpRequest) : Prop :=
  req.headers.get .secWebSocketProtocol = some version

instance (version : HeaderValue) (req : HttpRequest) : Decidable (Matches version req) :=
  inferInstanceAs (Decidable (_ = _))

/-- The callback of `spawn_connection_handler`. It returns `Ok` whatever the version is. -/
def callback (version : HeaderValue) (req : HttpRequest) (response : HttpResponse) :
    Except HttpResponse HttpResponse :=
  let response :=
    match req.headers.get .secWebSocketProtocol with
    | some reqVersion =>
      if reqVersion = version then
        { response with headers := response.headers.append .secWebSocketProtocol version }
      else { response with status := badRequest }
    | none => { response with status := badRequest }
  .ok { response with
    headers := response.headers.append .xHlCompress (levelValue (compressionOf req.headers)) }

inductive ConnectError
  /-- `connect_async_tls_with_config` failed. -/
  | connect
  | handshakeIncomplete
  deriving DecidableEq, Repr

/-- The check of `Client::connect`. -/
def checkResponse (version : HeaderValue) (response : HttpResponse) : Except ConnectError Unit :=
  match response.headers.get .secWebSocketProtocol with
  | some protocol => if protocol = version then .ok () else .error .handshakeIncomplete
  | none => .error .handshakeIncomplete

/-- The request of `Client::connect`; `key` is what `generate_key` has drawn for it. -/
def connectRequest (host key version : HeaderValue) (level : Nat) : HttpRequest where
  headers := [(.other "host", host), (.other "connection", ascii "Upgrade"), (.other "upgrade", ascii "websocket"),
    (.other "sec-websocket-version", ascii "13"), (.other "sec-websocket-key", key),
    (.secWebSocketProtocol, version), (.xHlCompress, levelValue level)]

theorem connectRequest_protocol (host key version : HeaderValue) (level : Nat) :
    (connectRequest host key version level).headers.get .secWebSocketProtocol = some version := rfl

theorem connectRequest_compress (host key version : HeaderValue) (level : Nat) :
    (connectRequest host key version level).headers.get .xHlCompress = some (levelValue level) := rfl

theorem checkResponse_ok_iff {version : HeaderValue} {response : HttpResponse} :
    checkResponse version response = .ok () ↔
      response.headers.get .secWebSocketProtocol = some version := by
  unfold checkResponse
  split
  next protocol h =>
    rw [h, Option.some.injEq]
    split
    next heq => exact iff_of_true rfl heq
    next hne => exact iff_of_false (by simp) hne
  next h => rw [h]; exact iff_of_false (by simp) (by simp)

theorem callback_version (version : HeaderValue) (req : HttpRequest) {response : HttpResponse}
    (hnone : response.headers.get .secWebSocketProtocol = none) :
    ∃ answer, callback version req response = .ok answer ∧
      answer.headers.get .secWebSocketProtocol = if Matches version req then some version else none := by
  unfold callback Matches
  split
  next reqVersion h =>
    split
    next heq => exact ⟨_, rfl, by simp [HeaderMap.get_append, hnone, h, heq]⟩
    next hne => exact ⟨_, rfl, by simp [HeaderMap.get_append, hnone, h, hne]⟩
  next h => exact ⟨_, rfl, by simp [HeaderMap.get_append, hnone, h]⟩

/-- **A client gets past its check at this server exactly when it has the server's version.** -/
theorem connect_iff {host key version clientVersion : HeaderValue} {level : Nat} {response : HttpResponse}
    (hnone : response.headers.get .secWebSocketProtocol = none) :
    (∃ answer, callback version (connectRequest host key clientVersion level) response = .ok answer ∧
      checkResponse clientVersion answer = .ok ()) ↔ clientVersion = version := by
  obtain ⟨answer, hanswer, hget⟩ := callback_version version (connectRequest host key clientVersion level) hnone
  have hmatches : Matches version (connectRequest host key clientVersion level) ↔ clientVersion = version := by
    rw [Matches, connectRequest_protocol, Option.some.injEq]
  rw [← hmatches]
  constructor
  · rintro ⟨answer', hanswer', hcheck⟩
    rw [hanswer] at hanswer'
    cases hanswer'
    rw [checkResponse_ok_iff, hget] at hcheck
    split at hcheck
    next hm => exact hm
    next => cases hcheck
  · intro hm
    refine ⟨answer, hanswer, checkResponse_ok_iff.mpr ?_⟩
    rw [hget, if_pos hm, hmatches.mp hm]

/-! ## The server's task -/

/-- What is known of tungstenite: `accept_hdr_async` makes up a response to a request, if it is a
WebSocket upgrade at all, and lets the callback decide between `Ok` and `Err`. The status of the response
makes no difference. -/
structure Tungstenite where
  createResponse : HttpRequest → Option HttpResponse
  acceptHdr : (HttpRequest → HttpResponse → Except HttpResponse HttpResponse) → HttpRequest →
    Option HttpResponse
  acceptHdr_eq : ∀ callback req,
    acceptHdr callback req = (createResponse req).bind fun response => (callback req response).toOption

inductive ServerPhase
  | tls
  | upgrade
  /-- The loop, with the compression level of its messages. -/
  | rpc (compression : Nat) (conn : Conn)
  | returned

/-- The task of `spawn_connection_handler`. `request` is the request it has read, `response` the one written. -/
structure ServerTask where
  phase : ServerPhase
  request : Option HttpRequest
  response : Option HttpResponse

inductive ServerTaskAct
  | tlsAccept (ok : Bool)
  /-- `accept_hdr_async` has read the peer's request. -/
  | upgrade (req : HttpRequest)
  /-- The peer sends no request, or goes away before the response is written. -/
  | upgradeFails
  | conn (a : ConnAct)

namespace ServerTask

def init : ServerTask := { phase := .tls, request := none, response := none }

def step (lib : Tungstenite) (version : HeaderValue) (task : ServerTask) : ServerTaskAct → Option ServerTask
  | .tlsAccept ok =>
    match task.phase with
    | .tls => some { task with phase := if ok then .upgrade else .returned }
    | _ => none
  | .upgrade req =>
    match task.phase with
    | .upgrade =>
      match lib.acceptHdr (callback version) req with
      | some response => some
          { phase := .rpc (compressionOf req.headers) .init, request := some req, response := some response }
      | none => some { task with phase := .returned, request := some req }
    | _ => none
  | .upgradeFails =>
    match task.phase with
    | .upgrade => some { task with phase := .returned }
    | _ => none
  | .conn a =>
    match task.phase with
    | .rpc compression conn => (conn.step a).map fun conn => { task with phase := .rpc compression conn }
    | _ => none

/-- The requests for which a handler task was spawned. -/
def accepted (task : ServerTask) : List Request :=
  match task.phase with
  | .rpc _ conn => conn.accepted
  | _ => []

/-- The messages sent to the peer. -/
def sent (task : ServerTask) : List ServerMessage :=
  match task.phase with
  | .rpc _ conn => conn.wsRead ++ conn.wsOut
  | _ => []

end ServerTask

namespace Tungstenite

/-- The callback of the server refuses no request. -/
theorem acceptHdr_callback (lib : Tungstenite) (version : HeaderValue) (req : HttpRequest) :
    lib.acceptHdr (callback version) req = none ↔ lib.createResponse req = none := by
  rw [lib.acceptHdr_eq]
  cases lib.createResponse req with
  | none => exact iff_of_true rfl rfl
  | some response => exact iff_of_false (by simp [callback, Except.toOption]) (by simp)

end Tungstenite

/-- Where the task is after the actions `as`: in its loop exactly after a request that tungstenite has
an answer to. -/
structure Passed (lib : Tungstenite) (as : List ServerTaskAct) (task : ServerTask) : Prop where
  waiting : task.phase = .tls ∨ task.phase = .upgrade → ∀ req, .upgrade req ∉ as
  rpc : ∀ compression conn, task.phase = .rpc compression conn →
    ∃ req, task.request = some req ∧ lib.createResponse req ≠ none ∧
      ∀ req', .upgrade req' ∈ as ↔ req' = req
  returned : task.phase = .returned → ∀ req, .upgrade req ∈ as → lib.createResponse req = none

theorem passed_init (lib : Tungstenite) : Passed lib [] .init where
  waiting _ req hin := by cases hin
  rpc compression conn h := by cases h
  returned h := by cases h

theorem step_passed {lib : Tungstenite} {version : HeaderValue} {as : List ServerTaskAct}
    {task task' : ServerTask} {a : ServerTaskAct} (hinv : Passed lib as task)
    (h : task.step lib version a = some task') : Passed lib (as ++ [a]) task' := by
  cases a with
  | tlsAccept ok =>
    simp only [ServerTask.step] at h
    split at h
    next hphase =>
      cases h
      have hnone := hinv.waiting (Or.inl hphase)
      refine ⟨fun _ req => by simp [hnone], fun compression conn hrpc => ?_, fun _ req => by simp [hnone]⟩
      cases ok <;> cases hrpc
    next => cases h
  | upgrade req =>
    simp only [ServerTask.step] at h
    split at h
    next hphase =>
      have hnone := hinv.waiting (Or.inr hphase)
      have hone : ∀ req', ServerTaskAct.upgrade req' ∈ as ++ [.upgrade req] ↔ req' = req := by
        intro req'
        simp [hnone]
      split at h
      next response hresponse =>
        cases h
        refine ⟨fun hw => ?_, fun compression conn _ => ⟨req, rfl, fun hno => ?_, hone⟩, fun hr => by cases hr⟩
        · rcases hw with hw | hw <;> cases hw
        · rw [(lib.acceptHdr_callback version req).mpr hno] at hresponse
          cases hresponse
      next hresponse =>
        cases h
        refine ⟨fun hw => ?_, (fun compression conn hrpc => by cases hrpc), fun _ req' hin => ?_⟩
        · rcases hw with hw | hw <;> cases hw
        · rw [(hone req').mp hin]
          exact (lib.acceptHdr_callback version req).mp hresponse
    next => cases h
  | upgradeFails =>
    simp only [ServerTask.step] at h
    split at h
    next hphase =>
      cases h
      have hnone := hinv.waiting (Or.inr hphase)
      exact ⟨fun _ req => by simp [hnone], (fun compression conn hrpc => by cases hrpc),
        fun _ req => by simp [hnone]⟩
    next => cases h
  | conn a =>
    simp only [ServerTask.step] at h
    split at h
    next compression conn hphase =>
      rw [Option.map_eq_some_iff] at h
      obtain ⟨conn', -, rfl⟩ := h
      obtain ⟨req, hreq, hsome, hone⟩ := hinv.rpc compression conn hphase
      refine ⟨fun hw => ?_, fun _ _ _ => ⟨req, hreq, hsome, fun req' => by simp [hone]⟩, fun hr => by cases hr⟩
      rcases hw with hw | hw <;> cases hw
    next => cases h

/-- **The server's task takes any request that tungstenite has an answer to.** -/
theorem passed_of_run {lib : Tungstenite} {version : HeaderValue} {as : List ServerTaskAct}
    {task : ServerTask} (h : run (ServerTask.step lib version) .init as = some task) : Passed lib as task :=
  run_history (I := Passed lib) (passed_init lib) (fun _ _ _ _ _ hinv hs => step_passed hinv hs) h

/-! ## The client's task -/

section Client
variable {S : StateStruct}

inductive ClientTaskPhase (S : StateStruct)
  | connecting
  | rpc (loop : ClientLoop S)
  | failed (error : ConnectError)
  | panicked

/-- `Client::connect`. `response` is the response it has read. -/
structure ClientTask (S : StateStruct) where
  phase : ClientTaskPhase S
  response : Option HttpResponse

inductive ClientTaskAct
  | connectFails
  /-- `listening` is false when the application has dropped the receiver of the control channels. -/
  | connected (response : HttpResponse) (listening : Bool)
  | loop (a : ClientAct)
  | receive (msg : Option ServerMessage)

namespace ClientTask

def init : ClientTask S := { phase := .connecting, response := none }

def step (version : HeaderValue) (task : ClientTask S) : ClientTaskAct → Option (ClientTask S)
  | .connectFails =>
    match task.phase with
    | .connecting => some { task with phase := .failed .connect }
    | _ => none
  | .connected response listening =>
    match task.phase with
    | .connecting =>
      match checkResponse version response with
      | .ok () => some
          { phase := if listening then .rpc (.init S) else .panicked, response := some response }
      | .error error => some { phase := .failed error, response := some response }
    | _ => none
  | .loop a =>
    match task.phase with
    | .rpc loop => (loop.step a).map fun out => { task with phase := .rpc out.1 }
    | _ => none
  | .receive msg =>
    match task.phase with
    | .rpc loop => (loop.onServerMessage msg).map fun loop => { task with phase := .rpc loop }
    | _ => none

end ClientTask

/-- The client is in its loop after a response with its version only. -/
def ClientGate (version : HeaderValue) (task : ClientTask S) : Prop :=
  ∀ loop, task.phase = .rpc loop →
    ∃ response, task.response = some response ∧ response.headers.get .secWebSocketProtocol = some version

theorem step_clientGate {version : HeaderValue} {task task' : ClientTask S} {a : ClientTaskAct}
    (hinv : ClientGate version task) (h : task.step version a = some task') : ClientGate version task' := by
  intro loop hphase
  cases a with
  | connectFails =>
    simp only [ClientTask.step] at h
    split at h
    · cases h; cases hphase
    · cases h
  | connected response listening =>
    simp only [ClientTask.step] at h
    split at h
    · split at h
      next hcheck => cases h; exact ⟨response, rfl, checkResponse_ok_iff.mp hcheck⟩
      next => cases h; cases hphase
    · cases h
  | loop a =>
    simp only [ClientTask.step] at h
    split at h
    next hold =>
      rw [Option.map_eq_some_iff] at h
      obtain ⟨out, -, rfl⟩ := h
      exact hinv _ hold
    next => cases h
  | receive msg =>
    simp only [ClientTask.step] at h
    split at h
    next hold =>
      rw [Option.map_eq_some_iff] at h
      obtain ⟨out, -, rfl⟩ := h
      exact hinv _ hold
    next => cases h

/-- **The client's gate holds**, whatever is at the other end. -/
theorem clientGate_of_run {version : HeaderValue} {as : List ClientTaskAct} {task : ClientTask S}
    (h : run (ClientTask.step version) .init as = some task) : ClientGate version task :=
  run_invariant (P := fun _ => True) (fun _ _ _ _ hinv hs => step_clientGate hinv hs) (fun _ _ => trivial)
    (fun loop hphase => by cases hphase) h

/-! ## The version gate -/

/-- **The version gate**, for both ends. -/
structure VersionGate (version clientVersion : HeaderValue) (server : ServerTask) (client : ClientTask S) :
    Prop where
  server_loop : ∀ compression conn, server.phase = .rpc compression conn →
    ∃ req, server.request = some req ∧ Matches version req
  /-- No handler is invoked and nothing is sent otherwise. -/
  server_acts : server.accepted ≠ [] ∨ server.sent ≠ [] →
    ∃ req, server.request = some req ∧ Matches version req
  client_loop : ClientGate clientVersion client

theorem ServerTask.rpc_of_acts {task : ServerTask} (h : task.accepted ≠ [] ∨ task.sent ≠ []) :
    ∃ compression conn, task.phase = .rpc compression conn := by
  unfold accepted sent at h
  cases hphase : task.phase with
  | rpc compression conn => exact ⟨compression, conn, rfl⟩
  | _ => simp [hphase] at h

/-- **The gate holds exactly when every request that gets an answer has the server's version.** -/
theorem versionGate_iff {lib : Tungstenite} {version clientVersion : HeaderValue} {as : List ServerTaskAct}
    {bs : List ClientTaskAct} {server : ServerTask} {client : ClientTask S}
    (hserver : run (ServerTask.step lib version) .init as = some server)
    (hclient : run (ClientTask.step clientVersion) .init bs = some client) :
    VersionGate version clientVersion server client ↔
      ∀ req, .upgrade req ∈ as → Matches version req ∨ lib.createResponse req = none := by
  have hpassed := passed_of_run hserver
  constructor
  · intro hgate req hin
    cases hphase : server.phase with
    | tls => exact absurd hin (hpassed.waiting (Or.inl hphase) req)
    | upgrade => exact absurd hin (hpassed.waiting (Or.inr hphase) req)
    | rpc compression conn =>
      obtain ⟨req', hreq', -, hone⟩ := hpassed.rpc compression conn hphase
      obtain ⟨req'', hreq'', hmatches⟩ := hgate.server_loop compression conn hphase
      rw [hreq', Option.some.injEq] at hreq''
      rw [(hone req).mp hin, hreq'']
      exact Or.inl hmatches
    | returned => exact Or.inr (hpassed.returned hphase req hin)
  · intro hall
    have hloop : ∀ compression conn, server.phase = .rpc compression conn →
        ∃ req, server.request = some req ∧ Matches version req := by
      intro compression conn hphase
      obtain ⟨req, hreq, hsome, hone⟩ := hpassed.rpc compression conn hphase
      exact ⟨req, hreq, (hall req ((hone req).mpr rfl)).resolve_right hsome⟩
    refine ⟨hloop, fun hacts => ?_, clientGate_of_run hclient⟩
    obtain ⟨compression, conn, hphase⟩ := ServerTask.rpc_of_acts hacts
    exact hloop compression conn hphase

end Client

/-- An upgrade request with a version. -/
def upgradeRequest (version : HeaderValue) : HttpRequest where
  headers := [(.other "connection", ascii "Upgrade"), (.other "upgrade", ascii "websocket"),
    (.other "sec-websocket-version", ascii "13"),
    (.other "sec-websocket-key", ascii "dGhlIHNhbXBsZSBub25jZQ=="), (.secWebSocketProtocol, version)]

/-- What tungstenite answers to a request with that key. -/
def sampleResponse (req : HttpRequest) : Option HttpResponse :=
  if req.headers.get (.other "sec-websocket-key") = some (ascii "dGhlIHNhbXBsZSBub25jZQ==") then
    some { status := 101, headers := [(.other "connection", ascii "Upgrade"),
      (.other "upgrade", ascii "websocket"),
      (.other "sec-websocket-accept", ascii "s3pPLMBiTxaQ9kYGzzhZRbK+xOo=")] }
  else none

def sampleLib : Tungstenite where
  createResponse := sampleResponse
  acceptHdr callback req := (sampleResponse req).bind fun response => (callback req response).toOption
  acceptHdr_eq _ _ := rfl

/-- A peer with the version `version`, which sends a call whatever the response is. -/
def peerRun (version : HeaderValue) : List ServerTaskAct :=
  [.tlsAccept true, .upgrade (upgradeRequest version),
    .conn (.peerSend (.binary (some { id := 0, internal := [1], call := 0 }))),
    .conn .pollNext, .conn .pollNext, .conn .pollNext, .conn .pollNext, .conn (.clientMessage true)]

/-- A server with version `hl/1` and a peer with the same. -/
theorem versionGate_peerRun :
    ∃ server client, run (ServerTask.step sampleLib (ascii "hl/1")) .init (peerRun (ascii "hl/1")) = some server ∧
      run (ClientTask.step (S := counterState.toStateStruct) (ascii "hl/1")) .init
        [.connected ⟨101, [(.secWebSocketProtocol, ascii "hl/1")]⟩ true] = some client ∧
      server.accepted = [{ id := 0, internal := [1], call := 0 }] ∧
      VersionGate (ascii "hl/1") (ascii "hl/1") server client := by
  have hserver : (run (ServerTask.step sampleLib (ascii "hl/1")) .init (peerRun (ascii "hl/1"))).map
      ServerTask.accepted = some [{ id := 0, internal := [1], call := 0 }] := rfl
  obtain ⟨server, hs, haccepted⟩ := Option.map_eq_some_iff.mp hserver
  obtain ⟨client, hc⟩ : ∃ client, run (ClientTask.step (S := counterState.toStateStruct) (ascii "hl/1")) .init
      [.connected ⟨101, [(.secWebSocketProtocol, ascii "hl/1")]⟩ true] = some client := ⟨_, rfl⟩
  refine ⟨server, client, hs, hc, haccepted, (versionGate_iff hs hc).mpr fun req hin => Or.inl ?_⟩
  simp only [peerRun, List.mem_cons, ServerTaskAct.upgrade.injEq, reduceCtorEq, List.not_mem_nil, or_false,
    false_or] at hin
  rw [hin]
  decide

/-- **A request with another version gets its handler task.** -/
theorem open_gate_peerRun :
    ¬ ∀ (lib : Tungstenite) (version clientVersion : HeaderValue) (as : List ServerTaskAct)
      (bs : List ClientTaskAct) (server : ServerTask) (client : ClientTask counterState.toStateStruct),
      run (ServerTask.step lib version) .init as = some server →
      run (ClientTask.step clientVersion) .init bs = some client →
        VersionGate version clientVersion server client := by
  intro hall
  have hserver : (run (ServerTask.step sampleLib (ascii "hl/1")) .init (peerRun (ascii "hl/2"))).map
      (fun server => (server.accepted, server.request)) =
        some ([{ id := 0, internal := [1], call := 0 }], some (upgradeRequest (ascii "hl/2"))) := rfl
  obtain ⟨server, hs, hstate⟩ := Option.map_eq_some_iff.mp hserver
  rw [Prod.mk.injEq] at hstate
  have hgate := hall sampleLib (ascii "hl/1") (ascii "hl/1") _ [] server .init hs rfl
  obtain ⟨req, hreq, hmatches⟩ := hgate.server_acts (Or.inl (by rw [hstate.1]; simp))
  rw [hstate.2, Option.some.injEq] at hreq
  subst hreq
  exact absurd hmatches (by decide)

end HardLight
