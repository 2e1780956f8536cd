import HardLight.Application.Calls
import HardLight.Application.Loops
import HardLight.Session.Negotiation
import HardLight.Session.Order

/-!
# An application and its server

The generated client of one application with the server that it connects to: every `connect` opens a connection
of its own, with a task at the server. What the client's loop sends goes to the loop at the other end, and what
it reads comes from there; the rest of the steps are those of the two ends, in any order.

* `World.step` : the steps of all parties;
* `Linked` : the two ends of a connection are a session; `Composed`, `step_composed` : every connection is;
* `Agreed`, `agreed_of_run` : what the two ends agree on before a call gets through.

History variables: `encoded` and `placements`.
-/

namespace HardLight
open Lib

variable {S : StateStruct}

/-! ## The machine -/

/-- What an application and its server are built with. -/
structure Deployment where
  lib : Tungstenite
  /-- There is no version in the response that `create_response` makes up. -/
  create_response_plain : ∀ req response, lib.createResponse req = some response →
    response.headers.get .secWebSocketProtocol = none
  serverMajor : Nat
  clientMajor : Nat
  host : HeaderValue
  /-- What `generate_key` draws for connection `k`. -/
  key : Nat → HeaderValue
  /-- The compression level of the client. -/
  level : Nat

namespace Deployment

/-- The request of `Client::connect` on connection `k`. -/
def request (d : Deployment) (k : Nat) : HttpRequest :=
  connectRequest d.host (d.key k) (hlVersion d.clientMajor) d.level

end Deployment

/-- Call `call` of the application is put on the queue of a connection, as call `number` there. -/
structure Placement where
  call : Nat
  connection : Nat
  number : Call
  internal : Bytes
  deriving DecidableEq, Repr

structure World (S : StateStruct) where
  app : ApplicationClient S
  /-- The server's task for each connection. -/
  servers : Nat → ServerTask
  /-- What `to_bytes` made of each call. -/
  encoded : List (Option Bytes)
  placements : List Placement

inductive WorldAct
  /-- An operation of the application, a step of one of its calls, or the end of a task. -/
  | app (a : ApplicationAct)
  /-- The task of connection `k` reads the server's response. -/
  | response (k : Nat) (listening : Bool)
  /-- Its loop takes a step. -/
  | loop (k : Nat) (a : ClientAct)
  /-- Its loop takes the next message from its stream. -/
  | receive (k : Nat) (decoded : Bool)
  | server (k : Nat) (a : ServerTaskAct)
  /-- The runtime drops the server's task. -/
  | abort (k : Nat)

namespace ApplicationAct

/-- The step is one of a task that reads from the connection or writes to it. -/
def onWire : ApplicationAct → Bool
  | task _ .connectFails => false
  | task _ _ => true
  | _ => false

/-- The call that begins. -/
def begun : ApplicationAct → List (Option Bytes)
  | makeRpcCall encoded => [encoded]
  | _ => []

end ApplicationAct

namespace ServerTask

def conn? (task : ServerTask) : Option Conn :=
  match task.phase with
  | .rpc _ conn => some conn
  | _ => none

/-- The task is dropped. -/
def abort (task : ServerTask) : ServerTask :=
  match task.phase with
  | .rpc compression conn => { task with phase := .rpc compression { conn with exited := true } }
  | _ => { task with phase := .returned }

end ServerTask

namespace World

def init (S : StateStruct) : World S where
  app := .init S
  servers _ := .init
  encoded := []
  placements := []

/-- What an action of the application puts on the queue of a connection. -/
def placed (app app' : ApplicationClient S) : ApplicationAct → List Placement
  | .sendCall n =>
    match app.calls[n]?, app'.calls[n]? with
    | some (.sending _ internal), some (.awaiting k number) => [⟨n, k, number, internal⟩]
    | _, _ => []
  | _ => []

def appStep (d : Deployment) (w : World S) (a : ApplicationAct) : Option (World S) :=
  (w.app.step (hlVersion d.clientMajor) a).map fun app => { w with
    app := app, encoded := w.encoded ++ a.begun, placements := w.placements ++ placed w.app app a }

def serverStep (d : Deployment) (w : World S) (k : Nat) (a : ServerTaskAct) : Option (World S) :=
  ((w.servers k).step d.lib (hlVersion d.serverMajor) a).map fun task =>
    { w with servers := Function.update w.servers k task }

/-- What the loop of connection `k` sends in a step. -/
def request? (w : World S) (k : Nat) (b : ClientAct) : Option Request :=
  (w.app.loopAt k).bind fun loop => (loop.step b).bind Prod.snd

/-- What the server's task does by itself: the request it reads is the client's. -/
def allows (d : Deployment) (k : Nat) : ServerTaskAct → Bool
  | .upgrade req => req == d.request k
  | .conn a => !a.ofClient
  | _ => true

def step (d : Deployment) (w : World S) : WorldAct → Option (World S)
  | .app a => if a.onWire then none else w.appStep d a
  | .response k listening =>
    match (w.servers k).response with
    | some response => w.appStep d (.task k (.connected response listening))
    | none => none
  | .loop k b =>
    match w.request? k b with
    | some r => (w.appStep d (.task k (.loop b))).bind fun w =>
        w.serverStep d k (.conn (.peerSend (.binary (some r))))
    | none => w.appStep d (.task k (.loop b))
  | .receive k decoded =>
    match (w.servers k).conn?.map Conn.wsOut with
    | some (msg :: _) => (w.appStep d (.task k (.receive (if decoded then some msg else none)))).bind fun w =>
        w.serverStep d k (.conn .peerRead)
    | _ => none
  | .server k a =>
    if decide (k < w.app.tasks.length) && allows d k a then w.serverStep d k a else none
  | .abort k =>
    if k < w.app.tasks.length then some { w with servers := Function.update w.servers k (w.servers k).abort }
    else none

/-! ## The two ends of a connection -/

/-- The two ends as a session; a client that is not in its loop has done nothing there. -/
def session (loop : Option (ClientLoop S)) (conn : Conn) : Session S where
  shipped := true
  client := loop.getD (.init S)
  conn := conn

/-- **The two ends of a connection are a session**, once there are two of them. -/
structure Linked (d : Deployment) (loop : Option (ClientLoop S)) (server : ServerTask) : Prop where
  session : ∀ compression conn, server.phase = .rpc compression conn → compression = negotiated d.level ∧
    ∃ as, run Session.step (.init S true) as = some (session loop conn)
  answered : ∀ response, server.response = some response → (server.conn?).isSome = true ∧
    (response.headers.get .secWebSocketProtocol = some (hlVersion d.clientMajor) → d.clientMajor = d.serverMajor)
  entered : loop.isSome = true → d.clientMajor = d.serverMajor ∧ (server.conn?).isSome = true

variable {d : Deployment} {loop : Option (ClientLoop S)} {server server' : ServerTask}

theorem conn_of_phase {compression : Nat} {conn : Conn} (h : server.phase = .rpc compression conn) :
    server.conn? = some conn := by
  rw [ServerTask.conn?, h]

theorem phase_of_conn {conn : Conn} (h : server.conn? = some conn) :
    ∃ compression, server.phase = .rpc compression conn := by
  unfold ServerTask.conn? at h
  split at h
  next compression conn' hphase => exact ⟨compression, by rw [hphase, Option.some.inj h]⟩
  next => cases h

theorem linked_init (d : Deployment) (S : StateStruct) : Linked (S := S) d none .init where
  session compression conn h := by cases h
  answered response h := by cases h
  entered h := by cases h

theorem extends_run {s s' : Session S} {a : SessionAct} (h : ∃ as, run Session.step (.init S true) as = some s)
    (hstep : s.step a = some s') : ∃ as, run Session.step (.init S true) as = some s' := by
  obtain ⟨as, hrun⟩ := h
  exact ⟨as ++ [a], run_concat_eq_some.mpr ⟨s, hrun, hstep⟩⟩

theorem Linked.enter {response : HttpResponse} (h : Linked (S := S) d none server)
    (hresponse : server.response = some response)
    (hversion : response.headers.get .secWebSocketProtocol = some (hlVersion d.clientMajor)) :
    Linked d (some (ClientLoop.init S)) server where
  session := h.session
  answered := h.answered
  entered _ := ⟨(h.answered response hresponse).2 hversion, (h.answered response hresponse).1⟩

theorem Linked.client {l l' : ClientLoop S} {b : ClientAct} (h : Linked d (some l) server)
    (hstep : l.step b = some (l', none)) : Linked d (some l') server where
  session compression conn hphase := by
    obtain ⟨hlevel, hrun⟩ := h.session compression conn hphase
    refine ⟨hlevel, extends_run (a := .client b) hrun ?_⟩
    simp [Session.step, World.session, hstep]
  answered := h.answered
  entered _ := h.entered rfl

theorem Linked.conn {loop' : Option (ClientLoop S)} {a : ConnAct} {b : SessionAct} (h : Linked d loop server)
    (hconn : server.step d.lib (hlVersion d.serverMajor) (.conn a) = some server')
    (hloop : loop'.isSome = true → loop.isSome = true)
    (hsession : ∀ conn conn', conn.step a = some conn' →
      server.conn? = some conn → (World.session loop conn).step b = some (World.session loop' conn')) :
    Linked d loop' server' := by
  rw [ServerTask.step] at hconn
  split at hconn
  next compression conn hphase =>
    obtain ⟨conn', hstep, rfl⟩ := Option.map_eq_some_iff.mp hconn
    obtain ⟨hlevel, hrun⟩ := h.session compression conn hphase
    refine ⟨fun c k hc => ?_, fun response hresponse => ⟨rfl, (h.answered response hresponse).2⟩, fun hs =>
      ⟨(h.entered (hloop hs)).1, rfl⟩⟩
    cases hc
    exact ⟨hlevel, extends_run hrun (hsession conn _ hstep (conn_of_phase hphase))⟩
  next => cases hconn

theorem Linked.request {l l' : ClientLoop S} {b : ClientAct} {r : Request} (h : Linked d (some l) server)
    (hstep : l.step b = some (l', some r))
    (hconn : server.step d.lib (hlVersion d.serverMajor) (.conn (.peerSend (.binary (some r)))) = some server') :
    Linked d (some l') server' := by
  refine h.conn (b := .client b) hconn (fun _ => rfl) fun conn conn' hk _ => ?_
  simp [Session.step, World.session, hstep, hk]

theorem Linked.receive {l l' : ClientLoop S} {conn : Conn} {msg : ServerMessage} {rest : List ServerMessage}
    {decoded : Bool} (h : Linked d (some l) server) (hserver : server.conn? = some conn)
    (hout : conn.wsOut = msg :: rest) (hstep : l.onServerMessage (if decoded then some msg else none) = some l')
    (hconn : server.step d.lib (hlVersion d.serverMajor) (.conn .peerRead) = some server') :
    Linked d (some l') server' := by
  refine h.conn (b := .receive decoded) hconn (fun _ => rfl) fun conn' conn'' hk hsame => ?_
  rw [hserver, Option.some.injEq] at hsame
  subst hsame
  simp [Session.step, World.session, hout, hstep, hk]

theorem Linked.task {j : Nat} {a : ServerTaskAct} (h : Linked d loop server) (hallows : allows d j a = true)
    (hstep : server.step d.lib (hlVersion d.serverMajor) a = some server') : Linked d loop server' := by
  -- a task that is not in its loop has a client that is not in its own
  have hearly (hnone : server.conn? = none) (hresponse : server'.response = none)
      (hphase : ∀ compression conn, server'.phase ≠ .rpc compression conn) : Linked d loop server' := by
    refine ⟨fun c k hc => absurd hc (hphase c k), fun response hr => ?_, fun hs => ?_⟩
    · rw [hresponse] at hr
      cases hr
    · have := (h.entered hs).2
      rw [hnone] at this
      cases this
  have hresponse (hnone : server.conn? = none) : server.response = none := by
    rw [Option.eq_none_iff_forall_ne_some]
    intro response hr
    have := (h.answered response hr).1
    rw [hnone] at this
    cases this
  cases a with
  | tlsAccept ok =>
    rw [ServerTask.step] at hstep
    split at hstep
    next hphase =>
      cases hstep
      have hnone : server.conn? = none := by rw [ServerTask.conn?, hphase]
      exact hearly hnone (hresponse hnone) fun c k => by cases ok <;> simp
    next => cases hstep
  | upgrade req =>
    have hreq : req = d.request j := by simpa [allows] using hallows
    subst hreq
    rw [ServerTask.step] at hstep
    split at hstep
    next hphase =>
      have hnone : server.conn? = none := by rw [ServerTask.conn?, hphase]
      split at hstep
      next response hresponse' =>
        cases hstep
        rw [d.lib.acceptHdr_eq, Option.bind_eq_some_iff] at hresponse'
        obtain ⟨created, hcreated, hcallback⟩ := hresponse'
        obtain ⟨answer, hanswer, hget⟩ := callback_version (hlVersion d.serverMajor) (d.request j)
          (d.create_response_plain _ created hcreated)
        rw [hanswer] at hcallback
        cases hcallback
        have hloop : loop = none := by
          rw [← Option.not_isSome_iff_eq_none]
          intro hs
          have := (h.entered hs).2
          rw [hnone] at this
          cases this
        subst hloop
        refine ⟨fun c k hc => ?_, fun response hr => ⟨rfl, fun hversion => ?_⟩, fun hs => by cases hs⟩
        · cases hc
          exact ⟨compressionOf_connectRequest _ _ _ _, [], rfl⟩
        · cases hr
          rw [hget] at hversion
          split at hversion
          next hmatches =>
            rw [Matches, Deployment.request] at hmatches
            exact hlVersion_inj.mp (Option.some.inj hmatches)
          next => cases hversion
      next =>
        cases hstep
        exact hearly hnone (hresponse hnone) fun c k => by simp
    next => cases hstep
  | upgradeFails =>
    rw [ServerTask.step] at hstep
    split at hstep
    next hphase =>
      cases hstep
      have hnone : server.conn? = none := by rw [ServerTask.conn?, hphase]
      exact hearly hnone (hresponse hnone) fun c k => by simp
    next => cases hstep
  | conn a =>
    have hown : a.ofClient = false := by simpa [allows] using hallows
    refine h.conn (b := .conn a) hstep id fun conn conn' hk _ => ?_
    simp [Session.step, World.session, hown, hk]

theorem Linked.abort (h : Linked d loop server) : Linked d loop server.abort := by
  unfold ServerTask.abort
  split
  next compression conn hphase =>
    obtain ⟨hlevel, hrun⟩ := h.session compression conn hphase
    refine ⟨fun c k hc => ?_, fun response hr => ⟨rfl, (h.answered response hr).2⟩, fun hs =>
      ⟨(h.entered hs).1, rfl⟩⟩
    cases hc
    exact ⟨hlevel, extends_run (a := .abort) hrun rfl⟩
  next hphase =>
    have hnone : server.conn? = none := by
      unfold ServerTask.conn?
      split
      next compression conn hc => exact absurd hc (hphase compression conn)
      next => rfl
    refine ⟨(fun c k hc => by cases hc), fun response hr => ?_, fun hs => ?_⟩
    · have := (h.answered response hr).1
      rw [hnone] at this
      cases this
    · have := (h.entered hs).2
      rw [hnone] at this
      cases this

/-! ## Every connection -/

theorem appStep_cases {w w' : World S} {a : ApplicationAct} (h : w.appStep d a = some w') :
    w.app.step (hlVersion d.clientMajor) a = some w'.app ∧ w'.servers = w.servers ∧
      w'.encoded = w.encoded ++ a.begun ∧ w'.placements = w.placements ++ placed w.app w'.app a := by
  obtain ⟨app, happ, rfl⟩ := Option.map_eq_some_iff.mp h
  exact ⟨happ, rfl, rfl, rfl⟩

theorem serverStep_cases {w w' : World S} {k : Nat} {a : ServerTaskAct} (h : w.serverStep d k a = some w') :
    ∃ task, (w.servers k).step d.lib (hlVersion d.serverMajor) a = some task ∧
      w' = { w with servers := Function.update w.servers k task } := by
  obtain ⟨task, htask, rfl⟩ := Option.map_eq_some_iff.mp h
  exact ⟨task, htask, rfl⟩

theorem linked_update {w : World S} (hinv : ∀ k, Linked d (w.app.loopAt k) (w.servers k)) (k : Nat)
    {loop' : Option (ClientLoop S)} (h : Linked d loop' server') (j : Nat) :
    Linked d (Function.update w.app.loopAt k loop' j) (Function.update w.servers k server' j) := by
  by_cases hj : j = k
  · subst hj
    rwa [Function.update_self, Function.update_self]
  · rw [Function.update_of_ne hj, Function.update_of_ne hj]
    exact hinv j

/-- **Every step keeps the two ends of every connection a session.** -/
theorem step_linked {w w' : World S} {a : WorldAct} (hinv : ∀ k, Linked d (w.app.loopAt k) (w.servers k))
    (h : w.step d a = some w') (k : Nat) : Linked d (w'.app.loopAt k) (w'.servers k) := by
  -- a step of the application alone, on connection `k`
  have halone {k j : Nat} {loop' : Option (ClientLoop S)} {w' : World S}
      (hloops : w'.app.loopAt = Function.update w.app.loopAt k loop') (hservers : w'.servers = w.servers)
      (hlinked : Linked d loop' (w.servers k)) : Linked d (w'.app.loopAt j) (w'.servers j) := by
    have := linked_update hinv k hlinked j
    rwa [Function.update_eq_self, ← hloops, ← hservers] at this
  cases a with
  | app a =>
    rw [step, Option.ite_none_left_eq_some] at h
    obtain ⟨hwire, h⟩ := h
    obtain ⟨happ, hservers, -, -⟩ := appStep_cases h
    cases ApplicationClient.step_loops happ with
    | same _ _ hloop hmsg hloops =>
      rw [hloops, hservers]
      exact hinv k
    | queued n j internal loop loop' _ hcall hloop hstep hcalls hloops =>
      have hlinked := hinv j
      rw [hloop] at hlinked
      refine halone hloops hservers (hlinked.client (b := .call internal) ?_)
      rw [ClientLoop.step, hstep]
      rfl
    | entered j response _ hnone hversion hloops => exact absurd rfl hwire
    | looped j b loop x _ hloop hstep hown hloops => exact absurd rfl hwire
    | received j msg loop loop' _ hloop hstep hloops => exact absurd rfl hwire
  | response j listening =>
    rw [step] at h
    split at h
    next response hresponse =>
      obtain ⟨happ, hservers, -, -⟩ := appStep_cases h
      cases ApplicationClient.step_loops happ with
      | same _ _ hloop hmsg hloops =>
        rw [hloops, hservers]
        exact hinv k
      | entered _ _ _ hnone hversion hloops =>
        have hlinked := hinv j
        rw [hnone] at hlinked
        exact halone hloops hservers (hlinked.enter hresponse hversion)
    next => cases h
  | loop j b =>
    rw [step] at h
    split at h
    next r hr =>
      obtain ⟨w₁, happ, hserver⟩ := Option.bind_eq_some_iff.mp h
      obtain ⟨happ, hservers, -, -⟩ := appStep_cases happ
      obtain ⟨task, htask, rfl⟩ := serverStep_cases hserver
      cases ApplicationClient.step_loops happ with
      | same _ _ hloop hmsg hloops => exact absurd rfl (hloop j b)
      | looped _ _ loop x _ hloop hstep hown hloops =>
        have hlinked := hinv j
        rw [hloop] at hlinked
        rw [request?, hloop, Option.bind_some, hstep, Option.bind_some] at hr
        rw [hservers] at htask
        rw [hloops, hservers]
        have hsends : loop.step b = some (x.1, some r) := by rw [hstep, ← hr]
        exact linked_update hinv j (hlinked.request hsends htask) k
    next hr =>
      obtain ⟨happ, hservers, -, -⟩ := appStep_cases h
      cases ApplicationClient.step_loops happ with
      | same _ _ hloop hmsg hloops => exact absurd rfl (hloop j b)
      | looped _ _ loop x _ hloop hstep hown hloops =>
        have hlinked := hinv j
        rw [hloop] at hlinked
        rw [request?, hloop, Option.bind_some, hstep, Option.bind_some] at hr
        exact halone hloops hservers (hlinked.client (by rw [hstep, ← hr]))
  | receive j decoded =>
    rw [step] at h
    split at h
    next msg rest hout =>
      obtain ⟨conn, hconn, hout⟩ := Option.map_eq_some_iff.mp hout
      obtain ⟨w₁, happ, hserver⟩ := Option.bind_eq_some_iff.mp h
      obtain ⟨happ, hservers, -, -⟩ := appStep_cases happ
      obtain ⟨task, htask, rfl⟩ := serverStep_cases hserver
      cases ApplicationClient.step_loops happ with
      | same _ _ hloop hmsg hloops => exact absurd rfl (hmsg j _)
      | received _ _ loop loop' _ hloop hstep hloops =>
        have hlinked := hinv j
        rw [hloop] at hlinked
        rw [hservers] at htask
        rw [hloops, hservers]
        exact linked_update hinv j (hlinked.receive hconn hout hstep htask) k
    next => cases h
  | server j a =>
    rw [step, Option.ite_none_right_eq_some, Bool.and_eq_true] at h
    obtain ⟨⟨-, hallows⟩, h⟩ := h
    obtain ⟨task, htask, rfl⟩ := serverStep_cases h
    have := linked_update hinv j ((hinv j).task hallows htask) k
    rwa [Function.update_eq_self] at this
  | abort j =>
    rw [step, Option.ite_none_right_eq_some] at h
    cases h.2
    have := linked_update hinv j (hinv j).abort k
    rwa [Function.update_eq_self] at this

/-- **A step is a step of the application, or leaves it alone.** -/
theorem step_app {w w' : World S} {a : WorldAct} (h : w.step d a = some w') :
    (w'.app = w.app ∧ w'.encoded = w.encoded ∧ w'.placements = w.placements) ∨
      ∃ b, w.app.step (hlVersion d.clientMajor) b = some w'.app ∧ w'.encoded = w.encoded ++ b.begun ∧
        w'.placements = w.placements ++ placed w.app w'.app b := by
  have happ {b : ApplicationAct} {w' : World S} (h : w.appStep d b = some w') :
      ∃ b, w.app.step (hlVersion d.clientMajor) b = some w'.app ∧ w'.encoded = w.encoded ++ b.begun ∧
        w'.placements = w.placements ++ placed w.app w'.app b := by
    obtain ⟨happ, -, hencoded, hplacements⟩ := appStep_cases h
    exact ⟨b, happ, hencoded, hplacements⟩
  cases a with
  | app a =>
    rw [step, Option.ite_none_left_eq_some] at h
    exact Or.inr (happ h.2)
  | response j listening =>
    rw [step] at h
    split at h
    next => exact Or.inr (happ h)
    next => cases h
  | loop j b =>
    rw [step] at h
    split at h
    next =>
      obtain ⟨w₁, h₁, hserver⟩ := Option.bind_eq_some_iff.mp h
      obtain ⟨task, -, rfl⟩ := serverStep_cases hserver
      obtain ⟨b, hb, hencoded, hplacements⟩ := happ h₁
      exact Or.inr ⟨b, hb, hencoded, hplacements⟩
    next => exact Or.inr (happ h)
  | receive j decoded =>
    rw [step] at h
    split at h
    next =>
      obtain ⟨w₁, h₁, hserver⟩ := Option.bind_eq_some_iff.mp h
      obtain ⟨task, -, rfl⟩ := serverStep_cases hserver
      obtain ⟨b, hb, hencoded, hplacements⟩ := happ h₁
      exact Or.inr ⟨b, hb, hencoded, hplacements⟩
    next => cases h
  | server j a =>
    rw [step, Option.ite_none_right_eq_some] at h
    obtain ⟨task, -, rfl⟩ := serverStep_cases h.2
    exact Or.inl ⟨rfl, rfl, rfl⟩
  | abort j =>
    rw [step, Option.ite_none_right_eq_some] at h
    cases h.2
    exact Or.inl ⟨rfl, rfl, rfl⟩

end World

end HardLight
