import HardLight.Session.Progress
import HardLight.Session.Fields

/-!
# The application reads the state

`state()` of a generated client gives the application a read guard on the state that the client's loop writes when a
state change comes in. The lock is fair: when the loop waits for it, readers that come later wait too. The loop waits
inside an arm of its `select!`, so that none of the others is polled.

* `Reading.step` : a session, with the guards that the application of its client holds;
* `Sound`, `step_sound` : a guard shows the state as it is, and the loop waits in front of a state change;
* `standstill` : until the guards are dropped the loop does nothing;
* `Stands`, `stands_of_end` : where work ends the session is settled or deadlocked, or the loop waits for a guard and
  the server rests;
* `Guarded`, `guarded_of_run` : in every run.
-/

namespace HardLight
open Lib

variable {S : StateStruct}

/-! ## The machine -/

namespace SessionAct

/-- A step of the client's loop. Its application puts a call in a channel without it. -/
def ofLoop : SessionAct → Bool
  | client (.call _) => false
  | client _ => true
  | receive _ => true
  | _ => false

end SessionAct

structure Reading (S : StateStruct) where
  session : Session S
  /-- The guards of the application, each with the state that it showed when it was taken. -/
  guards : List S.State
  /-- The loop has the next message in hand, a state change, and waits for the lock. -/
  waiting : Bool

inductive ReadingAct
  | session (a : SessionAct)
  /-- `state().await` -/
  | read
  /-- Guard number `n` is dropped. -/
  | release (n : Nat)
  /-- `self.state.write().await` has the lock. -/
  | locked

namespace ReadingAct

def stays : ReadingAct → Bool
  | session a => a.stays
  | _ => true

/-- How much work the action can bring. -/
def brings : ReadingAct → Nat
  | session a => 2 * a.brings
  | locked => 1
  | _ => 0

end ReadingAct

namespace Reading

def init (S : StateStruct) : Reading S := { session := .init S true, guards := [], waiting := false }

/-- The message that the action reads is a state change, and there is a guard. -/
def meets (r : Reading S) : SessionAct → Bool
  | .receive true => !r.guards.isEmpty && (r.session.conn.wsOut.head?.bind ServerMessage.changes?).isSome
  | _ => false

def step (r : Reading S) : ReadingAct → Option (Reading S)
  | .session a =>
    if r.waiting && a.ofLoop then none
    else (r.session.step a).map fun session =>
      if r.meets a then { r with waiting := true } else { r with session := session }
  | .read => if r.waiting then none else some { r with guards := r.guards ++ [r.session.client.state] }
  | .release n => if n < r.guards.length then some { r with guards := r.guards.eraseIdx n } else none
  | .locked =>
    if r.waiting && r.guards.isEmpty then
      (r.session.step (.receive true)).map fun session => { r with session := session, waiting := false }
    else none

/-! ## What a step can do -/

inductive Step (r : Reading S) : ReadingAct → Reading S → Prop
  | passed (a : SessionAct) (session : Session S) (hloop : r.waiting = true → a.ofLoop = false)
      (hmeets : r.meets a = false) (hs : r.session.step a = some session) :
      Step r (.session a) { r with session := session }
  | met (changes : List StateUpdate) (rest : List ServerMessage) (session : Session S) (hfree : r.waiting = false)
      (hguards : r.guards ≠ []) (hq : r.session.conn.wsOut = .stateChange changes :: rest)
      (hs : r.session.step (.receive true) = some session) :
      Step r (.session (.receive true)) { r with waiting := true }
  | read (hfree : r.waiting = false) : Step r .read { r with guards := r.guards ++ [r.session.client.state] }
  | released (n : Nat) : Step r (.release n) { r with guards := r.guards.eraseIdx n }
  | locked (session : Session S) (hwaiting : r.waiting = true) (hguards : r.guards = [])
      (hs : r.session.step (.receive true) = some session) :
      Step r .locked { r with session := session, waiting := false }

theorem meets_cases {r : Reading S} {a : SessionAct} (h : r.meets a = true) :
    a = .receive true ∧ r.guards ≠ [] ∧ ∃ changes rest, r.session.conn.wsOut = .stateChange changes :: rest := by
  unfold meets at h
  split at h
  next =>
    rw [Bool.and_eq_true, Bool.not_eq_true', List.isEmpty_eq_false_iff] at h
    obtain ⟨hguards, hhead⟩ := h
    refine ⟨rfl, hguards, ?_⟩
    cases hq : r.session.conn.wsOut with
    | nil => simp [hq] at hhead
    | cons msg rest =>
      cases msg with
      | stateChange changes => exact ⟨changes, rest, rfl⟩
      | rpcResponse response => simp [hq, ServerMessage.changes?] at hhead
      | newEvent topic payload => simp [hq, ServerMessage.changes?] at hhead
  next => cases h

theorem step_cases {r r' : Reading S} {a : ReadingAct} (h : r.step a = some r') : Step r a r' := by
  cases a with
  | session a =>
    rw [step, Option.ite_none_left_eq_some, Option.map_eq_some_iff] at h
    obtain ⟨hloop, session, hs, rfl⟩ := h
    rw [Bool.and_eq_true, not_and, Bool.not_eq_true] at hloop
    cases hmeets : r.meets a with
    | true =>
      obtain ⟨rfl, hguards, changes, rest, hq⟩ := meets_cases hmeets
      exact .met changes rest session (Bool.eq_false_iff.mpr fun hw => by cases hloop hw) hguards hq hs
    | false => exact .passed a session hloop hmeets hs
  | read =>
    rw [step, Option.ite_none_left_eq_some] at h
    obtain ⟨hfree, h⟩ := h
    cases h
    exact .read (Bool.eq_false_iff.mpr hfree)
  | release n =>
    rw [step, Option.ite_none_right_eq_some] at h
    cases h.2
    exact .released n
  | locked =>
    rw [step, Option.ite_none_right_eq_some, Option.map_eq_some_iff, Bool.and_eq_true, List.isEmpty_iff] at h
    obtain ⟨⟨hwaiting, hguards⟩, session, hs, rfl⟩ := h
    exact .locked session hwaiting hguards hs

end Reading

/-! ## What the loop does not do -/

namespace ClientLoop

/-- The loop as it was, but for the calls in its queue. -/
def Idles (c c' : ClientLoop S) : Prop := c' = { c with rpcRequestRx := c'.rpcRequestRx, issued := c'.issued }

theorem Idles.trans {c c' c'' : ClientLoop S} (h : Idles c c') (h' : Idles c' c'') : Idles c c'' := by
  rw [Idles, h', h]

end ClientLoop

namespace Conn

theorem step_wsOut {k k' : Conn} {a : ConnAct} (ha : a ≠ .peerRead) (h : k.step a = some k') :
    k.wsOut <+: k'.wsOut := by
  cases step_cases h with
  | sent msg hsending hrun => exact List.prefix_append _ _
  | read msg rest hq => exact absurd rfl ha
  | _ => exact List.prefix_refl _

end Conn

namespace Session

/-- A step that is not the loop's own leaves it alone, and takes nothing off its stream. -/
theorem step_aside {s s' : Session S} {a : SessionAct} (hship : s.shipped = true) (ha : a.ofLoop = false)
    (h : s.step a = some s') : s.client.Idles s'.client ∧ s.conn.wsOut <+: s'.conn.wsOut := by
  cases a with
  | client a =>
    cases a with
    | call internal =>
      obtain ⟨out, hc, -, hk⟩ := step_client h
      obtain ⟨c, hcall, heq⟩ := Option.map_eq_some_iff.mp hc
      obtain ⟨rfl, rfl⟩ := Prod.mk.inj heq
      have hsame : s'.conn = s.conn := hk
      rw [ClientLoop.Idles, ClientLoop.call_cases hcall, hsame]
      exact ⟨rfl, List.prefix_refl _⟩
    | _ => cases ha
  | receive decoded => cases ha
  | conn a =>
    obtain ⟨hc, -, hserver, hk⟩ := step_conn h
    have hne : a ≠ .peerRead := by
      rintro rfl
      cases hserver hship
    rw [ClientLoop.Idles, hc]
    exact ⟨rfl, Conn.step_wsOut hne hk⟩
  | abort => cases h; exact ⟨rfl, List.prefix_refl _⟩

theorem step_state {s s' : Session S} {a : SessionAct} (h : s.step a = some s')
    (hno : a = .receive true → s.conn.wsOut.head?.bind ServerMessage.changes? = none) :
    s'.client.state = s.client.state := by
  cases a with
  | client a =>
    obtain ⟨out, hc, -, -⟩ := step_client h
    exact (ClientLoop.step_cases hc).state
  | receive decoded =>
    obtain ⟨msg, rest, hq, -, hc, -⟩ := step_receive h
    cases decoded with
    | true =>
      have hnone := hno rfl
      rw [hq, List.head?_cons, Option.bind_some] at hnone
      rw [ClientLoop.onServerMessage_state hc, hnone, Option.elim_none]
    | false => rw [ClientLoop.onServerMessage_none hc]
  | conn a => rw [(step_conn h).1]
  | abort => cases h; rfl

end Session

namespace Reading

/-! ## Guards and the loop -/

structure Sound (r : Reading S) : Prop where
  shipped : r.session.shipped = true
  /-- A guard shows the state as it is. -/
  stable : ∀ g ∈ r.guards, g = r.session.client.state
  /-- The loop waits at its `select!`, in front of a state change. -/
  waits : r.waiting = true → r.session.client.phase = .select ∧
    ∃ changes rest, r.session.conn.wsOut = .stateChange changes :: rest

theorem sound_init (S : StateStruct) : Sound (init S) where
  shipped := rfl
  stable g hg := by cases hg
  waits hw := by cases hw

theorem step_sound {r r' : Reading S} {a : ReadingAct} (hinv : Sound r) (h : Step r a r') : Sound r' := by
  cases h with
  | passed a session hloop hmeets hs =>
    refine ⟨(Session.step_shipped hs).trans hinv.shipped, fun g hg => ?_, fun hw => ?_⟩
    · refine (hinv.stable g hg).trans (Session.step_state hs ?_).symm
      rintro rfl
      simpa [meets, List.ne_nil_of_mem hg] using hmeets
    · obtain ⟨hidles, hprefix⟩ := Session.step_aside hinv.shipped (hloop hw) hs
      obtain ⟨hselect, changes, rest, hq⟩ := hinv.waits hw
      rw [hq] at hprefix
      obtain ⟨more, hmore⟩ := hprefix
      refine ⟨?_, changes, rest ++ more, hmore.symm⟩
      show session.client.phase = .select
      rw [hidles]
      exact hselect
  | met changes rest session hfree hguards hq hs =>
    obtain ⟨msg, rest', -, -, hc, -⟩ := Session.step_receive hs
    exact ⟨hinv.shipped, hinv.stable, fun _ => ⟨ClientLoop.onServerMessage_select hc, changes, rest, hq⟩⟩
  | read hfree =>
    refine ⟨hinv.shipped, fun g hg => ?_, hinv.waits⟩
    rcases List.mem_append.mp hg with hg | hg
    · exact hinv.stable g hg
    · exact List.mem_singleton.mp hg
  | released n => exact ⟨hinv.shipped, fun g hg => hinv.stable g (List.mem_of_mem_eraseIdx hg), hinv.waits⟩
  | locked session hwaiting hguards hs =>
    refine ⟨(Session.step_shipped hs).trans hinv.shipped, fun g hg => ?_, fun hw => by cases hw⟩
    rw [hguards] at hg
    cases hg

theorem step_session {r r' : Reading S} {a : ReadingAct} (h : Step r a r') :
    r'.session = r.session ∨ ∃ b, r.session.step b = some r'.session := by
  cases h with
  | passed a session hloop hmeets hs => exact Or.inr ⟨a, hs⟩
  | locked session hwaiting hguards hs => exact Or.inr ⟨_, hs⟩
  | _ => exact Or.inl rfl

theorem session_of_run {as : List ReadingAct} {r : Reading S} (h : run step (init S) as = some r) :
    ∃ bs, run Session.step (.init S true) bs = some r.session := by
  have hstep : ∀ (r : Reading S) (a : ReadingAct) (r' : Reading S) (s : Session S), s = r.session → r.step a = some r' →
      ∃ bs s', run Session.step s bs = some s' ∧ s' = r'.session := by
    rintro r a r' s rfl hs
    rcases step_session (step_cases hs) with heq | ⟨b, hb⟩
    · exact ⟨[], _, rfl, heq.symm⟩
    · exact ⟨[b], _, by rw [run_cons, hb]; rfl, rfl⟩
  obtain ⟨bs, s, hbs, rfl⟩ := run_simulation hstep rfl h
  exact ⟨bs, hbs⟩

/-- **Nothing moves while a guard is held.** As long as no guard is dropped a loop that waits for the lock does nothing:
no call is taken or completed, no event heard and no shutdown obeyed. -/
theorem standstill {r t : Reading S} {as : List ReadingAct} (hinv : Sound r) (hwaiting : r.waiting = true)
    (hguards : r.guards ≠ []) (hheld : ∀ n, .release n ∉ as) (h : run step r as = some t) :
    t.waiting = true ∧ t.guards = r.guards ∧ r.session.client.Idles t.session.client := by
  have hend : Sound t ∧ t.waiting = true ∧ t.guards = r.guards ∧
      r.session.client.Idles t.session.client := by
    refine run_invariant (P := fun a => ∀ n, a ≠ .release n)
      (I := fun t : Reading S => Sound t ∧ t.waiting = true ∧ t.guards = r.guards ∧
        r.session.client.Idles t.session.client)
      ?_ (fun a ha n he => by cases he; exact hheld n ha) ⟨hinv, hwaiting, rfl, rfl⟩ h
    rintro t a t' hne ⟨hsound, hw, hg, hidles⟩ ht
    have hcases := step_cases ht
    refine ⟨step_sound hsound hcases, ?_⟩
    cases hcases with
    | passed a session hloop hmeets hs =>
      exact ⟨hw, hg, hidles.trans (Session.step_aside hsound.shipped (hloop hw) hs).1⟩
    | met changes rest session hfree hguards hq hs => rw [hw] at hfree; cases hfree
    | read hfree => rw [hw] at hfree; cases hfree
    | released n => exact absurd rfl (hne n)
    | locked session hwaiting' hnone hs => exact absurd (hg ▸ hnone) hguards
  exact hend.2

/-! ## Where work ends -/

/-- The work of the session, and the lock. -/
def work (r : Reading S) : Nat := 2 * r.session.work + if r.waiting then 0 else 1

/-- The room there is: the message that a waiting loop has in hand takes none any more. -/
def room (socket : Socket) (r : Reading S) : Socket :=
  if r.waiting then { socket with down := fun messages => socket.down messages.tail } else socket

/-- A step of work. Guards are the application's. -/
def Work (socket : Socket) (returns : Request → Option (HandlerResult Bytes)) (r : Reading S) : ReadingAct → Prop
  | .session a => r.session.Work (r.room socket) returns a
  | .locked => True
  | _ => False

/-- The session is settled or deadlocked, or its loop waits for a guard and the server rests. -/
def Stands (socket : Socket) (returns : Request → Option (HandlerResult Bytes)) (r : Reading S) : Prop :=
  r.waiting = false ∧ (r.session.Settled returns ∨ r.session.Deadlocked socket) ∨
    r.waiting = true ∧ r.guards ≠ [] ∧ r.session.Rests (r.room socket) returns

section Progress
variable {socket : Socket} {returns : Request → Option (HandlerResult Bytes)} {r r' : Reading S} {a : ReadingAct}

theorem step_work (hW : r.Work socket returns a) (h : Step r a r') : r'.work < r.work := by
  cases h with
  | passed a session hloop hmeets hs =>
    have hless := Session.step_work hW hs
    rw [work, work]
    dsimp only
    omega
  | met changes rest session hfree hguards hq hs =>
    rw [work, work, hfree]
    exact Nat.lt_succ_self _
  | locked session hwaiting hguards hs =>
    have hreads : r.session.Work socket returns (.receive true) := rfl
    have hless := Session.step_work hreads hs
    rw [work, work, hwaiting, if_pos rfl, if_neg Bool.false_ne_true]
    dsimp only
    omega
  | read hfree => cases hW
  | released n => cases hW

theorem step_brings (h : Step r a r') : r'.work ≤ r.work + a.brings := by
  cases h with
  | passed b session hloop hmeets hs =>
    have hmore := Session.step_brings hs
    rw [work, work, ReadingAct.brings]
    dsimp only
    omega
  | met changes rest session hfree hguards hq hs =>
    rw [work, work, hfree]
    exact Nat.le_add_right _ 1
  | read hfree => exact Nat.le_refl _
  | released n => exact Nat.le_refl _
  | locked session hwaiting hguards hs =>
    have hmore : session.work ≤ r.session.work := Session.step_brings hs
    rw [work, work, hwaiting, if_pos rfl, if_neg Bool.false_ne_true, ReadingAct.brings]
    dsimp only
    omega

theorem step_up (hinv : r.session.Up) (ha : a.stays = true) (h : Step r a r') : r'.session.Up := by
  cases h with
  | passed a session hloop hmeets hs => exact Session.step_up hinv ha hs
  | locked session hwaiting hguards hs => exact Session.step_up hinv rfl hs
  | _ => exact hinv

theorem Work.stays (h : r.Work socket returns a) : a.stays = true := by
  cases a with
  | session a => exact Session.Work.stays h
  | _ => rfl

theorem stands_of_end (hinv : Sound r) (hup : r.session.Up)
    (hend : ∀ a r', r.Work socket returns a → r.step a ≠ some r') : Stands socket returns r := by
  cases hwaiting : r.waiting with
  | true =>
    refine Or.inr ⟨hwaiting, fun hguards => ?_, Session.rests_of_end hup.alive fun a session hW hs => ?_⟩
    · -- the lock is free, and the message in hand can be read
      obtain ⟨hselect, changes, rest, hq⟩ := hinv.waits hwaiting
      obtain ⟨session, hread⟩ := Session.receive_enabled hinv.shipped hselect hq
      refine hend .locked { r with session := session, waiting := false } trivial ?_
      rw [step, hwaiting, hguards, hread, List.isEmpty_nil, Bool.and_self, if_pos rfl, Option.map_some]
    · -- the server does not wait for the lock
      refine hend (.session (.conn a)) { r with session := session } hW ?_
      have haside : (SessionAct.conn a).ofLoop = false := rfl
      have hunmet : r.meets (.conn a) = false := rfl
      rw [step, haside, Bool.and_false, if_neg Bool.false_ne_true, hs, Option.map_some, hunmet,
        if_neg Bool.false_ne_true]
  | false =>
    have hroom : r.room socket = socket := if_neg (Bool.eq_false_iff.mp hwaiting)
    refine Or.inl ⟨hwaiting, Session.settled_of_end hup fun a session hW hs => ?_⟩
    have hW' : r.Work socket returns (.session a) := by
      rw [Work, hroom]
      exact hW
    refine hend (.session a) (if r.meets a then { r with waiting := true } else { r with session := session }) hW' ?_
    rw [step, hwaiting, Bool.false_and, if_neg Bool.false_ne_true, hs, Option.map_some]

end Progress

/-! ## The property -/

/-- **A guard shows the state as it is, and holds up the loop.** -/
structure Guarded (socket : Socket) (returns : Request → Option (HandlerResult Bytes)) (as : List ReadingAct)
    (r : Reading S) : Prop where
  /-- What a guard showed when it was taken is the state as it is. -/
  stable : ∀ g ∈ r.guards, g = r.session.client.state
  /-- The session takes no step that it does not take without readers. -/
  session : ∃ bs, run Session.step (.init S true) bs = some r.session
  /-- A loop that waits has met a state change, and does nothing until guards are dropped. -/
  waits : r.waiting = true → ∃ changes rest, r.session.conn.wsOut = .stateChange changes :: rest
  standstill : r.waiting = true → r.guards ≠ [] → ∀ bs t, (∀ n, .release n ∉ bs) → run step r bs = some t →
    t.waiting = true ∧ t.guards = r.guards ∧ r.session.client.Idles t.session.client
  /-- Over a connection that stays up, the work that is left comes to an end. Where it ends the session is settled, or
  both loops wait for their sends, or the client's waits for a guard and the server's has nothing to take or waits for
  a send. -/
  progress : (∀ a ∈ as, a.stays = true) →
    Progress step (fun r => r.Work socket returns) (fun _ a => a.stays = true) ReadingAct.brings
      (fun r => r.Stands socket returns) r.work r

/-- **Guards and the loop, in every run** of a session and an application that reads the state. -/
theorem guarded_of_run {as : List ReadingAct} {r : Reading S} (h : run step (init S) as = some r) (socket : Socket)
    (returns : Request → Option (HandlerResult Bytes)) : Guarded socket returns as r := by
  have hsound : Sound r :=
    run_invariant (P := fun _ => True) (fun _ _ _ _ hinv hs => step_sound hinv (step_cases hs)) (fun _ _ => trivial)
      (sound_init S) h
  refine ⟨hsound.stable, session_of_run h, fun hw => (hsound.waits hw).2,
    fun hw hguards bs t hheld hbs => standstill hsound hw hguards hheld hbs, fun hstays => ?_⟩
  have hup : r.session.Up :=
    run_invariant (P := fun a => a.stays = true) (I := fun r : Reading S => r.session.Up)
      (fun _ _ _ ha hinv hs => step_up hinv ha (step_cases hs)) hstays (Session.up_init S) h
  refine progress_of_measure (I := fun r => Sound r ∧ r.session.Up) ?_ ?_ ?_ ?_ ?_ ⟨hsound, hup⟩
  · rintro r a r' ⟨hinv, hup⟩ hW hs
    exact ⟨step_sound hinv (step_cases hs), step_up hup hW.stays (step_cases hs)⟩
  · rintro r a r' ⟨hinv, hup⟩ ha hs
    exact ⟨step_sound hinv (step_cases hs), step_up hup ha (step_cases hs)⟩
  · rintro r a r' - hW hs
    exact step_work hW (step_cases hs)
  · rintro r a r' - - hs
    exact step_brings (step_cases hs)
  · rintro r ⟨hinv, hup⟩ hend
    exact stands_of_end hinv hup hend

/-- The application holds a guard when a state change comes in, and then makes a call. -/
def readingRun : List ReadingAct :=
  [.session (.conn (.stateUpdate [⟨0, [1, 0, 0, 0]⟩])), .session (.conn .pollNext), .session (.conn .stateChange),
    .session (.conn (.sendDone true)), .read, .session (.receive true), .session (.client (.call [7]))]

theorem guarded_readingRun :
    ∃ r, run step (init counterState.toStateStruct) readingRun = some r ∧ r.waiting = true ∧
      r.guards.map counter = [0] ∧ Guarded Session.oneRoom (fun _ => none) readingRun r := by
  have hrun : (run step (init counterState.toStateStruct) readingRun).map (fun r =>
      (r.waiting, r.guards.map counter)) = some (true, [0]) := by decide
  obtain ⟨r, hr, hstate⟩ := Option.map_eq_some_iff.mp hrun
  rw [Prod.mk.injEq] at hstate
  exact ⟨r, hr, hstate.1, hstate.2, guarded_of_run hr _ _⟩

end Reading

end HardLight
