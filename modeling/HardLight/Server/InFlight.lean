import HardLight.Server.RpcView
import HardLight.Lib.Run
import Mathlib.Data.Fintype.Card

/-!
# The `in_flight` table against an arbitrary client

The connection loop with nothing assumed about its peer: any items in any order, any interleaving of
handler tasks, state updates, events and subscription notifications.

* `InFlight` : `in_flight[id]` counts the tasks and queued responses of `id`, and the handlers of `id`
  that panicked; `step_inFlight` keeps it whatever happens;
* `Accounted` : every accepted request is running, has answered once, or has panicked;
* `Alive`, `step_alive` : the loop never leaves its `select!`, so no handler task finds `rpc_rx` dropped;
* `Robust`, `robust_of_run` : the whole of it, for runs in which no handler panics.
-/

namespace HardLight
open Lib

namespace RpcView

/-- The handler tasks of `id` still running and the responses of `id` queued in `rpc_rx`. -/
def busy (v : RpcView) (id : UInt8) : Nat :=
  (v.tasks.map Request.id).count id + (v.rpcRx.map Response.id).count id

/-- `in_flight[id]` is set for as long as something of `id` is running, queued or crashed. -/
def InFlight (v : RpcView) : Prop :=
  ∀ id, (v.inFlight (slotOf id)).toNat = v.busy id + (v.crashed.map Request.id).count id

theorem update_slotOf (f : Fin 256 → Bool) (id id' : UInt8) (b : Bool) :
    Function.update f (slotOf id) b (slotOf id') = if id = id' then b else f (slotOf id') := by
  rw [Function.update_apply]
  simp only [slotOf_injective.eq_iff, eq_comm]

/-- **Every step of the server keeps the table.** -/
theorem step_inFlight {v v' : RpcView} {l : RpcLabel} (hinv : v.InFlight) (h : Step v l v') :
    v'.InFlight := by
  intro id
  have hid := hinv id
  cases h with
  | silent => exact hid
  | arrived r => exact hid
  | lost r rest hreq => exact hid
  | ignored r rest hreq hbusy => exact hid
  | accepted r rest hreq hfree =>
    simp only [busy, update_slotOf, List.map_append, List.map_cons, List.map_nil, List.count_append,
      List.count_singleton, beq_iff_eq] at hid ⊢
    split
    next heq =>
      rw [← heq, hfree] at hid
      rw [← heq]
      simp only [Bool.toNat_false, Bool.toNat_true] at hid ⊢
      omega
    next => omega
  | returned r output tasks hperm =>
    have hcount := (hperm.map Request.id).count_eq id
    simp only [busy, Request.respond, List.map_append, List.map_cons, List.map_nil, List.count_append,
      List.count_cons, List.count_nil] at hid hcount ⊢
    omega
  | panicked r tasks hperm =>
    have hcount := (hperm.map Request.id).count_eq id
    simp only [busy, List.map_append, List.map_cons, List.map_nil, List.count_append, List.count_cons,
      List.count_nil] at hid hcount ⊢
    omega
  | responded r rest hq =>
    simp only [busy, hq, update_slotOf, List.map_cons, List.count_cons, beq_iff_eq] at hid ⊢
    have hle := Bool.toNat_le (v.inFlight (slotOf id))
    split at hid
    next heq =>
      rw [if_pos heq]
      simp only [Bool.toNat_false]
      omega
    next heq =>
      rw [if_neg heq]
      omega
  | replyLost r front hrep => exact hid
  | read r rest hrep => exact hid

/-- The id and the call of a request or a response. -/
def requestKey (r : Request) : UInt8 × Call := (r.id, r.call)

def responseKey (r : Response) : UInt8 × Call := (r.id, r.call)

/-- The responses that handler tasks have sent on `rpc_rx`, in order. -/
def answered (v : RpcView) : List Response := v.responded ++ v.rpcRx

/-- Every accepted request is with a running task, has put one response of its own id on `rpc_rx`, or has
panicked. -/
def Accounted (v : RpcView) : Prop :=
  (v.accepted.map requestKey).Perm
    (v.tasks.map requestKey ++ (v.answered.map responseKey ++ v.crashed.map requestKey))

theorem step_accounted {v v' : RpcView} {l : RpcLabel} (hinv : v.Accounted) (h : Step v l v') :
    v'.Accounted := by
  refine List.perm_iff_count.mpr fun x => ?_
  have hx := hinv.count_eq x
  cases h with
  | silent => exact hx
  | arrived r => exact hx
  | lost r rest hreq => exact hx
  | ignored r rest hreq hbusy => exact hx
  | accepted r rest hreq hfree =>
    simp only [answered, List.map_append, List.map_cons, List.map_nil, List.count_append] at hx ⊢
    omega
  | returned r output tasks hperm =>
    have htasks := (hperm.map requestKey).count_eq x
    have hkey : responseKey (r.respond output) = requestKey r := rfl
    simp only [answered, hkey, List.map_append, List.map_cons, List.map_nil, List.count_append,
      List.count_cons, List.count_nil] at hx htasks ⊢
    omega
  | panicked r tasks hperm =>
    have htasks := (hperm.map requestKey).count_eq x
    simp only [answered, List.map_append, List.map_cons, List.map_nil, List.count_append,
      List.count_cons, List.count_nil] at hx htasks ⊢
    omega
  | responded r rest hq =>
    simp only [answered, hq, List.map_append, List.map_cons, List.map_nil, List.count_append,
      List.count_cons, List.count_nil] at hx ⊢
    omega
  | replyLost r front hrep => exact hx
  | read r rest hrep => exact hx

theorem Step.crashed_eq {v v' : RpcView} {l : RpcLabel} (h : Step v l v')
    (hl : ∀ r, l ≠ .panicked r) : v'.crashed = v.crashed := by
  cases h with
  | panicked r tasks hperm => exact absurd rfl (hl r)
  | _ => rfl

end RpcView

namespace Conn

theorem init_inFlight : init.rpcView.InFlight := fun _ => rfl

theorem init_accounted : init.rpcView.Accounted := List.Perm.refl _

/-- The loop's own `rpc_tx` keeps the response arm enabled, so `select!` never runs out of arms. -/
theorem allDisabled_eq_false (k : Conn) : k.allDisabled = false := by
  have hsend : (k.rpcSenders == 0) = false := by simp [rpcSenders]
  simp [allDisabled, hsend]

/-- The loop is running and no handler task has failed to send its response. -/
def Alive (k : Conn) : Prop := k.exited = false ∧ k.unwrapPanicked = false

theorem step_alive {k k' : Conn} {a : ConnAct} (hinv : k.Alive) (h : k.step a = some k') : k'.Alive := by
  obtain ⟨hex, hun⟩ := hinv
  cases step_cases h with
  | noArmLeft hpolls hall =>
    rw [allDisabled_eq_false] at hall
    cases hall
  | orphaned n output r hr hexited =>
    rw [hex] at hexited
    cases hexited
  | _ => exact ⟨hex, hun⟩

theorem rpcLabel_ne_panicked {k : Conn} {a : ConnAct} (hex : k.exited = false) (hp : a.panics = false)
    (r : Request) : k.rpcLabel a ≠ .panicked r := by
  intro hr
  cases a with
  | handlerPanics n => cases hp
  | handlerReturns n output =>
    simp only [rpcLabel, hex, Bool.false_eq_true, if_false] at hr
    split at hr <;> cases hr
  | _ =>
    simp only [rpcLabel] at hr
    repeat' first
      | cases hr
      | split at hr

theorem step_crashed {k k' : Conn} {a : ConnAct} (halive : k.Alive) (hp : a.panics = false)
    (h : k.step a = some k') : k'.crashed = k.crashed := by
  exact (step_rpcView h).crashed_eq (rpcLabel_ne_panicked halive.1 hp)

/-- The handler tasks of `id` that are unfinished or unanswered. -/
def unanswered (k : Conn) (id : UInt8) : Nat := k.rpcView.busy id

/-- What an arbitrary client cannot upset. -/
structure Robust (k : Conn) : Prop where
  in_flight_iff : ∀ id, k.inFlight (slotOf id) = true ↔ k.unanswered id = 1
  unanswered_le_one : ∀ id, k.unanswered id ≤ 1
  length_le : k.tasks.length + k.rpcRx.length ≤ 256
  /-- Every accepted request is still running or has put one response with its own id on `rpc_rx`. -/
  answered_once : (k.accepted.map RpcView.requestKey).Perm
    (k.tasks.map RpcView.requestKey ++ k.rpcView.answered.map RpcView.responseKey)
  /-- A request whose id is in flight is dropped; nothing else changes. -/
  busy_ignored : ∀ r rest decoded, k.polls .client = true → k.wsIn = .binary (some r) :: rest →
    k.inFlight (slotOf r.id) = true →
      k.step (.clientMessage decoded) = some { k with wsIn := rest, arm := .rpc }
  /-- When a handler returns, its response is queued and `unwrap` does not panic. -/
  handler_returns : ∀ n r output, k.tasks[n]? = some r → k.step (.handlerReturns n output) =
    some { k with tasks := k.tasks.eraseIdx n, rpcRx := k.rpcRx ++ [r.respond output] }
  no_unwrap_panic : k.unwrapPanicked = false

theorem unanswered_nodup {k : Conn} (h : ∀ id, k.unanswered id ≤ 1) :
    ((k.tasks.map Request.id ++ k.rpcRx.map Response.id).map slotOf).Nodup := by
  refine List.Nodup.map slotOf_injective (List.nodup_iff_count_le_one.mpr fun id => ?_)
  rw [List.count_append]
  exact h id

/-- **The connection loop is robust against every client**, as long as handlers do not panic. -/
theorem robust_of_run {as : List ConnAct} {k : Conn} (hpanic : ∀ a ∈ as, a.panics = false)
    (h : run step init as = some k) : Robust k := by
  have hinv : k.Alive ∧ k.crashed = [] ∧ k.rpcView.InFlight ∧ k.rpcView.Accounted := by
    refine run_invariant (P := fun a => a.panics = false) (I := fun k : Conn =>
      k.Alive ∧ k.crashed = [] ∧ k.rpcView.InFlight ∧ k.rpcView.Accounted) ?_ hpanic
      ⟨⟨rfl, rfl⟩, rfl, init_inFlight, init_accounted⟩ h
    rintro k a k' hp ⟨halive, hcr, htab, hacc⟩ hs
    exact ⟨step_alive halive hs, (step_crashed halive hp hs).trans hcr,
      RpcView.step_inFlight htab (step_rpcView hs), RpcView.step_accounted hacc (step_rpcView hs)⟩
  obtain ⟨⟨hex, hun⟩, hcr, htab, hacc⟩ := hinv
  have hcount : ∀ id, (k.inFlight (slotOf id)).toNat = k.unanswered id := by
    intro id
    have hid := htab id
    rw [rpcView_crashed, hcr] at hid
    simpa [unanswered] using hid
  have hle : ∀ id, k.unanswered id ≤ 1 := fun id => hcount id ▸ Bool.toNat_le _
  refine ⟨fun id => ?_, hle, ?_, ?_, ?_, ?_, hun⟩
  · rw [← hcount, Bool.toNat_eq_one]
  · have hlen := (unanswered_nodup hle).length_le_card
    simpa using hlen
  · have hperm := hacc
    unfold RpcView.Accounted at hperm
    rw [rpcView_crashed, hcr] at hperm
    simpa using hperm
  · intro r rest decoded hpoll hws hbusy
    cases decoded <;> simp [step, hpoll, onClientMessage, hws, hbusy]
  · intro n r output hr
    simp only [step, handlerReturns, hr, hex, Bool.false_eq_true, if_false, Request.respond]

/-- A client sends the same id twice, the second time while the first call is running, and garbage in
between. -/
def duplicateIdRun : List ConnAct :=
  [.peerSend (.binary (some ⟨7, [1], 0⟩)), .peerSend (.binary none), .peerSend (.binary (some ⟨7, [2], 1⟩)),
    .pollNext, .pollNext, .pollNext, .pollNext, .clientMessage true,
    .pollNext, .pollNext, .pollNext, .pollNext, .clientMessage true,
    .pollNext, .pollNext, .pollNext, .pollNext, .clientMessage true,
    .handlerReturns 0 (.ok [3]), .response, .sendDone true]

theorem robust_duplicateIdRun : ∃ k, run step init duplicateIdRun = some k ∧ Robust k := by
  have hrun : (run step init duplicateIdRun).isSome = true := rfl
  obtain ⟨k, hk⟩ := Option.isSome_iff_exists.mp hrun
  exact ⟨k, hk, robust_of_run (by decide) hk⟩

end Conn

end HardLight
