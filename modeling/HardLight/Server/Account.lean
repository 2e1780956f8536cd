import HardLight.Server.InFlight
import Mathlib.Data.List.Perm.Subperm

/-!
# What is live of an id

A call travels as a request, a handler task, a queued response and a response on the wire.

* `live` : how many of these there are of an id; `keys` : all of them, with their id and call;
* `carried` : what is on the wire of an id and its entry of `in_flight`; `Step.carried` is the account of
  a server step: it brings what arrives and takes what is read, lost or ignored;
* `Step.mem_keys`, `Step.received` : a server step makes up no id, call or bytes.
-/

namespace HardLight
open Lib

namespace RpcView

/-- What is live of an id: requests on the wire, running handler tasks, responses queued in `rpc_rx` and
responses on the wire. -/
def live (v : RpcView) (id : UInt8) : Nat :=
  (v.requests.map Request.id).count id + (v.tasks.map Request.id).count id +
    (v.rpcRx.map Response.id).count id + (v.replies.map Response.id).count id

/-- What is on the wire of an id, and its entry of `in_flight`. -/
def carried (v : RpcView) (id : UInt8) : Nat :=
  (v.requests.map Request.id).count id + (v.inFlight (slotOf id)).toNat +
    (v.replies.map Response.id).count id

theorem carried_eq_live {v : RpcView} (h : v.InFlight) (id : UInt8) :
    v.carried id = v.live id + (v.crashed.map Request.id).count id := by
  have hid := h id
  simp only [carried, live, busy] at hid ⊢
  omega

/-- Everything live, with its id and its call. -/
def keys (v : RpcView) : List (UInt8 × Call) :=
  v.requests.map requestKey ++ v.tasks.map requestKey ++ v.rpcRx.map responseKey ++
    v.replies.map responseKey

theorem live_eq_count_keys (v : RpcView) (id : UInt8) : v.live id = (v.keys.map Prod.fst).count id := by
  have hreq : Prod.fst ∘ requestKey = Request.id := rfl
  have hres : Prod.fst ∘ responseKey = Response.id := rfl
  simp only [live, keys, List.map_append, List.map_map, List.count_append, hreq, hres]

theorem live_pos_of_mem_keys {v : RpcView} {x : UInt8 × Call} (h : x ∈ v.keys) : 0 < v.live x.1 := by
  rw [live_eq_count_keys]
  exact List.count_pos_iff.mpr (List.mem_map_of_mem h)

end RpcView

namespace RpcLabel

/-- The request that comes in. -/
def brings : RpcLabel → List Request
  | arrived r => [r]
  | _ => []

/-- The ids that go out. -/
def takes : RpcLabel → List UInt8
  | lost r => [r.id]
  | ignored r => [r.id]
  | replyLost r => [r.id]
  | read r => [r.id]
  | _ => []

end RpcLabel

namespace RpcView

/-- **The account of a server step.** -/
theorem Step.carried {v v' : RpcView} {l : RpcLabel} (hinv : v.InFlight) (h : Step v l v') (id : UInt8) :
    v'.carried id + l.takes.count id = v.carried id + (l.brings.map Request.id).count id := by
  have hid := hinv id
  cases h with
  | silent => rfl
  | arrived r => simp [RpcView.carried, RpcLabel.takes, RpcLabel.brings]; omega
  | lost r rest hreq =>
    simp [RpcView.carried, RpcLabel.takes, RpcLabel.brings, hreq, List.count_cons]
    omega
  | ignored r rest hreq hbusy =>
    simp [RpcView.carried, RpcLabel.takes, RpcLabel.brings, hreq, List.count_cons]
    omega
  | accepted r rest hreq hfree =>
    simp only [RpcView.carried, RpcLabel.takes, RpcLabel.brings, hreq, update_slotOf, List.map_cons,
      List.map_nil, List.count_cons, List.count_nil, beq_iff_eq]
    split
    next heq => rw [← heq, hfree]; simp
    next => omega
  | returned r output tasks hperm => rfl
  | panicked r tasks hperm => rfl
  | responded r rest hq =>
    simp only [busy, hq, List.map_cons, List.count_cons, beq_iff_eq] at hid
    simp only [RpcView.carried, RpcLabel.takes, RpcLabel.brings, update_slotOf, List.map_append,
      List.map_cons, List.map_nil, List.count_append, List.count_cons, List.count_nil, beq_iff_eq]
    have hle := Bool.toNat_le (v.inFlight (slotOf id))
    split at hid
    next heq => rw [if_pos heq, if_pos heq]; simp; omega
    next heq => rw [if_neg heq, if_neg heq]; omega
  | replyLost r front hrep =>
    simp [RpcView.carried, RpcLabel.takes, RpcLabel.brings, hrep, List.count_cons]
    omega
  | read r rest hrep =>
    simp [RpcView.carried, RpcLabel.takes, RpcLabel.brings, hrep, List.count_cons]
    omega

theorem Step.mem_keys {v v' : RpcView} {l : RpcLabel} (h : Step v l v') {x : UInt8 × Call}
    (hx : x ∈ v'.keys) : x ∈ v.keys ∨ x ∈ l.brings.map requestKey := by
  cases h with
  | silent => exact Or.inl hx
  | arrived r =>
    simp only [keys, RpcLabel.brings, List.map_append, List.mem_append] at hx ⊢
    tauto
  | lost r rest hreq =>
    simp only [keys, hreq, List.map_cons, List.mem_append, List.mem_cons] at hx ⊢
    tauto
  | ignored r rest hreq hbusy =>
    simp only [keys, hreq, List.map_cons, List.mem_append, List.mem_cons] at hx ⊢
    tauto
  | accepted r rest hreq hfree =>
    simp only [keys, hreq, List.map_append, List.map_cons, List.map_nil, List.mem_append, List.mem_cons]
      at hx ⊢
    tauto
  | returned r output tasks hperm =>
    have hmem := (hperm.map requestKey).mem_iff (a := x)
    have hkey : responseKey (r.respond output) = requestKey r := rfl
    simp only [keys, hkey, List.map_append, List.map_cons, List.map_nil, List.mem_append, List.mem_cons,
      hmem] at hx ⊢
    tauto
  | panicked r tasks hperm =>
    have hmem := (hperm.map requestKey).mem_iff (a := x)
    simp only [keys, List.map_cons, List.mem_append, List.mem_cons, hmem] at hx ⊢
    tauto
  | responded r rest hq =>
    simp only [keys, hq, List.map_append, List.map_cons, List.map_nil, List.mem_append, List.mem_cons]
      at hx ⊢
    tauto
  | replyLost r front hrep =>
    simp only [keys, hrep, List.map_append, List.mem_append] at hx ⊢
    tauto
  | read r rest hrep =>
    simp only [keys, hrep, List.map_cons, List.mem_append, List.mem_cons] at hx ⊢
    tauto

theorem Step.read_mem {v v' : RpcView} {r : Response} (h : Step v (.read r) v') : r ∈ v.replies := by
  cases h with
  | read r rest hrep => exact hrep ▸ List.mem_cons_self

theorem Step.ignored_busy {v v' : RpcView} {r : Request} (h : Step v (.ignored r) v') :
    r ∈ v.requests ∧ v.inFlight (slotOf r.id) = true := by
  cases h with
  | ignored r rest hreq hbusy => exact ⟨hreq ▸ List.mem_cons_self, hbusy⟩

/-- The bytes and the call of a request. -/
def requestBytes (r : Request) : Bytes × Call := (r.internal, r.call)

/-- The requests that are on the wire or have been accepted. -/
def received (v : RpcView) : List (Bytes × Call) :=
  v.requests.map requestBytes ++ v.accepted.map requestBytes

theorem Step.received {v v' : RpcView} {l : RpcLabel} (h : Step v l v') :
    v'.received.Subperm (v.received ++ l.brings.map requestBytes) := by
  rw [List.subperm_ext_iff]
  intro x _
  cases h with
  | accepted r rest hreq hfree =>
    simp only [RpcView.received, RpcLabel.brings, hreq, List.map_append, List.map_cons, List.map_nil,
      List.count_append, List.count_cons, List.count_nil]
    omega
  | arrived r =>
    simp only [RpcView.received, RpcLabel.brings, List.map_append, List.count_append]
    omega
  | lost r rest hreq =>
    simp only [RpcView.received, RpcLabel.brings, hreq, List.map_cons, List.map_nil, List.count_append,
      List.count_cons, List.count_nil]
    omega
  | ignored r rest hreq hbusy =>
    simp only [RpcView.received, RpcLabel.brings, hreq, List.map_cons, List.map_nil, List.count_append,
      List.count_cons, List.count_nil]
    omega
  | _ => simp [RpcView.received, RpcLabel.brings]

end RpcView

end HardLight
