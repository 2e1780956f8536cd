import HardLight.Session.Basic
import HardLight.Server.Account

/-!
# The client's table and the server's

* `outstanding` : the call a slot of the client stands for, from the moment its request is sent;
  `Step.outstanding`, `Receives.outstanding` : how the client's steps change it;
* `Table` : an id carries no more than its slot stands for, and everything live under it is of that call;
* `step_carried` : a step changes what an id carries as it changes the slot, unless a message is lost;
* `step_table` : every step of a session with the client loop keeps `Table`.
-/

namespace HardLight
open Lib

namespace ClientLoop
variable {S : StateStruct}

/-- The call whose request is out under a slot. -/
def outstanding (c : ClientLoop S) (slot : Fin 256) : Option Call :=
  match c.phase with
  | .sent slot' call => if slot = slot' then some call else c.activeRpcCalls slot
  | _ => c.activeRpcCalls slot

/-- The slot is filled, or the request branch has chosen it. -/
def taken (c : ClientLoop S) (slot : Fin 256) : Bool :=
  (c.activeRpcCalls slot).isSome ||
    match c.phase with
    | .sending slot' _ _ => decide (slot = slot')
    | .sent slot' _ => decide (slot = slot')
    | _ => false

/-- The slot the request branch has chosen is free. -/
def SendingFree (c : ClientLoop S) : Prop :=
  ∀ slot call internal, c.phase = .sending slot call internal → c.activeRpcCalls slot = none

theorem outstanding_select {c : ClientLoop S} (h : c.phase = .select) (slot : Fin 256) :
    c.outstanding slot = c.activeRpcCalls slot := by
  rw [outstanding, h]

theorem outstanding_sending {c : ClientLoop S} {slot' : Fin 256} {call : Call} {internal : Bytes}
    (h : c.phase = .sending slot' call internal) (slot : Fin 256) :
    c.outstanding slot = c.activeRpcCalls slot := by
  rw [outstanding, h]

theorem taken_of_outstanding {c : ClientLoop S} {slot : Fin 256} (h : c.outstanding slot ≠ none) :
    c.taken slot = true := by
  unfold outstanding at h
  unfold taken
  split at h
  next slot' call hphase =>
    rw [hphase]
    split at h
    next heq => simp [heq]
    next => simp [Option.isSome_iff_ne_none.mpr h]
  next => simp [Option.isSome_iff_ne_none.mpr h]

/-- The call that a request on its way out puts under a slot. -/
def sentUnder (out : Option Request) (slot : Fin 256) : Option Call :=
  match out with
  | some r => if slot = slotOf r.id then some r.call else none
  | none => none

/-- The slots after a step: the one of the request sent stands for its call. -/
theorem Step.outstanding {c c' : ClientLoop S} {out : Option Request} (h : Step c out c') (slot : Fin 256) :
    c'.outstanding slot = (sentUnder out slot).or (c.outstanding slot) := by
  cases h with
  | called internal => rfl
  | chosen slot' call internal rest hphase hq hfree => rw [outstanding_select hphase]; rfl
  | refused call internal rest hphase hq hfull => rw [outstanding_select hphase]; rfl
  | failed slot' call internal error hphase => rw [outstanding_sending hphase]; rfl
  | sent slot' call internal hphase =>
    rw [outstanding_sending hphase]
    simp only [ClientLoop.outstanding, sentUnder, slotOf_idOf]
    split <;> rfl
  | filled slot' call hphase =>
    rw [outstanding_select rfl]
    simp only [ClientLoop.outstanding, sentUnder, hphase, Function.update_apply, Option.none_or]
  | stopped hphase => rw [outstanding_select hphase]; rfl

theorem Step.outstanding_free {c c' : ClientLoop S} {r : Request} (h : Step c (some r) c')
    (hfree : c.SendingFree) : c.outstanding (slotOf r.id) = none := by
  cases h with
  | sent slot call internal hphase =>
    rw [outstanding_sending hphase, slotOf_idOf]
    exact hfree slot call internal hphase

theorem Step.sendingFree {c c' : ClientLoop S} {out : Option Request} (h : Step c out c')
    (hfree : c.SendingFree) : c'.SendingFree := by
  intro slot call internal hphase'
  cases h with
  | called => exact hfree slot call internal hphase'
  | chosen slot' call' internal' rest hphase hq hfree' => cases hphase'; exact hfree'
  | refused => cases hphase'
  | failed => cases hphase'
  | sent => cases hphase'
  | filled => cases hphase'
  | stopped => cases hphase'

theorem Receives.outstanding {c c' : ClientLoop S} {r : Option Response} (h : Receives c r c')
    (slot : Fin 256) : c'.outstanding slot =
      if r.map (fun r => slotOf r.id) = some slot then none else c.outstanding slot := by
  cases h with
  | completed r call hphase hslot =>
    rw [outstanding_select rfl, outstanding_select hphase]
    simp only [complete, Function.update_apply, Option.map_some, Option.some.injEq, eq_comm]
  | unknown r hphase hslot =>
    rw [outstanding_select hphase, Option.map_some]
    split
    next heq => rw [← Option.some.inj heq, hslot]
    next => rfl
  | other state events hphase => rfl

theorem Receives.sendingFree {c c' : ClientLoop S} {r : Option Response} (h : Receives c r c') :
    c'.SendingFree := by
  intro slot call internal hphase'
  cases h with
  | completed r call hphase hslot => cases hphase'
  | unknown r hphase hslot => rw [hphase] at hphase'; cases hphase'
  | other state events hphase => rw [hphase] at hphase'; cases hphase'

end ClientLoop

namespace Conn

theorem rpcLabel_brings {k : Conn} {a : ConnAct} (h : a.ofClient = false) :
    (k.rpcLabel a).brings = [] := by
  cases a with
  | peerSend item =>
    have hnone : item.request? = none := by simpa [ConnAct.ofClient] using h
    simp only [rpcLabel, hnone]
    rfl
  | peerRead => cases h
  | _ =>
    simp only [rpcLabel]
    repeat' first
      | rfl
      | split

/-- Where messages get through, the loop takes a request off the wire only to ignore or accept it. -/
theorem rpcLabel_takes {k : Conn} {a : ConnAct} (h : a.ofClient = false) (hok : a.succeeds = true) :
    (k.rpcLabel a).takes = [] ∨ ∃ r, k.rpcLabel a = .ignored r := by
  cases a with
  | peerSend item =>
    have hnone : item.request? = none := by simpa [ConnAct.ofClient] using h
    simp only [rpcLabel, hnone]
    exact Or.inl rfl
  | peerRead => cases h
  | clientMessage decoded =>
    have hdec : decoded = true := hok
    subst hdec
    simp only [rpcLabel, ↓reduceIte]
    split
    · split
      · exact Or.inr ⟨_, rfl⟩
      · exact Or.inl rfl
    · exact Or.inl rfl
  | sendDone ok =>
    have hsent : ok = true := hok
    subst hsent
    simp only [rpcLabel, ↓reduceIte]
    split <;> exact Or.inl rfl
  | _ =>
    simp only [rpcLabel]
    repeat' first
      | exact Or.inl rfl
      | split

end Conn

namespace Session
variable {S : StateStruct}

/-- How many calls the client has out under an id, 0 or 1. -/
def held (s : Session S) (id : UInt8) : Nat := (s.client.outstanding (slotOf id)).isSome.toNat

/-- The two tables agree up to what is on its way between them. -/
structure Table (s : Session S) : Prop where
  in_flight : s.conn.rpcView.InFlight
  sending_free : s.client.SendingFree
  carried_le : ∀ id, s.conn.rpcView.carried id ≤ s.held id
  owner : ∀ x ∈ s.conn.rpcView.keys, s.client.outstanding (slotOf x.1) = some x.2

theorem held_le_one (s : Session S) (id : UInt8) : s.held id ≤ 1 := Bool.toNat_le _

theorem table_init (shipped : Bool) : Table (init S shipped) where
  in_flight := Conn.init_inFlight
  sending_free slot call internal h := by cases h
  carried_le id := Nat.zero_le _
  owner x h := by cases h

/-! ## What a step does to an id -/

theorem inFlight_false_of_request {s : Session S} (hinv : Table s) {r : Request}
    (hr : r ∈ s.conn.rpcView.requests) : s.conn.inFlight (slotOf r.id) = false := by
  have hle := hinv.carried_le r.id
  have hone := s.held_le_one r.id
  have hpos : 0 < (s.conn.rpcView.requests.map Request.id).count r.id :=
    List.count_pos_iff.mpr (List.mem_map_of_mem hr)
  rw [RpcView.carried, Conn.rpcView_inFlight] at hle
  cases hb : s.conn.inFlight (slotOf r.id) with
  | false => rfl
  | true =>
    rw [hb, Bool.toNat_true] at hle
    omega

theorem outstanding_of_reply {s : Session S} (hinv : Table s) {r : Response}
    (hr : r ∈ s.conn.rpcView.replies) : s.client.outstanding (slotOf r.id) = some r.call :=
  hinv.owner (RpcView.responseKey r) (List.mem_append_right _ (List.mem_map_of_mem hr))

theorem held_of_outstanding_eq {s s' : Session S}
    (h : ∀ slot, s'.client.outstanding slot = s.client.outstanding slot) (id : UInt8) :
    s'.held id = s.held id := by
  rw [held, held, h]

theorem outstanding_client {s s' : Session S} (h : ClientLoop.Step s.client none s'.client) (slot : Fin 256) :
    s'.client.outstanding slot = s.client.outstanding slot := by
  rw [h.outstanding, ClientLoop.sentUnder, Option.none_or]

theorem outstanding_message {s s' : Session S} (h : ClientLoop.Receives s.client none s'.client)
    (slot : Fin 256) : s'.client.outstanding slot = s.client.outstanding slot := by
  rw [h.outstanding]
  simp

theorem held_request {s s' : Session S} {r : Request} (h : ClientLoop.Step s.client (some r) s'.client)
    (hfree : s.client.SendingFree) (id : UInt8) : s'.held id = s.held id + [r.id].count id := by
  have hnone := h.outstanding_free hfree
  rw [held, held, h.outstanding, ClientLoop.sentUnder, List.count_singleton]
  by_cases hid : r.id = id
  · subst hid
    simp [hnone]
  · have hslot : slotOf id ≠ slotOf r.id := fun he => hid (slotOf_injective he).symm
    simp [hid, hslot]

theorem held_response {s s' : Session S} {r : Response}
    (h : ClientLoop.Receives s.client (some r) s'.client)
    (howner : s.client.outstanding (slotOf r.id) = some r.call) (id : UInt8) :
    s'.held id + [r.id].count id = s.held id := by
  rw [held, held, h.outstanding, List.count_singleton]
  simp only [Option.map_some, Option.some.injEq]
  by_cases hid : r.id = id
  · subst hid
    simp [howner]
  · have hslot : slotOf r.id ≠ slotOf id := fun he => hid (slotOf_injective he)
    simp [hid, hslot]

/-- **The account of a step.** What an id carries changes as its slot does; only a message that does not
get through makes it less. -/
theorem step_carried {s s' : Session S} {a : SessionAct} (hship : s.shipped = true) (hinv : Table s)
    (h : RpcStep s s' a) (id : UInt8) :
    s'.conn.rpcView.carried id + s.held id ≤ s.conn.rpcView.carried id + s'.held id ∧
      (a.succeeds = true →
        s'.conn.rpcView.carried id + s.held id = s.conn.rpcView.carried id + s'.held id) := by
  cases h with
  | server a hclient hserver hview =>
    have hcarried := hview.carried hinv.in_flight id
    rw [Conn.rpcLabel_brings (hserver hship), List.map_nil, List.count_nil] at hcarried
    have hheld : s'.held id = s.held id := by rw [held, held, hclient]
    refine ⟨by omega, fun hok => ?_⟩
    rcases Conn.rpcLabel_takes (hserver hship) hok with htakes | ⟨r, hign⟩
    · rw [htakes, List.count_nil] at hcarried
      omega
    · rw [hign] at hview
      obtain ⟨hreq, hbusy⟩ := hview.ignored_busy
      rw [Conn.rpcView_inFlight, inFlight_false_of_request hinv hreq] at hbusy
      cases hbusy
  | aborted hclient hview =>
    have hheld : s'.held id = s.held id := by rw [held, held, hclient]
    rw [hview, hheld]
    exact ⟨Nat.le_refl _, fun _ => rfl⟩
  | client a hclient hview =>
    rw [hview, held_of_outstanding_eq (outstanding_client hclient)]
    exact ⟨Nat.le_refl _, fun _ => rfl⟩
  | request a r hclient hview =>
    have hcarried := hview.carried hinv.in_flight id
    have hheld := held_request hclient hinv.sending_free id
    simp only [RpcLabel.takes, RpcLabel.brings, List.count_nil, List.map_cons, List.map_nil] at hcarried
    omega
  | response r hclient hview =>
    have hcarried := hview.carried hinv.in_flight id
    have hheld := held_response hclient (outstanding_of_reply hinv hview.read_mem) id
    simp only [RpcLabel.takes, RpcLabel.brings, List.count_nil, List.map_nil] at hcarried
    omega
  | unreadable r hclient hview =>
    have hcarried := hview.carried hinv.in_flight id
    rw [held_of_outstanding_eq (outstanding_message hclient)]
    simp only [RpcLabel.brings, List.count_nil, List.map_nil] at hcarried
    refine ⟨by omega, fun hok => by cases hok⟩
  | message decoded hclient hview =>
    rw [hview, held_of_outstanding_eq (outstanding_message hclient)]
    exact ⟨Nat.le_refl _, fun _ => rfl⟩

theorem step_owner {s s' : Session S} {a : SessionAct} (hship : s.shipped = true) (hinv : Table s)
    (hin : s'.conn.rpcView.InFlight) (hle : ∀ id, s'.conn.rpcView.carried id ≤ s'.held id)
    (h : RpcStep s s' a) (x : UInt8 × Call) (hx : x ∈ s'.conn.rpcView.keys) :
    s'.client.outstanding (slotOf x.1) = some x.2 := by
  cases h with
  | server a hclient hserver hview =>
    rw [hclient]
    rcases hview.mem_keys hx with hx | hx
    · exact hinv.owner x hx
    · rw [Conn.rpcLabel_brings (hserver hship)] at hx
      cases hx
  | aborted hclient hview => rw [hclient]; exact hinv.owner x (hview ▸ hx)
  | client a hclient hview => rw [outstanding_client hclient]; exact hinv.owner x (hview ▸ hx)
  | request a r hclient hview =>
    rw [hclient.outstanding, ClientLoop.sentUnder]
    rcases hview.mem_keys hx with hx | hx
    · have hold := hinv.owner x hx
      have hslot : slotOf x.1 ≠ slotOf r.id := by
        intro he
        rw [he, hclient.outstanding_free hinv.sending_free] at hold
        cases hold
      rw [if_neg hslot, Option.none_or, hold]
    · rw [RpcLabel.brings, List.map_singleton, List.mem_singleton] at hx
      subst hx
      simp [RpcView.requestKey]
  | response r hclient hview =>
    -- nothing else is left under the id of the response
    have hpos := RpcView.live_pos_of_mem_keys hx
    have hcarried := hle x.1
    rw [RpcView.carried_eq_live hin, held, hclient.outstanding] at hcarried
    rw [hclient.outstanding]
    split at hcarried
    next => simp at hcarried; omega
    next hslot =>
      rw [if_neg hslot]
      rcases hview.mem_keys hx with hx | hx
      · exact hinv.owner x hx
      · cases hx
  | unreadable r hclient hview =>
    rw [outstanding_message hclient]
    rcases hview.mem_keys hx with hx | hx
    · exact hinv.owner x hx
    · cases hx
  | message decoded hclient hview => rw [outstanding_message hclient]; exact hinv.owner x (hview ▸ hx)

/-- **Every step of a session with the client loop keeps the two tables together.** -/
theorem step_table {s s' : Session S} {a : SessionAct} (hship : s.shipped = true) (hinv : Table s)
    (h : RpcStep s s' a) : Table s' := by
  have hin : s'.conn.rpcView.InFlight := by
    cases h with
    | server a hclient hserver hview => exact RpcView.step_inFlight hinv.in_flight hview
    | request a r hclient hview => exact RpcView.step_inFlight hinv.in_flight hview
    | response r hclient hview => exact RpcView.step_inFlight hinv.in_flight hview
    | unreadable r hclient hview => exact RpcView.step_inFlight hinv.in_flight hview
    | aborted hclient hview => exact hview ▸ hinv.in_flight
    | client a hclient hview => exact hview ▸ hinv.in_flight
    | message decoded hclient hview => exact hview ▸ hinv.in_flight
  have hle : ∀ id, s'.conn.rpcView.carried id ≤ s'.held id := by
    intro id
    have hstep := (step_carried hship hinv h id).1
    have hold := hinv.carried_le id
    omega
  refine ⟨hin, ?_, hle, step_owner hship hinv hin hle h⟩
  cases h with
  | server a hclient hserver hview => exact hclient ▸ hinv.sending_free
  | aborted hclient hview => exact hclient ▸ hinv.sending_free
  | client a hclient hview => exact hclient.sendingFree hinv.sending_free
  | request a r hclient hview => exact hclient.sendingFree hinv.sending_free
  | response r hclient hview => exact hclient.sendingFree
  | unreadable r hclient hview => exact hclient.sendingFree
  | message decoded hclient hview => exact hclient.sendingFree

end Session

end HardLight
