import HardLight.Client.Loop
import HardLight.Lib.Run
import Mathlib.Data.Fintype.Card

/-!
# The client loop against any server

The loop of `Client::connect` with a stream on which anything may come, until it ends. At its end the pattern
`Some(msg) = stream.next()` does not match and the branch is disabled; the loop goes on with the others.

* `StreamStep`, `step_cases` : what a step can do, by the action taken;
* `places` : where the completion sender of a call is or has gone to: the queue, the request branch, a slot,
  or the application;
* `Accounted`, `step_accounted` : every call made has one place, and no other call has any;
* `StreamStep.slot` : the slots after a step.
-/

namespace HardLight
open Lib

structure ClientStream (S : StateStruct) where
  loop : ClientLoop S
  /-- The number of completions when `stream.next()` first gave `None`. -/
  endedAt : Option Nat

inductive StreamAct
  | loop (a : ClientAct)
  /-- `stream.next()` gives an item. -/
  | receive (msg : Option ServerMessage)
  | streamEnd

namespace StreamAct

/-- The action is the processing of a response with the id of the slot. -/
def answers (slot : Fin 256) : StreamAct → Bool
  | receive (some (.rpcResponse r)) => decide (slotOf r.id = slot)
  | _ => false

def isMessage : StreamAct → Bool
  | receive _ => true
  | _ => false

end StreamAct

namespace ClientLoop
variable {S : StateStruct}

/-- The call whose completion sender the request branch holds. -/
def inHand (c : ClientLoop S) : Option Call :=
  match c.phase with
  | .sending _ call _ => some call
  | .sent _ call => some call
  | _ => none

/-- The slot that the request branch has chosen. -/
def chosen (c : ClientLoop S) : Option (Fin 256) :=
  match c.phase with
  | .sending slot _ _ => some slot
  | .sent slot _ => some slot
  | _ => none

end ClientLoop

theorem response_eq_some {msg : Option ServerMessage} {r : Response} :
    msg.bind ServerMessage.response? = some r ↔ msg = some (.rpcResponse r) := by
  constructor
  · intro h
    obtain ⟨m, rfl, hm⟩ := Option.bind_eq_some_iff.mp h
    cases m with
    | rpcResponse r' =>
      cases hm
      rfl
    | _ => cases hm
  · rintro rfl
    rfl

namespace ClientStream
variable {S : StateStruct}

def init (S : StateStruct) : ClientStream S where
  loop := .init S
  endedAt := none

def step (s : ClientStream S) : StreamAct → Option (ClientStream S)
  | .loop a => (s.loop.step a).map fun x => { s with loop := x.1 }
  | .receive msg =>
    match s.endedAt with
    | none => (s.loop.onServerMessage msg).map fun loop => { s with loop := loop }
    | some _ => none
  | .streamEnd =>
    match s.loop.phase, s.endedAt with
    | .select, none => some { s with endedAt := some s.loop.completions.length }
    | _, _ => none

/-! ## What a step can do -/

/-- The steps, by their actions. -/
inductive StreamStep (s : ClientStream S) : StreamAct → ClientStream S → Prop
  | called (internal : Bytes) : StreamStep s (.loop (.call internal)) { s with loop := { s.loop with
      rpcRequestRx := s.loop.rpcRequestRx ++ [(internal, s.loop.issued.length)]
      issued := s.loop.issued ++ [{ internal := internal, seen := s.loop.answered }] } }
  | chosen (slot : Fin 256) (call : Call) (internal : Bytes) (rest : List (Bytes × Call))
      (hphase : s.loop.phase = .select) (hq : s.loop.rpcRequestRx = (internal, call) :: rest)
      (hfree : s.loop.activeRpcCalls slot = none) :
      StreamStep s (.loop .takeRequest) { s with loop := { s.loop with
        rpcRequestRx := rest, phase := .sending slot call internal } }
  | refused (call : Call) (internal : Bytes) (rest : List (Bytes × Call)) (hphase : s.loop.phase = .select)
      (hq : s.loop.rpcRequestRx = (internal, call) :: rest) (hfull : ∀ slot, s.loop.activeRpcCalls slot ≠ none) :
      StreamStep s (.loop .takeRequest) { s with loop :=
        { s.loop with rpcRequestRx := rest }.complete call (.failed .tooManyCallsInFlight) }
  | failed (slot : Fin 256) (call : Call) (internal : Bytes) (outcome : SendOutcome) (error : RpcHandlerError)
      (hphase : s.loop.phase = .sending slot call internal) (herror : outcome.error? = some error) :
      StreamStep s (.loop (.send outcome)) { s with loop := s.loop.complete call (.failed error) }
  | sent (slot : Fin 256) (call : Call) (internal : Bytes)
      (hphase : s.loop.phase = .sending slot call internal) :
      StreamStep s (.loop (.send .sent)) { s with loop := { s.loop with phase := .sent slot call } }
  | filled (slot : Fin 256) (call : Call) (hphase : s.loop.phase = .sent slot call) :
      StreamStep s (.loop .fillSlot) { s with loop := { s.loop with
        activeRpcCalls := Function.update s.loop.activeRpcCalls slot (some call), phase := .select } }
  | stopped (hphase : s.loop.phase = .select) :
      StreamStep s (.loop .shutdown) { s with loop := { s.loop with phase := .exited } }
  | completed (r : Response) (call : Call) (hphase : s.loop.phase = .select) (hopen : s.endedAt = none)
      (hslot : s.loop.activeRpcCalls (slotOf r.id) = some call) :
      StreamStep s (.receive (some (.rpcResponse r))) { s with loop := ({ s.loop with
        activeRpcCalls := Function.update s.loop.activeRpcCalls (slotOf r.id) none }.complete call
          (.output r.output)) }
  | unknown (r : Response) (hphase : s.loop.phase = .select) (hopen : s.endedAt = none)
      (hslot : s.loop.activeRpcCalls (slotOf r.id) = none) :
      StreamStep s (.receive (some (.rpcResponse r))) s
  | other (msg : Option ServerMessage) (state : S.State) (events : List Event)
      (hmsg : ∀ r, msg ≠ some (.rpcResponse r)) (hphase : s.loop.phase = .select) (hopen : s.endedAt = none) :
      StreamStep s (.receive msg) { s with loop := { s.loop with state := state, events := events } }
  | ended (hphase : s.loop.phase = .select) (hopen : s.endedAt = none) :
      StreamStep s .streamEnd { s with endedAt := some s.loop.completions.length }

theorem loop_cases {s : ClientStream S} {a : ClientAct} {x : ClientLoop S × Option Request}
    (h : s.loop.step a = some x) : StreamStep s (.loop a) { s with loop := x.1 } := by
  cases a with
  | call internal =>
    obtain ⟨c, hcall, rfl⟩ := Option.map_eq_some_iff.mp h
    rw [ClientLoop.call_cases hcall]
    exact .called internal
  | takeRequest =>
    obtain ⟨c, htake, rfl⟩ := Option.map_eq_some_iff.mp h
    obtain ⟨internal, call, rest, hphase, hq, ⟨slot, hfree, rfl⟩ | ⟨hfull, rfl⟩⟩ :=
      ClientLoop.takeRequest_cases htake
    · exact .chosen slot call internal rest hphase hq hfree
    · exact .refused call internal rest hphase hq hfull
  | send outcome =>
    obtain ⟨slot, call, internal, hphase, ⟨rfl, rfl⟩ | ⟨error, herror, rfl⟩⟩ := ClientLoop.onSend_cases h
    · exact .sent slot call internal hphase
    · exact .failed slot call internal outcome error hphase herror
  | fillSlot =>
    obtain ⟨c, hfill, rfl⟩ := Option.map_eq_some_iff.mp h
    obtain ⟨slot, call, hphase, rfl⟩ := ClientLoop.fillSlot_cases hfill
    exact .filled slot call hphase
  | shutdown =>
    obtain ⟨c, hshut, rfl⟩ := Option.map_eq_some_iff.mp h
    obtain ⟨hphase, rfl⟩ := ClientLoop.shutdown_cases hshut
    exact .stopped hphase

theorem receive_cases {s : ClientStream S} {msg : Option ServerMessage} {c : ClientLoop S}
    (hopen : s.endedAt = none) (h : s.loop.onServerMessage msg = some c) :
    StreamStep s (.receive msg) { s with loop := c } := by
  have hcases := ClientLoop.onServerMessage_cases h
  cases hmsg : msg.bind ServerMessage.response? with
  | some r =>
    obtain rfl := response_eq_some.mp hmsg
    rw [hmsg] at hcases
    cases hcases with
    | completed _ call hphase hslot => exact .completed r call hphase hopen hslot
    | unknown _ hphase hslot => exact .unknown r hphase hopen hslot
  | none =>
    rw [hmsg] at hcases
    cases hcases with
    | other state events hphase =>
      refine .other msg state events (fun r heq => ?_) hphase hopen
      rw [response_eq_some.mpr heq] at hmsg
      cases hmsg

theorem step_cases {s s' : ClientStream S} {a : StreamAct} (h : s.step a = some s') :
    StreamStep s a s' := by
  unfold step at h
  split at h
  next a =>
    obtain ⟨x, hx, rfl⟩ := Option.map_eq_some_iff.mp h
    exact loop_cases hx
  next msg =>
    split at h
    next hopen =>
      obtain ⟨c, hc, rfl⟩ := Option.map_eq_some_iff.mp h
      exact receive_cases hopen hc
    next => cases h
  next =>
    split at h
    next hphase hopen => cases h; exact .ended hphase hopen
    next => cases h

/-! ## The slots -/

/-- **The slots after a step**: a slot is filled only with the call in hand, emptied only by a response with
its id, and left alone otherwise. -/
theorem StreamStep.slot {s s' : ClientStream S} {a : StreamAct} (h : StreamStep s a s') (slot : Fin 256) :
    s'.loop.activeRpcCalls slot = s.loop.activeRpcCalls slot ∨
      (a = .loop .fillSlot ∧ ∃ call, s.loop.phase = .sent slot call ∧
        s'.loop.activeRpcCalls slot = some call) ∨
      (a.answers slot = true ∧ s'.loop.activeRpcCalls slot = none) := by
  cases h with
  | filled slot' call hphase =>
    show Function.update s.loop.activeRpcCalls slot' (some call) slot = _ ∨ _
    by_cases heq : slot = slot'
    · subst heq
      refine Or.inr (Or.inl ⟨rfl, call, hphase, ?_⟩)
      show Function.update s.loop.activeRpcCalls slot (some call) slot = some call
      rw [Function.update_self]
    · rw [Function.update_of_ne heq]
      exact Or.inl rfl
  | completed r call hphase hopen hslot =>
    show Function.update s.loop.activeRpcCalls (slotOf r.id) none slot = _ ∨ _
    by_cases heq : slotOf r.id = slot
    · subst heq
      refine Or.inr (Or.inr ⟨by simp [StreamAct.answers], ?_⟩)
      show Function.update s.loop.activeRpcCalls (slotOf r.id) none (slotOf r.id) = none
      rw [Function.update_self]
    · rw [Function.update_of_ne fun h => heq h.symm]
      exact Or.inl rfl
  | _ => exact Or.inl rfl

theorem StreamStep.grows {s s' : ClientStream S} {a : StreamAct} (h : StreamStep s a s') :
    (∃ completions, s'.loop.completions = s.loop.completions ++ completions) ∧
      (s'.loop.phase = .exited → s.loop.phase = .exited ∨ a = .loop .shutdown) := by
  cases h with
  | refused call internal rest hphase hq hfull => exact ⟨⟨_, rfl⟩, fun hexit => by cases hexit⟩
  | failed slot call internal outcome error hphase herror => exact ⟨⟨_, rfl⟩, fun hexit => by cases hexit⟩
  | completed r call hphase hopen hslot => exact ⟨⟨_, rfl⟩, fun hexit => by cases hexit⟩
  | stopped hphase => exact ⟨⟨[], (List.append_nil _).symm⟩, fun _ => Or.inr rfl⟩
  | chosen slot call internal rest hphase hq hslot =>
    exact ⟨⟨[], (List.append_nil _).symm⟩, fun hexit => by cases hexit⟩
  | sent slot call internal hphase => exact ⟨⟨[], (List.append_nil _).symm⟩, fun hexit => by cases hexit⟩
  | filled slot call hphase => exact ⟨⟨[], (List.append_nil _).symm⟩, fun hexit => by cases hexit⟩
  | _ => exact ⟨⟨[], (List.append_nil _).symm⟩, fun hexit => Or.inl hexit⟩

/-! ## Where a call is -/

/-- The slots that hold the call. -/
def holders (table : Fin 256 → Option Call) (call : Call) : Finset (Fin 256) :=
  Finset.univ.filter fun slot => table slot = some call

theorem mem_holders {table : Fin 256 → Option Call} {call : Call} {slot : Fin 256} :
    slot ∈ holders table call ↔ table slot = some call := by
  simp [holders]

theorem card_holders_fill (table : Fin 256 → Option Call) {slot : Fin 256} (hfree : table slot = none)
    (call call' : Call) : (holders (Function.update table slot (some call')) call).card =
      (holders table call).card + if call' = call then 1 else 0 := by
  by_cases h : call' = call
  · subst h
    have hins : holders (Function.update table slot (some call')) call' = insert slot (holders table call') := by
      ext slot'
      rw [Finset.mem_insert, mem_holders, mem_holders, Function.update_apply]
      by_cases heq : slot' = slot <;> simp [heq]
    rw [hins, Finset.card_insert_of_notMem (by rw [mem_holders, hfree]; simp), if_pos rfl]
  · have hsame : holders (Function.update table slot (some call')) call = holders table call := by
      ext slot'
      rw [mem_holders, mem_holders, Function.update_apply]
      by_cases heq : slot' = slot <;> simp [heq, hfree, h]
    rw [hsame, if_neg h, Nat.add_zero]

theorem card_holders_empty {table : Fin 256 → Option Call} {slot : Fin 256} {call' : Call}
    (hslot : table slot = some call') (call : Call) : (holders table call).card =
      (holders (Function.update table slot none) call).card + if call' = call then 1 else 0 := by
  have hfill := card_holders_fill (Function.update table slot none) (Function.update_self slot none table)
    call call'
  rwa [Function.update_idem, ← hslot, Function.update_eq_self] at hfill

end ClientStream

namespace ClientLoop
variable {S : StateStruct}

/-- In how many places the completion sender of the call is or has gone to. -/
def places (c : ClientLoop S) (call : Call) : Nat :=
  (c.rpcRequestRx.map Prod.snd).count call + (if c.inHand = some call then 1 else 0) +
    (ClientStream.holders c.activeRpcCalls call).card + (c.completions.map Prod.fst).count call

/-- Every call made has one place, and the slot chosen is free. -/
structure Accounted (c : ClientLoop S) : Prop where
  chosen_free : ∀ slot, c.chosen = some slot → c.activeRpcCalls slot = none
  one_place : ∀ call : Nat, c.places call = if call < c.issued.length then 1 else 0

end ClientLoop

namespace ClientStream
variable {S : StateStruct}

theorem init_accounted (S : StateStruct) : (init S).loop.Accounted where
  chosen_free slot h := by cases h
  one_place call := by
    show 0 + 0 + (holders (fun _ => none) call).card + 0 = 0
    simp [holders]

theorem StreamStep.chosen_free {s s' : ClientStream S} {a : StreamAct} (h : StreamStep s a s')
    (hfree : ∀ slot, s.loop.chosen = some slot → s.loop.activeRpcCalls slot = none) :
    ∀ slot, s'.loop.chosen = some slot → s'.loop.activeRpcCalls slot = none := by
  intro slot hslot
  cases h with
  | chosen slot' call internal rest hphase hq hslot' => cases hslot; exact hslot'
  | sent slot' call internal hphase =>
    refine hfree slot ?_
    rw [ClientLoop.chosen, hphase]
    exact hslot
  | called internal => exact hfree slot hslot
  | unknown r hphase hopen hnone => exact hfree slot hslot
  | other msg state events hmsg hphase hopen => exact hfree slot hslot
  | ended hphase hopen => exact hfree slot hslot
  | _ => cases hslot

/-- A step takes completion senders from one place to another; a call made is one more sender. -/
theorem StreamStep.places {s s' : ClientStream S} {a : StreamAct} (h : StreamStep s a s')
    (hfree : ∀ slot, s.loop.chosen = some slot → s.loop.activeRpcCalls slot = none) (call : Call) :
    (s'.loop.issued.length = s.loop.issued.length + 1 ∧
        s'.loop.places call = s.loop.places call + if s.loop.issued.length = call then 1 else 0) ∨
      (s'.loop.issued.length = s.loop.issued.length ∧ s'.loop.places call = s.loop.places call) := by
  unfold ClientLoop.places
  cases h with
  | called internal =>
    refine Or.inl ⟨by simp, ?_⟩
    show ((s.loop.rpcRequestRx ++ [(internal, s.loop.issued.length)]).map Prod.snd).count call +
      (if s.loop.inHand = some call then 1 else 0) + _ + _ = _
    rw [List.map_append, List.count_append, List.map_singleton, List.count_singleton]
    simp only [beq_iff_eq]
    omega
  | chosen slot call' internal rest hphase hq hslot =>
    refine Or.inr ⟨rfl, ?_⟩
    simp only [ClientLoop.inHand, hphase, hq, List.map_cons, List.count_cons, beq_iff_eq,
      Option.some.injEq, reduceCtorEq, if_false]
    omega
  | refused call' internal rest hphase hq hfull =>
    refine Or.inr ⟨rfl, ?_⟩
    simp only [ClientLoop.inHand, ClientLoop.complete, hphase, hq, List.map_append, List.count_append, List.map_cons,
      List.map_nil, List.count_cons, List.count_nil, beq_iff_eq, reduceCtorEq, if_false]
    omega
  | failed slot call' internal outcome error hphase herror =>
    refine Or.inr ⟨rfl, ?_⟩
    simp only [ClientLoop.inHand, ClientLoop.complete, hphase, List.map_append, List.count_append, List.map_cons,
      List.map_nil, List.count_cons, List.count_nil, beq_iff_eq, Option.some.injEq, reduceCtorEq, if_false]
    omega
  | sent slot call' internal hphase =>
    refine Or.inr ⟨rfl, ?_⟩
    simp only [ClientLoop.inHand, hphase, Option.some.injEq]
  | filled slot call' hphase =>
    refine Or.inr ⟨rfl, ?_⟩
    have hcard := card_holders_fill _ (hfree slot (by rw [ClientLoop.chosen, hphase])) call call'
    simp only [ClientLoop.inHand, hphase, hcard, Option.some.injEq, reduceCtorEq, if_false]
    omega
  | stopped hphase =>
    refine Or.inr ⟨rfl, ?_⟩
    simp only [ClientLoop.inHand, hphase, reduceCtorEq, if_false]
  | completed r call' hphase hopen hslot =>
    refine Or.inr ⟨rfl, ?_⟩
    have hcard := card_holders_empty hslot call
    simp only [ClientLoop.inHand, ClientLoop.complete, hphase, hcard, List.map_append, List.count_append,
      List.map_cons, List.map_nil, List.count_cons, List.count_nil, beq_iff_eq, reduceCtorEq, if_false]
    omega
  | unknown r hphase hopen hslot => exact Or.inr ⟨rfl, rfl⟩
  | other msg state events hmsg hphase hopen => exact Or.inr ⟨rfl, rfl⟩
  | ended hphase hopen => exact Or.inr ⟨rfl, rfl⟩

theorem step_accounted {s s' : ClientStream S} {a : StreamAct} (hinv : s.loop.Accounted)
    (h : s.step a = some s') : s'.loop.Accounted where
  chosen_free := (step_cases h).chosen_free hinv.chosen_free
  one_place call := by
    have hone := hinv.one_place call
    rcases (step_cases h).places hinv.chosen_free call with ⟨hissued, hplaces⟩ | ⟨hissued, hplaces⟩
    · rw [hissued, hplaces, hone]
      split_ifs <;> omega
    · rw [hissued, hplaces, hone]

end ClientStream

namespace ClientLoop
variable {S : StateStruct}

theorem Accounted.of_inHand {c : ClientLoop S} (hinv : c.Accounted) {call : Nat}
    (hhand : c.inHand = some call) : call < c.issued.length ∧ call ∉ c.completions.map Prod.fst := by
  have hone := hinv.one_place call
  rw [places, if_pos hhand] at hone
  by_cases hmade : call < c.issued.length
  · rw [if_pos hmade] at hone
    exact ⟨hmade, List.count_eq_zero.mp (by omega)⟩
  · rw [if_neg hmade] at hone
    omega

theorem Accounted.completed {c : ClientLoop S} (hinv : c.Accounted) {call : Nat}
    (hmade : call < c.issued.length) (hqueue : call ∉ c.rpcRequestRx.map Prod.snd)
    (hslots : ∀ slot, c.activeRpcCalls slot ≠ some call) :
    c.inHand = some call ∨ call ∈ c.completions.map Prod.fst := by
  have hone := hinv.one_place call
  have hnone : ClientStream.holders c.activeRpcCalls call = ∅ :=
    Finset.eq_empty_of_forall_notMem fun slot hmem => hslots slot (ClientStream.mem_holders.mp hmem)
  rw [places, if_pos hmade, List.count_eq_zero.mpr hqueue, hnone, Finset.card_empty] at hone
  by_cases hhand : c.inHand = some call
  · exact Or.inl hhand
  · rw [if_neg hhand] at hone
    exact Or.inr (List.count_pos_iff.mp (by omega))

end ClientLoop

end HardLight
