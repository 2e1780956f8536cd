import Mathlib.Logic.Function.Basic
import Mathlib.Tactic.Common

/-!
# The messages

The two message types of the wire protocol, the error a call can end with, and the values the event
side passes around: topics, events and subscription ids.

An application call is named by a number, `Call`: the identity of the `oneshot` sender that the
application hands over with it. Requests and responses carry it as a history variable `call`. It is not
part of the bytes on the wire and no branch of either loop reads it; it is there so that "the output of
its own call" can be said.
-/

namespace HardLight

abbrev Bytes := List UInt8

/-- The identity of a completion sender: the calls of one client, numbered in the order it makes them. -/
abbrev Call := Nat

inductive RpcHandlerError
  | clientNotConnected
  | tooManyCallsInFlight
  | clientEncodeError
  | clientDecodeError
  | serverEncodeError
  | serverDecodeError
  | clientCompressError
  | clientDecompressError
  | serverCompressError
  | serverDecompressError
  | handlerPanicked
  deriving DecidableEq, Repr

abbrev HandlerResult (α : Type) := Except RpcHandlerError α

/-- A topic: `Eq` is derived, so a string topic differs from the byte topic with the same bytes. -/
structure Topic where
  inner : Bytes
  isString : Bool
  deriving DecidableEq, Repr

/-- `[u8; 16]`, filled by `rand::thread_rng()`. -/
abbrev SubscriptionID := Vector UInt8 16

structure Event where
  topic : Topic
  payload : Bytes
  deriving DecidableEq, Repr

/-- An update of one field of the connection state. -/
structure StateUpdate where
  index : Nat
  data : Bytes
  deriving DecidableEq, Repr

/-- `ClientMessage::RPCRequest`, the only variant of `ClientMessage`. -/
structure Request where
  id : UInt8
  internal : Bytes
  call : Call
  deriving Repr

/-- The fields of `ServerMessage::RPCResponse`. -/
structure Response where
  id : UInt8
  output : HandlerResult Bytes
  call : Call

inductive ServerMessage
  | rpcResponse (response : Response)
  | newEvent (topic : Topic) (payload : Bytes)
  | stateChange (changes : List StateUpdate)

namespace ServerMessage

def response? : ServerMessage → Option Response
  | rpcResponse response => some response
  | _ => none

def event? : ServerMessage → Option Event
  | newEvent topic payload => some ⟨topic, payload⟩
  | _ => none

def changes? : ServerMessage → Option (List StateUpdate)
  | stateChange changes => some changes
  | _ => none

end ServerMessage

/-! ## Ids and slots

The client picks a slot of its table, a `usize` below 256, and sends it `as u8`; both ends index their
tables with the `u8` they receive `as usize`. -/

/-- `slot as u8`. -/
def idOf (slot : Fin 256) : UInt8 := UInt8.ofNat slot.val

/-- `id as usize`. -/
def slotOf (id : UInt8) : Fin 256 := ⟨id.toNat, id.toNat_lt⟩

@[simp] theorem slotOf_idOf (slot : Fin 256) : slotOf (idOf slot) = slot := by
  apply Fin.ext
  simp only [slotOf, idOf, UInt8.toNat_ofNat']
  exact Nat.mod_eq_of_lt slot.isLt

@[simp] theorem idOf_slotOf (id : UInt8) : idOf (slotOf id) = id := by
  simp [slotOf, idOf]

theorem slotOf_eq_iff {id : UInt8} {slot : Fin 256} : slotOf id = slot ↔ id = idOf slot := by
  constructor
  · rintro rfl
    simp
  · rintro rfl
    simp

theorem slotOf_injective : Function.Injective slotOf := by
  intro a b h
  rw [slotOf_eq_iff] at h
  simpa using h

end HardLight
