import HardLight.Macro.Rpc

/-!
# A service

What a server made with `#[rpc]` consists of: the generated code, what rkyv does for its types, and the methods
that the application implements.

* `StubCall` : a call of a method of the generated client;
* `Service.apply` : the service as a sequential object, whose operations are the methods of the trait;
* `Generated.served` : what `handle_rpc_call` makes of the bytes of a client method is the operation;
* `handle_cases` : what it makes of any other bytes is one operation at most.
-/

namespace HardLight
open Lib

/-- `implementation i` is the handler of connection number `i`; all of them share the state `σ`. -/
structure Service (τ : Type) (El : τ → Type) (σ : Type) where
  expansion : Expansion τ
  callCodec : Codec (RpcCall El expansion.rpcVariants)
  codec : (t : τ) → Codec (El t)
  implementation : Nat → Implementation El σ

/-- A call of a client method. -/
structure StubCall {τ : Type} {El : τ → Type} {σ : Type} (svc : Service τ El σ) where
  stub : ClientMethod τ
  mem : stub ∈ svc.expansion.clientMethods
  args : Args El stub.sig.types

/-- What a method returns, with its type. -/
abbrev Outcome {τ : Type} (El : τ → Type) := (t : τ) × HandlerResult (El t)

section Service
variable {τ : Type} {El : τ → Type} {σ : Type}

/-- An operation, on connection number `op.1`: what it returns and what it leaves. -/
def Service.apply (svc : Service τ El σ) (op : Nat × Invocation El) (s : σ) : Outcome El × σ :=
  let r := svc.implementation op.1 op.2.method op.2.args s
  (⟨op.2.method.output, r.1⟩, r.2)

namespace StubCall
variable {svc : Service τ El σ}

def invocation (c : StubCall svc) : Invocation El := ⟨c.stub.sig, c.args⟩

/-- What the call returns, when `make_rpc_call` gives `result`. -/
def outcome (c : StubCall svc) (result : HandlerResult Bytes) : Outcome El :=
  ⟨c.stub.sig.output, c.stub.response svc.codec result⟩

/-- What the call hands to `make_rpc_call`. -/
def request [DecidableEq τ] (c : StubCall svc) : Option (Option Bytes) :=
  c.stub.request svc.expansion svc.callCodec c.args

end StubCall

/-- `Handler::handle_rpc_call` of connection number `i`. -/
def Service.handle [DecidableEq τ] (svc : Service τ El σ) (i : Nat) (input : Bytes) (s : σ) : Option (Handled El σ) :=
  handleRpcCall svc.expansion svc.callCodec svc.codec (svc.implementation i) input s

/-- The service is generated from a trait whose arguments are named, the generated enum is one, and rkyv decodes
what it encodes. -/
structure Service.Generated (svc : Service τ El σ) : Prop where
  expands : ∃ toUppercase isIdent items, rpc toUppercase isIdent false items = some svc.expansion
  named : ∀ m, .method m ∈ svc.expansion.traitInput → m.Named
  distinct : (svc.expansion.rpcVariants.map Variant.ident).Nodup
  call_codec : svc.callCodec.Lawful
  codec : ∀ m, .method m ∈ svc.expansion.traitInput → (svc.codec m.output).Lawful

/-- **What a client method sends is served as the operation it stands for.** -/
theorem Service.Generated.served [DecidableEq τ] {svc : Service τ El σ} (h : svc.Generated) (c : StubCall svc) :
    ∃ bytes, c.request = some (some bytes) ∧ ∀ i s, ∃ response,
      svc.handle i bytes s = some ⟨[c.invocation], (svc.apply (i, c.invocation) s).2, some response⟩ ∧
        c.outcome response = (svc.apply (i, c.invocation) s).1 := by
  obtain ⟨⟨toUppercase, isIdent, items, hrpc⟩, hnamed, hdistinct, hcall, hcodec⟩ := h
  obtain ⟨expansion, callCodec, codec, implementation⟩ := svc
  obtain rfl := rpc_eq_some hrpc
  have hvariants : ((items.filterMap TraitItem.method?).map fun m =>
      snakeToPascalCase toUppercase m.ident).Nodup := by
    rwa [List.map_map] at hdistinct
  have hidents : ((items.filterMap TraitItem.method?).map Method.ident).Nodup := by
    refine List.Nodup.of_map (snakeToPascalCase toUppercase) ?_
    rwa [List.map_map]
  obtain ⟨stub, hstub, args⟩ := c
  obtain ⟨m, hm, rfl⟩ := List.mem_map.mp hstub
  have hvariant : VariantOf (rpcVariant toUppercase m) m := matches_of_named (hnamed m (mem_methods.mp hm))
  obtain ⟨call, hconstruct, hcallee, hbinds⟩ :=
    construct_binds hdistinct (List.mem_map_of_mem hm) hvariant args
  obtain ⟨bytes, hbytes⟩ := Option.isSome_iff_exists.mp (hcall.encodes call)
  refine ⟨bytes, ?_, fun i s => ?_⟩
  · show ((names m.pats).bind fun xs => _) = _
    rw [hvariant.pats, names_map_ident, Option.bind_some]
    exact (congrArg (Option.map callCodec.toBytes) hconstruct).trans (congrArg some hbytes)
  · obtain ⟨response, hanswer, hresponse⟩ := response_answer (clientMethod toUppercase m)
      (hcodec m (mem_methods.mp hm)) (implementation i m args s).1
    refine ⟨response, ?_, congrArg (Sigma.mk m.output) hresponse⟩
    have harm := find?_map_key ServerMethod.variantIdent (serverMethod toUppercase) hvariants hm
    rw [Service.handle, handleRpcCall_of_call rfl (hcall.decodes call bytes hbytes), hcallee]
    refine (congrArg (fun arm => Option.bind arm _) harm).trans ?_
    show (call.binds m.pats).bind _ = _
    rw [hbinds, Option.bind_some]
    refine (run_serverMethod (find?_key hidents hm) hvariant codec (implementation i) args s).trans ?_
    exact congrArg
      (fun result => some (⟨[⟨m, args⟩], (implementation i m args s).2, result⟩ : Handled El σ)) hanswer

/-- Whatever the bytes, at most one operation is done. -/
theorem Service.handle_cases [DecidableEq τ] {svc : Service τ El σ} {i : Nat} {input : Bytes} {s : σ}
    {handled : Handled El σ} (h : svc.handle i input s = some handled) :
    handled.invocations = [] ∧ handled.state = s ∨
      ∃ invocation, handled.invocations = [invocation] ∧ handled.state = (svc.apply (i, invocation) s).2 := by
  obtain ⟨arms, -, h⟩ := Option.bind_eq_some_iff.mp h
  split at h
  next => cases h; exact Or.inl ⟨rfl, rfl⟩
  next call hcall =>
    obtain ⟨arm, -, h⟩ := Option.bind_eq_some_iff.mp h
    obtain ⟨scope, -, h⟩ := Option.bind_eq_some_iff.mp h
    obtain ⟨m, -, h⟩ := Option.bind_eq_some_iff.mp h
    obtain ⟨xs, -, h⟩ := Option.bind_eq_some_iff.mp h
    obtain ⟨args, -, rfl⟩ := Option.map_eq_some_iff.mp h
    exact Or.inr ⟨⟨m, args⟩, rfl, rfl⟩

end Service

end HardLight
