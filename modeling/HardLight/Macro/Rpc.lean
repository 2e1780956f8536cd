import HardLight.Lib.Scope
import HardLight.Macro.PascalCase
import HardLight.State.Update

/-!
# The code that `#[rpc]` generates

From the methods of a trait the macro makes, one independently of the other, the variants of the enum
`RpcCall`, the arms of `handle_rpc_call` and the methods of the client. Generated code is data here, run by
looking names up as the compiler does; `none` is code that does not compile.

* `rpc` : what the macro generates;
* `RpcCall` : the values of the generated enum; `RpcCall.construct`, `RpcCall.binds` : the struct expression
  and the struct pattern of a variant;
* `handleRpcCall`, `ClientMethod.request`, `ClientMethod.response` : the generated code, run;
* `construct_binds` : for named arguments the enum carries what a client method is called with to the arm of
  the same method;
* `transparent_of_rpc` : a remote call is a call of the method.
-/

namespace HardLight
open Lib

/-! ## The trait -/

/-- `syn::Pat`, as far as the macro and the compiler of its output look into it. -/
inductive Pat
  | ident (name : String)
  | other
  deriving DecidableEq, Repr

def Pat.name? : Pat → Option String
  | ident name => some name
  | other => none

inductive FnArg (τ : Type)
  | receiver
  | typed (pat : Pat) (ty : τ)
  deriving DecidableEq, Repr

namespace FnArg
variable {τ : Type}

def pat? : FnArg τ → Option Pat
  | typed pat _ => some pat
  | receiver => none

def ty? : FnArg τ → Option τ
  | typed _ ty => some ty
  | receiver => none

/-- `#ident: #ty` -/
def field? : FnArg τ → Option (String × τ)
  | typed (.ident name) ty => some (name, ty)
  | _ => none

end FnArg

/-- The signature of a method, under the rules of the language for its arguments. -/
structure Method (τ : Type) where
  ident : String
  inputs : List (FnArg τ)
  /-- The `T` of `HandlerResult<T>`. -/
  output : τ
  /-- The generated bodies use `self`. -/
  receiver : .receiver ∈ inputs
  distinct : ((inputs.filterMap FnArg.field?).map Prod.fst).Nodup

namespace Method
variable {τ : Type}

def pats (m : Method τ) : List Pat := m.inputs.filterMap FnArg.pat?

def types (m : Method τ) : List τ := m.inputs.filterMap FnArg.ty?

/-- Every argument is a name with its type. -/
def Named (m : Method τ) : Prop := ∀ pat ∈ m.pats, ∃ name, pat = .ident name

end Method

inductive TraitItem (τ : Type)
  | method (method : Method τ)
  | other

def TraitItem.method? {τ : Type} : TraitItem τ → Option (Method τ)
  | method m => some m
  | other => none

/-! ## What the macro generates -/

/-- `#variant_ident { #(#inputs),* }` in the enum. -/
structure Variant (τ : Type) where
  ident : String
  fields : List (String × τ)
  deriving DecidableEq

namespace Variant
variable {τ : Type}

def names (v : Variant τ) : List String := v.fields.map Prod.fst

def types (v : Variant τ) : List τ := v.fields.map Prod.snd

end Variant

/-- `RpcCall::#variant_ident { #(#inputs),* } => { let result = self.#method_ident(#(#inputs),*).await?; .. }` -/
structure ServerMethod where
  variantIdent : String
  pattern : List Pat
  methodIdent : String
  inputs : List Pat

/-- `async fn #method_ident(#method_inputs) #method_output`, with the `RpcCall` that its body makes. -/
structure ClientMethod (τ : Type) where
  sig : Method τ
  rpcCallVariant : String
  rpcCallParams : List Pat

structure Expansion (τ : Type) where
  traitInput : List (TraitItem τ)
  rpcVariants : List (Variant τ)
  /-- The arms of `handle_rpc_call`, if there is a `Handler`. -/
  serverMethods : Option (List ServerMethod)
  clientMethods : List (ClientMethod τ)

section Macro
variable {τ : Type} (toUppercase : Char → List Char)

def rpcVariant (m : Method τ) : Variant τ where
  ident := snakeToPascalCase toUppercase m.ident
  fields := m.inputs.filterMap FnArg.field?

def serverMethod (m : Method τ) : ServerMethod where
  variantIdent := snakeToPascalCase toUppercase m.ident
  pattern := m.inputs.filterMap FnArg.pat?
  methodIdent := m.ident
  inputs := m.inputs.filterMap FnArg.pat?

def clientMethod (m : Method τ) : ClientMethod τ where
  sig := m
  rpcCallVariant := snakeToPascalCase toUppercase m.ident
  rpcCallParams := m.inputs.filterMap FnArg.pat?

/-- The macro. `format_ident!` panics at what is not an identifier. -/
def rpc (isIdent : String → Bool) (noServerHandler : Bool) (items : List (TraitItem τ)) : Option (Expansion τ) :=
  if (items.filterMap TraitItem.method?).all fun m => isIdent (snakeToPascalCase toUppercase m.ident) then
    some {
      traitInput := items
      rpcVariants := (items.filterMap TraitItem.method?).map (rpcVariant toUppercase)
      serverMethods :=
        if noServerHandler then none else some ((items.filterMap TraitItem.method?).map (serverMethod toUppercase))
      clientMethods := (items.filterMap TraitItem.method?).map (clientMethod toUppercase) }
  else none

end Macro

/-! ## The generated code, run -/

/-- What rkyv does for a type. -/
structure Codec (α : Type) where
  toBytes : α → Option Bytes
  fromBytes : Bytes → Option α

/-- What a handler returns: `.await?`, and `Ok` of the bytes; `none` if the `unwrap` of `to_bytes` panics. -/
def Codec.answer {α : Type} (codec : Codec α) : HandlerResult α → Option (HandlerResult Bytes)
  | .ok result => (codec.toBytes result).map .ok
  | .error error => some (.error error)

/-- Encoding succeeds, and decoding undoes it. -/
structure Codec.Lawful {α : Type} (codec : Codec α) : Prop where
  encodes : ∀ x, (codec.toBytes x).isSome = true
  decodes : ∀ x bytes, codec.toBytes x = some bytes → codec.fromBytes bytes = some x

/-- A value of the generated enum. -/
structure RpcCall {τ : Type} (El : τ → Type) (variants : List (Variant τ)) where
  variant : Variant τ
  mem : variant ∈ variants
  fields : Args El variant.types

/-- The names of patterns that are names. -/
def names : List Pat → Option (List String)
  | [] => some []
  | pat :: pats => pat.name?.bind fun name => (names pats).map fun rest => name :: rest

namespace RpcCall
variable {τ : Type} {El : τ → Type} {variants : List (Variant τ)}

/-- `RpcCall::variant { params }`, where every field stands for the variable of its name. -/
def construct [DecidableEq τ] (variants : List (Variant τ)) (scope : Scope El) (variant : String)
    (params : List Pat) : Option (RpcCall El variants) :=
  match h : variants.find? fun v => v.ident == variant with
  | some v =>
    (names params).bind fun xs =>
      if xs.Perm v.names then
        (scope.pass v.names v.types).map fun fields =>
          { variant := v, mem := List.mem_of_find?_eq_some h, fields := fields }
      else none
  | none => none

/-- The scope of an arm with the fields of the call in its pattern. -/
def binds (call : RpcCall El variants) (pattern : List Pat) : Option (Scope El) :=
  (names pattern).bind fun xs =>
    if xs.Perm call.variant.names then some (Scope.bind call.variant.names call.variant.types call.fields)
    else none

end RpcCall

/-- A method, called with arguments. -/
structure Invocation {τ : Type} (El : τ → Type) where
  method : Method τ
  args : Args El method.types

/-- The trait, implemented for `Handler`: every method, on the state of the handler and what it can reach. -/
abbrev Implementation {τ : Type} (El : τ → Type) (σ : Type) :=
  (m : Method τ) → Args El m.types → σ → HandlerResult (El m.output) × σ

/-- A call of `handle_rpc_call` that has ended. -/
structure Handled {τ : Type} (El : τ → Type) (σ : Type) where
  invocations : List (Invocation El)
  state : σ
  /-- `none` if it panicked. -/
  result : Option (HandlerResult Bytes)

section Run
variable {τ : Type} {El : τ → Type} [DecidableEq τ] {σ : Type}

/-- The body of an arm. -/
def ServerMethod.run (arm : ServerMethod) (items : List (TraitItem τ)) (codec : (t : τ) → Codec (El t))
    (implementation : Implementation El σ) (scope : Scope El) (s : σ) : Option (Handled El σ) :=
  ((items.filterMap TraitItem.method?).find? fun m => m.ident == arm.methodIdent).bind fun m =>
    (names arm.inputs).bind fun xs => (scope.pass xs m.types).map fun args => {
      invocations := [⟨m, args⟩]
      state := (implementation m args s).2
      result := (codec m.output).answer (implementation m args s).1 }

/-- `Handler::handle_rpc_call`. -/
def handleRpcCall (g : Expansion τ) (callCodec : Codec (RpcCall El g.rpcVariants))
    (codec : (t : τ) → Codec (El t)) (implementation : Implementation El σ) (input : Bytes) (s : σ) :
    Option (Handled El σ) :=
  g.serverMethods.bind fun arms =>
    match callCodec.fromBytes input with
    | none => some { invocations := [], state := s, result := some (.error .serverDecodeError) }
    | some call =>
      (arms.find? fun arm => arm.variantIdent == call.variant.ident).bind fun arm =>
        (call.binds arm.pattern).bind fun scope => arm.run g.traitInput codec implementation scope s

/-- The method of the client with the name. -/
def Expansion.stub? (g : Expansion τ) (name : String) : Option (ClientMethod τ) :=
  g.clientMethods.find? fun c => c.sig.ident == name

namespace ClientMethod

/-- The first half of a client method: what `make_rpc_call` gets from `to_bytes`. -/
def request (c : ClientMethod τ) (g : Expansion τ) (callCodec : Codec (RpcCall El g.rpcVariants))
    (args : Args El c.sig.types) : Option (Option Bytes) :=
  (names c.sig.pats).bind fun xs =>
    (RpcCall.construct g.rpcVariants (Scope.bind xs c.sig.types args) c.rpcCallVariant c.rpcCallParams).map
      callCodec.toBytes

/-- The second half: what it makes of the result of `make_rpc_call`. -/
def response (c : ClientMethod τ) (codec : (t : τ) → Codec (El t)) :
    HandlerResult Bytes → HandlerResult (El c.sig.output)
  | .ok bytes =>
    match (codec c.sig.output).fromBytes bytes with
    | some result => .ok result
    | none => .error .clientDecodeError
  | .error error => .error error

end ClientMethod

end Run

/-! ## Named arguments -/

theorem names_map_ident (xs : List String) : names (xs.map .ident) = some xs := by
  induction xs with
  | nil => rfl
  | cons x xs ih =>
    rw [List.map_cons, names, ih]
    rfl

section Named
variable {τ : Type} {El : τ → Type} {toUppercase : Char → List Char}

theorem mem_methods {items : List (TraitItem τ)} {m : Method τ} :
    m ∈ items.filterMap TraitItem.method? ↔ .method m ∈ items := by
  rw [List.mem_filterMap]
  constructor
  · rintro ⟨item, hitem, hm⟩
    cases item with
    | method m' =>
      cases hm
      exact hitem
    | other => cases hm
  · intro hm
    exact ⟨.method m, hm, rfl⟩

theorem pats_types_of_named {inputs : List (FnArg τ)}
    (h : ∀ pat ∈ inputs.filterMap FnArg.pat?, ∃ name, pat = .ident name) :
    inputs.filterMap FnArg.pat? = ((inputs.filterMap FnArg.field?).map Prod.fst).map .ident ∧
      (inputs.filterMap FnArg.field?).map Prod.snd = inputs.filterMap FnArg.ty? := by
  induction inputs with
  | nil => exact ⟨rfl, rfl⟩
  | cons arg inputs ih =>
    cases arg with
    | receiver => exact ih h
    | typed pat ty =>
      obtain ⟨name, rfl⟩ := h pat List.mem_cons_self
      obtain ⟨hpats, htypes⟩ := ih fun pat hpat => h pat (List.mem_cons_of_mem _ hpat)
      exact ⟨congrArg (Pat.ident name :: ·) hpats, congrArg (ty :: ·) htypes⟩

/-- What the variant of a method has of its arguments. -/
structure VariantOf (v : Variant τ) (m : Method τ) : Prop where
  pats : m.pats = v.names.map .ident
  types : v.types = m.types
  nodup : v.names.Nodup
  length : v.names.length = m.types.length

theorem matches_of_named {m : Method τ} (h : m.Named) : VariantOf (rpcVariant toUppercase m) m := by
  obtain ⟨hpats, htypes⟩ := pats_types_of_named h
  refine ⟨hpats, htypes, m.distinct, ?_⟩
  have hlength := congrArg List.length htypes
  rw [List.length_map] at hlength
  show ((m.inputs.filterMap FnArg.field?).map Prod.fst).length = _
  rw [List.length_map, hlength]
  rfl

/-- A client method gets back from the answer what the method returned. -/
theorem response_answer {codec : (t : τ) → Codec (El t)} (c : ClientMethod τ) (h : (codec c.sig.output).Lawful)
    (result : HandlerResult (El c.sig.output)) : ∃ response,
      (codec c.sig.output).answer result = some response ∧ c.response codec response = result := by
  cases result with
  | error error => exact ⟨.error error, rfl, rfl⟩
  | ok x =>
    obtain ⟨bytes, hbytes⟩ := Option.isSome_iff_exists.mp (h.encodes x)
    have hdecode := h.decodes x bytes hbytes
    refine ⟨.ok bytes, by rw [Codec.answer, hbytes, Option.map_some], ?_⟩
    unfold ClientMethod.response
    simp only [hdecode]

theorem rpc_eq_some {isIdent : String → Bool} {noServerHandler : Bool} {items : List (TraitItem τ)}
    {g : Expansion τ} (h : rpc toUppercase isIdent noServerHandler items = some g) : g = {
      traitInput := items
      rpcVariants := (items.filterMap TraitItem.method?).map (rpcVariant toUppercase)
      serverMethods :=
        if noServerHandler then none else some ((items.filterMap TraitItem.method?).map (serverMethod toUppercase))
      clientMethods := (items.filterMap TraitItem.method?).map (clientMethod toUppercase) } := by
  rw [rpc, Option.ite_none_right_eq_some] at h
  exact (Option.some.inj h.2).symm

end Named

/-! ## The property -/

section Property
variable {τ : Type} {El : τ → Type} [DecidableEq τ] {σ : Type} {toUppercase : Char → List Char}

/-- **The enum carries the arguments**: what the struct expression of a client method puts into the call, the
pattern of the arm gets out of it, under the same names. -/
theorem construct_binds {variants : List (Variant τ)} {v : Variant τ} {m : Method τ}
    (hdistinct : (variants.map Variant.ident).Nodup) (hv : v ∈ variants) (hvariant : VariantOf v m)
    (args : Args El m.types) : ∃ call : RpcCall El variants,
      RpcCall.construct variants (Scope.bind v.names m.types args) v.ident m.pats = some call ∧
      call.variant = v ∧ call.binds m.pats = some (Scope.bind v.names m.types args) := by
  obtain ⟨fields, hpass, hbind⟩ := Scope.exists_pass_bind hvariant.nodup hvariant.length hvariant.types args
  have hfind := find?_key hdistinct hv
  refine ⟨{ variant := v, mem := hv, fields := fields }, ?_, rfl, ?_⟩
  · unfold RpcCall.construct
    split
    next w hw =>
      obtain rfl : w = v := Option.some.inj (hw.symm.trans hfind)
      rw [hvariant.pats, names_map_ident, Option.bind_some, if_pos (List.Perm.refl _), hpass]
      rfl
    next hw =>
      rw [hfind] at hw
      cases hw
  · rw [RpcCall.binds, hvariant.pats, names_map_ident, Option.bind_some, if_pos (List.Perm.refl _), hbind]

/-- **A remote call is a call of the method.** -/
structure Transparent (g : Expansion τ) (callCodec : Codec (RpcCall El g.rpcVariants))
    (codec : (t : τ) → Codec (El t)) (implementation : Implementation El σ) : Prop where
  /-- Every method of the trait has its client method. -/
  stubs : ∀ m, .method m ∈ g.traitInput → ∃ c, g.stub? m.ident = some c ∧ c.sig = m
  /-- What a client method asks for is done once, with its arguments, and it returns what the method returns. -/
  round_trip : ∀ name c, g.stub? name = some c → ∀ (args : Args El c.sig.types) (s : σ),
    ∃ bytes handled response, c.request g callCodec args = some (some bytes) ∧
      handleRpcCall g callCodec codec implementation bytes s = some handled ∧
      handled.invocations = [⟨c.sig, args⟩] ∧ handled.state = (implementation c.sig args s).2 ∧
      handled.result = some response ∧ c.response codec response = (implementation c.sig args s).1
  /-- What is no call invokes nothing. -/
  undecodable : ∀ input s, callCodec.fromBytes input = none →
    handleRpcCall g callCodec codec implementation input s =
      some { invocations := [], state := s, result := some (.error .serverDecodeError) }

theorem handleRpcCall_of_call {g : Expansion τ} {arms : List ServerMethod} (harms : g.serverMethods = some arms)
    {callCodec : Codec (RpcCall El g.rpcVariants)} {input : Bytes} {call : RpcCall El g.rpcVariants}
    (hinput : callCodec.fromBytes input = some call) (codec : (t : τ) → Codec (El t))
    (implementation : Implementation El σ) (s : σ) :
    handleRpcCall g callCodec codec implementation input s =
      (arms.find? fun arm => arm.variantIdent == call.variant.ident).bind fun arm =>
        (call.binds arm.pattern).bind fun scope => arm.run g.traitInput codec implementation scope s := by
  unfold handleRpcCall
  simp only [harms, Option.bind_some, hinput]

theorem handleRpcCall_of_none {g : Expansion τ} {arms : List ServerMethod} (harms : g.serverMethods = some arms)
    {callCodec : Codec (RpcCall El g.rpcVariants)} {input : Bytes} (hinput : callCodec.fromBytes input = none)
    (codec : (t : τ) → Codec (El t)) (implementation : Implementation El σ) (s : σ) :
    handleRpcCall g callCodec codec implementation input s =
      some { invocations := [], state := s, result := some (.error .serverDecodeError) } := by
  unfold handleRpcCall
  simp only [harms, Option.bind_some, hinput]

theorem run_serverMethod {items : List (TraitItem τ)} {m : Method τ} {v : Variant τ}
    (hfind : ((items.filterMap TraitItem.method?).find? fun m' => m'.ident == m.ident) = some m)
    (hvariant : VariantOf v m) (codec : (t : τ) → Codec (El t)) (implementation : Implementation El σ)
    (args : Args El m.types) (s : σ) :
    (serverMethod toUppercase m).run items codec implementation (Scope.bind v.names m.types args) s = some {
      invocations := [⟨m, args⟩]
      state := (implementation m args s).2
      result := (codec m.output).answer (implementation m args s).1 } := by
  have hnames : names m.pats = some v.names := by rw [hvariant.pats, names_map_ident]
  have hpass := Scope.pass_bind hvariant.nodup hvariant.length args
  show (((items.filterMap TraitItem.method?).find? fun m' => m'.ident == m.ident).bind fun m' =>
    (names m.pats).bind fun xs => _) = _
  rw [hfind, Option.bind_some, hnames, Option.bind_some, hpass]
  rfl

/-- **Remote calls are transparent**, for every trait with named arguments and distinct variant names. -/
theorem transparent_of_rpc {isIdent : String → Bool} {items : List (TraitItem τ)} {g : Expansion τ}
    (hrpc : rpc toUppercase isIdent false items = some g) (hnamed : ∀ m, .method m ∈ items → m.Named)
    (hdistinct : (g.rpcVariants.map Variant.ident).Nodup) {callCodec : Codec (RpcCall El g.rpcVariants)}
    (hcall : callCodec.Lawful) {codec : (t : τ) → Codec (El t)}
    (hcodec : ∀ m, .method m ∈ items → (codec m.output).Lawful) (implementation : Implementation El σ) :
    Transparent g callCodec codec implementation := by
  obtain rfl := rpc_eq_some hrpc
  have hvariants : ((items.filterMap TraitItem.method?).map fun m =>
      snakeToPascalCase toUppercase m.ident).Nodup := by
    rwa [List.map_map] at hdistinct
  have hidents : ((items.filterMap TraitItem.method?).map Method.ident).Nodup := by
    refine List.Nodup.of_map (snakeToPascalCase toUppercase) ?_
    rwa [List.map_map]
  have hstub {m : Method τ} (hm : .method m ∈ items) :=
    find?_map_key (fun c => c.sig.ident) (clientMethod toUppercase) hidents (mem_methods.mpr hm)
  refine ⟨fun m hm => ⟨clientMethod toUppercase m, hstub hm, rfl⟩, fun name c hc args s => ?_,
    fun input s hinput => handleRpcCall_of_none rfl hinput codec implementation s⟩
  obtain ⟨m, hm, rfl⟩ := List.mem_map.mp (List.mem_of_find?_eq_some hc)
  have hvariant : VariantOf (rpcVariant toUppercase m) m := matches_of_named (hnamed m (mem_methods.mp hm))
  obtain ⟨call, hconstruct, hcallee, hbinds⟩ :=
    construct_binds hdistinct (List.mem_map_of_mem hm) hvariant args
  obtain ⟨bytes, hbytes⟩ := Option.isSome_iff_exists.mp (hcall.encodes call)
  obtain ⟨response, hanswer, hresponse⟩ :=
    response_answer (clientMethod toUppercase m) (hcodec m (mem_methods.mp hm)) (implementation m args s).1
  refine ⟨bytes, { invocations := [⟨m, args⟩], state := (implementation m args s).2, result := some response },
    response, ?_, ?_, rfl, rfl, rfl, hresponse⟩
  · show ((names m.pats).bind fun xs => _) = _
    rw [hvariant.pats, names_map_ident, Option.bind_some]
    exact (congrArg (Option.map callCodec.toBytes) hconstruct).trans (congrArg some hbytes)
  · -- the arm is found by the name of the variant, the method by its own
    have harm := find?_map_key ServerMethod.variantIdent (serverMethod toUppercase) hvariants hm
    rw [handleRpcCall_of_call rfl (hcall.decodes call bytes hbytes), hcallee]
    refine (congrArg (fun arm => Option.bind arm _) harm).trans ?_
    show (call.binds m.pats).bind _ = _
    rw [hbinds, Option.bind_some]
    refine (run_serverMethod (find?_key hidents hm) hvariant codec implementation args s).trans ?_
    exact congrArg
      (fun result => some (⟨[⟨m, args⟩], (implementation m args s).2, result⟩ : Handled El σ)) hanswer

end Property

/-! ## The counter -/

/-- What rkyv does for a field of a connection state. -/
def fieldCodec (S : LawfulStateStruct) (i : Fin S.fields) : Codec (S.Field i) where
  toBytes x := some (S.toBytes i x)
  fromBytes bytes := S.fromBytes i bytes

theorem lawful_fieldCodec (S : LawfulStateStruct) (i : Fin S.fields) : (fieldCodec S i).Lawful where
  encodes x := rfl
  decodes x bytes h := by
    cases h
    exact S.fromBytes_toBytes i x

/-- A `u32`, as in the state of the counter. -/
def u32Codec : Codec UInt32 := fieldCodec counterState ⟨0, Nat.zero_lt_one⟩

theorem lawful_u32Codec : u32Codec.Lawful := lawful_fieldCodec counterState _

/-- `async fn #ident(&self, amount: u32) -> HandlerResult<u32>` -/
def counterMethod (ident : String) : Method Unit where
  ident := ident
  inputs := [.receiver, .typed (.ident "amount") ()]
  output := ()
  receiver := List.mem_cons_self
  distinct := List.nodup_singleton _

/-- `trait Counter` of the tests. -/
def counterTrait : List (TraitItem Unit) :=
  [.method (counterMethod "increment"), .method (counterMethod "decrement")]

def counterVariants : List (Variant Unit) :=
  [{ ident := "Increment", fields := [("amount", ())] }, { ident := "Decrement", fields := [("amount", ())] }]

/-- The call with the tag. -/
def counterCall (tag : UInt8) (amount : UInt32) : Option (RpcCall (fun _ : Unit => UInt32) counterVariants) :=
  if tag = 0 then
    some {
      variant := { ident := "Increment", fields := [("amount", ())] }
      mem := by decide
      fields := (amount, ()) }
  else if tag = 1 then
    some {
      variant := { ident := "Decrement", fields := [("amount", ())] }
      mem := by decide
      fields := (amount, ()) }
  else none

/-- The tag, padding, and the amount. -/
def counterCodec : Codec (RpcCall (fun _ : Unit => UInt32) counterVariants) where
  toBytes call :=
    (((Scope.bind call.variant.names call.variant.types call.fields).lookup "amount").bind fun v =>
      u32Codec.toBytes v.val).map fun amount =>
        (if call.variant.ident = "Increment" then 0 else 1) :: 0 :: 0 :: 0 :: amount
  fromBytes
    | tag :: _ :: _ :: _ :: amount => (u32Codec.fromBytes amount).bind (counterCall tag)
    | _ => none

theorem lawful_counterCodec : counterCodec.Lawful where
  encodes := by
    rintro ⟨v, hv, fields⟩
    rcases List.mem_pair.mp hv with rfl | rfl
    · rfl
    · rfl
  decodes := by
    rintro ⟨v, hv, fields⟩ bytes h
    rcases List.mem_pair.mp hv with rfl | rfl
    · cases h
      exact congrArg (fun o : Option UInt32 => o.bind (counterCall 0)) (lawful_u32Codec.decodes fields.1 _ rfl)
    · cases h
      exact congrArg (fun o : Option UInt32 => o.bind (counterCall 1)) (lawful_u32Codec.decodes fields.1 _ rfl)

/-- What the macro makes of it. -/
def counterExpansion : Expansion Unit where
  traitInput := counterTrait
  rpcVariants := counterVariants
  serverMethods := some [
    { variantIdent := "Increment", pattern := [.ident "amount"]
      methodIdent := "increment", inputs := [.ident "amount"] },
    { variantIdent := "Decrement", pattern := [.ident "amount"]
      methodIdent := "decrement", inputs := [.ident "amount"] }]
  clientMethods := [
    { sig := counterMethod "increment", rpcCallVariant := "Increment", rpcCallParams := [.ident "amount"] },
    { sig := counterMethod "decrement", rpcCallVariant := "Decrement", rpcCallParams := [.ident "amount"] }]

/-- The state is the count, which every method returns. -/
def counterHandler : Implementation (fun _ : Unit => UInt32) UInt32 := fun m args count =>
  match (Scope.bind ["amount"] m.types args).lookup "amount" with
  | some v =>
    if m.ident = "increment" then (.ok (count + v.val), count + v.val) else (.ok (count - v.val), count - v.val)
  | none => (.error .handlerPanicked, count)

theorem transparent_counter : Transparent counterExpansion counterCodec (fun _ => u32Codec) counterHandler := by
  have hexpand : rpc asciiUppercase (fun _ => true) false counterTrait = some counterExpansion := rfl
  refine transparent_of_rpc hexpand ?_ (by decide) lawful_counterCodec (fun _ _ => lawful_u32Codec) counterHandler
  intro m hm pat hpat
  simp only [counterTrait, List.mem_cons, TraitItem.method.injEq, List.not_mem_nil, or_false] at hm
  rcases hm with rfl | rfl
  · exact ⟨"amount", List.mem_singleton.mp hpat⟩
  · exact ⟨"amount", List.mem_singleton.mp hpat⟩

end HardLight
