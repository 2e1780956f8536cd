import HardLight.Remote.Link

/-!
# Remote objects are linearizable

What the applications see of a generated service can be explained by the operations being done one at a time, in the
order in which the handlers did their work, whatever the order in which requests, handlers and responses move, and
whatever the peers that are no clients send.

* `Explained`, `step_explained` : the invariant, over every step of the server, its clients and the other peers;
* `Linearizable`, `linearizable_of_run` : the explanation, for every run.
-/

namespace HardLight
open Lib

section Remote
variable {τ : Type} {El : τ → Type} {σ : Type} {svc : Service τ El σ} {S : StateStruct}

namespace Remote

theorem observed_cases {r : Remote svc S} {a : SystemAct} {system : System S}
    {o : Observation RemoteCall (ConnId × Invocation El) (Outcome El)} (ho : o ∈ r.observed a system) :
    ∃ b, a = .session o.id.1 b ∧ ∀ id op, o ≠ .called id op := by
  cases a with
  | session c b =>
    obtain ⟨n, stub, -, ⟨result, -, rfl⟩ | ⟨error, -, rfl⟩⟩ := mem_observe.mp ho
    · exact ⟨b, rfl, fun id op he => by cases he⟩
    · exact ⟨b, rfl, fun id op he => by cases he⟩
  | _ => cases ho

variable [DecidableEq τ]

/-- **What a service with its clients keeps.** -/
structure Explained (object : σ) (r : Remote svc S) : Prop where
  linearizes : Linearizes svc.apply object r.history r.order r.object
  links : ∀ c, (r.system.sessions c).shipped = true →
    LinkInv r.history r.order c (r.system.sessions c) (r.tasks c) (r.made c)
  outside : ∀ c n op, (r.system.sessions c).shipped = false → .called (c, n) op ∈ r.history → n < r.order.length

theorem explained_init (shipped : ConnId → Bool) (object : σ) : Explained object (init svc S shipped object) where
  linearizes := linearizes_nil _ _
  links c hc := by
    rw [show ((init svc S shipped object).system.sessions c) = Session.init S true from congrArg (Session.init S) hc]
    exact linkInv_init
  outside c n op hc h := by cases h

theorem explained_called {object : σ} {r : Remote svc S} (hinv : Explained object r) {c : ConnId}
    {stub : StubCall svc} {bytes : Bytes} {system : System S} (hrequest : stub.request = some (some bytes))
    (hs : r.system.step (.session c (.client (.call bytes))) = some system) :
    Explained object { r with
      system := system
      made := Function.update r.made c (r.made c ++ [stub])
      history := r.history ++ [.called (c, (r.made c).length) (c, stub.invocation)] } := by
  cases System.step_cases hs with
  | session c a session hres h =>
    have hship : (r.system.sessions c).shipped = true := by
      by_contra hno
      rw [Session.step, Bool.eq_false_iff.mpr hno] at h
      cases h
    have hother : ∀ c', c' ≠ c → Function.update r.system.sessions c session c' = r.system.sessions c' :=
      fun c' hne => Function.update_of_ne hne _ _
    refine ⟨hinv.linearizes.call _ fun hin => ?_, fun c' hc' => ?_, fun c' n op hc' hin => ?_⟩
    · obtain ⟨op, hin⟩ := mem_called_iff.mp hin
      exact ((hinv.links c hship).fresh _ op hin).ne rfl
    · dsimp only at hc' ⊢
      by_cases hne : c' = c
      · subst hne
        rw [Function.update_self, Function.update_self]
        exact (hinv.links c' hship).call hrequest h
      · rw [hother c' hne] at hc' ⊢
        rw [Function.update_of_ne hne]
        refine (hinv.links c' hc').frame (List.subset_append_left _ _) (fun o ho => ?_) (List.Subset.refl _)
          fun x hx => Or.inl hx
        rcases List.mem_append.mp ho with ho | ho
        · exact Or.inl ho
        · obtain rfl := List.mem_singleton.mp ho
          exact Or.inr (Ne.symm hne)
    · dsimp only at hc' hin ⊢
      have hne : c' ≠ c := by
        rintro rfl
        rw [Function.update_self, Session.step_shipped h, hship] at hc'
        cases hc'
      rw [hother c' hne] at hc'
      rcases List.mem_append.mp hin with hin | hin
      · exact hinv.outside c' n op hc' hin
      · cases List.mem_singleton.mp hin
        exact absurd rfl hne

/-- A handler task of a client's connection does its work: the operation its stub stands for. -/
theorem explained_executed {object : σ} {r : Remote svc S} (hsvc : svc.Generated) (hinv : Explained object r)
    {c : ConnId} {n : Nat} {request : Request} {handled : Handled El σ}
    (hship : (r.system.sessions c).shipped = true) (htask : (r.tasks c)[n]? = some ⟨request, none⟩)
    (hhandled : svc.handle c request.internal r.object = some handled) :
    Explained object { r with
      object := handled.state
      tasks := Function.update r.tasks c ((r.tasks c).set n ⟨request, some handled.result⟩)
      order := r.order ++ handled.invocations.map fun invocation =>
        ((c, request.call), (c, invocation), (svc.apply (c, invocation) r.object).1) } := by
  have hlink := hinv.links c hship
  have hmem : (⟨request, none⟩ : Task) ∈ r.tasks c := List.mem_of_getElem? htask
  obtain ⟨stub, hstub, hrequest⟩ := hlink.stub_of_task hmem
  obtain ⟨bytes, hbytes, hserved⟩ := hsvc.served stub
  obtain rfl : request.internal = bytes := by
    rw [hrequest, Option.some.injEq, Option.some.injEq] at hbytes
    exact hbytes
  obtain ⟨response, hresponse, houtcome⟩ := hserved c r.object
  obtain rfl := Option.some.inj (hhandled.symm.trans hresponse)
  rw [List.map_singleton]
  refine ⟨hinv.linearizes.effect (hlink.called _ stub hstub) (hlink.pending _ hmem rfl)
    (hlink.not_failed_of_task hmem), fun c' hc' => ?_, fun c' m op hc' hin => ?_⟩
  · dsimp only
    by_cases hne : c' = c
    · subst hne
      rw [Function.update_self, ← houtcome]
      exact hlink.execute htask hstub response
    · rw [Function.update_of_ne hne]
      refine (hinv.links c' hc').frame (List.Subset.refl _) (fun o ho => Or.inl ho) (List.subset_append_left _ _)
        fun x hx => ?_
      rcases List.mem_append.mp hx with hx | hx
      · exact Or.inl hx
      · obtain rfl := List.mem_singleton.mp hx
        exact Or.inr (Ne.symm hne)
  · rw [List.length_append]
    exact Nat.lt_add_right _ (hinv.outside c' m op hc' hin)

/-- A handler task of any other peer does its work: some operation, or none. -/
theorem explained_outside {object : σ} {r : Remote svc S} (hinv : Explained object r) {c : ConnId}
    {input : Bytes} {handled : Handled El σ} (hship : (r.system.sessions c).shipped = false) (tasks : List Task)
    (hhandled : svc.handle c input r.object = some handled) :
    Explained object { r with
      object := handled.state
      tasks := Function.update r.tasks c tasks
      history := r.history ++ handled.invocations.map fun invocation => .called (c, r.order.length) (c, invocation)
      order := r.order ++ handled.invocations.map fun invocation =>
        ((c, r.order.length), (c, invocation), (svc.apply (c, invocation) r.object).1) } := by
  have hlinks : ∀ c', (r.system.sessions c').shipped = true →
      ∀ {os : List (Observation RemoteCall (ConnId × Invocation El) (Outcome El))}
        {es : List (RemoteCall × (ConnId × Invocation El) × Outcome El)}, (∀ o ∈ os, o.id.1 = c) →
        (∀ x ∈ es, x.1.1 = c) → LinkInv (r.history ++ os) (r.order ++ es) c' (r.system.sessions c')
          (Function.update r.tasks c tasks c') (r.made c') := by
    intro c' hc' os es hos hes
    have hne : c ≠ c' := by
      rintro rfl
      rw [hship] at hc'
      cases hc'
    rw [Function.update_of_ne (Ne.symm hne)]
    refine (hinv.links c' hc').frame (List.subset_append_left _ _) (fun o ho => ?_) (List.subset_append_left _ _)
      fun x hx => ?_
    · exact (List.mem_append.mp ho).imp_right fun ho => (hos o ho) ▸ hne
    · exact (List.mem_append.mp hx).imp_right fun hx => (hes x hx) ▸ hne
  rcases Service.handle_cases hhandled with ⟨hnone, hstate⟩ | ⟨invocation, hone, hstate⟩
  · simp only [hnone, hstate, List.map_nil]
    refine ⟨?_, fun c' hc' => hlinks c' hc' (fun o ho => by cases ho) (fun x hx => by cases hx), ?_⟩
    · simpa using hinv.linearizes
    · simpa using hinv.outside
  · simp only [hone, hstate, List.map_singleton]
    refine ⟨hinv.linearizes.outside _ fun hin => ?_, fun c' hc' => hlinks c' hc' ?_ ?_, fun c' m op hc' hin => ?_⟩
    · obtain ⟨op, hin⟩ := mem_called_iff.mp hin
      exact (hinv.outside c _ op hship hin).ne rfl
    · intro o ho
      rw [List.mem_singleton.mp ho]
      rfl
    · intro x hx
      rw [List.mem_singleton.mp hx]
    · rw [List.length_append, List.length_singleton]
      rcases List.mem_append.mp hin with hin | hin
      · exact Nat.lt_succ_of_lt (hinv.outside c' m op hc' hin)
      · cases List.mem_singleton.mp hin
        exact Nat.lt_succ_self _

theorem linkInv_advanced {object : σ} {r : Remote svc S} (hinv : Explained object r) {a : SystemAct}
    {system : System S} (hs : r.system.step a = some system)
    (hcall : ∀ c internal, a ≠ .session c (.client (.call internal)))
    (hreturn : ∀ c n result, a = .session c (.conn (.handlerReturns n result)) →
      ∃ request, (r.tasks c)[n]? = some ⟨request, some (some result)⟩) {c : ConnId}
    (hc : (system.sessions c).shipped = true) :
    LinkInv (r.history ++ r.observed a system) r.order c (system.sessions c)
      (followTasks (r.tasks c) (a.ends c) (system.conn c).tasks) (r.made c) := by
  have hother : (∀ b, a ≠ .session c b) → ∀ o ∈ r.history ++ r.observed a system, o ∈ r.history ∨ o.id.1 ≠ c := by
    intro hno o ho
    refine (List.mem_append.mp ho).imp_right fun ho => ?_
    obtain ⟨b, rfl, -⟩ := observed_cases ho
    rintro rfl
    exact hno b rfl
  rcases (System.step_cases hs).session_act c with ⟨b, rfl, hb⟩ | ⟨hno, heq | ⟨b, hres, hb⟩⟩
  · have hends : SystemAct.ends c (.session c b) = b.ends := if_pos rfl
    rw [hends]
    exact (hinv.links c ((Session.step_shipped hb).symm.trans hc)).advance hb
      (fun internal he => hcall c internal (he ▸ rfl)) fun n result he => hreturn c n result (he ▸ rfl)
  · rw [heq] at hc
    have hlink := hinv.links c hc
    have htasks : followTasks (r.tasks c) (a.ends c) (system.conn c).tasks = r.tasks c := by
      rw [SystemAct.ends_eq_none hno, System.conn, heq, ← hlink.follows, followTasks, ← List.length_map Task.request,
        List.drop_length, List.map_nil, List.append_nil]
    rw [htasks, heq]
    exact hlink.frame (List.subset_append_left _ _) (hother hno) (List.Subset.refl _) fun x hx => Or.inl hx
  · obtain ⟨hclient, hends, hnocall, hnoreturn⟩ := Session.reserved_cases hres hb
    have hlink := (hinv.links c ((Session.step_shipped hb).symm.trans hc)).advance hb hnocall fun n result he =>
      absurd he (hnoreturn n result)
    rw [hclient, List.drop_length, show observe c (r.made c) [] = [] from rfl, List.append_nil, hends] at hlink
    rw [SystemAct.ends_eq_none hno]
    exact hlink.frame (List.subset_append_left _ _) (hother hno) (List.Subset.refl _) fun x hx => Or.inl hx

theorem explained_advanced {object : σ} {r : Remote svc S} (hinv : Explained object r) {a : SystemAct}
    {system : System S} (hs : r.system.step a = some system)
    (hcall : ∀ c internal, a ≠ .session c (.client (.call internal)))
    (hreturn : ∀ c n result, a = .session c (.conn (.handlerReturns n result)) →
      ∃ request, (r.tasks c)[n]? = some ⟨request, some (some result)⟩) :
    Explained object { r with
      system := system
      tasks := fun c => followTasks (r.tasks c) (a.ends c) (system.conn c).tasks
      history := r.history ++ r.observed a system } := by
  refine ⟨hinv.linearizes.observe ?_, fun c hc => linkInv_advanced hinv hs hcall hreturn hc,
    fun c n op hc hin => ?_⟩
  · cases a with
    | session c b =>
      cases hship : (system.sessions c).shipped with
      | true =>
        have hold := hinv.links c ((System.step_shipped hs c).symm.trans hship)
        exact hold.observed (linkInv_advanced hinv hs hcall hreturn hship) (List.drop_subset _ _)
      | false =>
        have hsame : (system.sessions c).client = (r.system.sessions c).client := by
          rcases (System.step_cases hs).session_step c with heq | ⟨b', -, hb⟩
          · rw [heq]
          · exact Session.step_client_eq ((System.step_shipped hs c).symm.trans hship) hb
        intro o ho
        rw [observed, hsame, List.drop_length] at ho
        cases ho
    | _ => exact fun o ho => by cases ho
  · rcases List.mem_append.mp hin with hin | hin
    · exact hinv.outside c n op ((System.step_shipped hs c).symm.trans hc) hin
    · obtain ⟨b, -, hno⟩ := observed_cases hin
      exact absurd rfl (hno _ _)

theorem step_explained {object : σ} {r r' : Remote svc S} {a : RemoteAct svc} (hsvc : svc.Generated)
    (hinv : Explained object r) (h : r.step a = some r') : Explained object r' := by
  cases step_cases h with
  | called c stub bytes system hrequest hs => exact explained_called hinv hrequest hs
  | executed c n request handled htask hhandled =>
    cases hship : (r.system.sessions c).shipped with
    | true =>
      have hstep := explained_executed hsvc hinv hship htask hhandled
      simpa only [callOf, hship, if_true, List.append_nil] using hstep
    | false =>
      have hstep := explained_outside hinv hship ((r.tasks c).set n ⟨request, some handled.result⟩) hhandled
      simpa only [callOf, hship, Bool.false_eq_true, if_false] using hstep
  | advanced a system hs hcall hreturn => exact explained_advanced hinv hs hcall hreturn

/-! ## The property -/

/-- **A remote object is linearizable.** -/
structure Linearizable (object : σ) (r : Remote svc S) : Prop where
  /-- What the applications see is what operations done one at a time look like. -/
  linearizes : Linearizes svc.apply object r.history r.order r.object
  /-- They see every call that is made, with its method and arguments, -/
  called : ∀ c, (r.system.sessions c).shipped = true → ∀ n stub, (r.made c)[n]? = some stub →
    .called (c, n) (c, stub.invocation) ∈ r.history
  /-- every output, as the stub of its call returns it, -/
  returned : ∀ c, (r.system.sessions c).shipped = true → ∀ n result,
    (n, Completion.output result) ∈ (r.system.sessions c).client.completions →
      ∃ stub, (r.made c)[n]? = some stub ∧ .returned (c, n) (stub.outcome result) ∈ r.history
  /-- and every call that ends with an error of the client's own. -/
  failed : ∀ c, (r.system.sessions c).shipped = true → ∀ n error,
    (n, Completion.failed error) ∈ (r.system.sessions c).client.completions → .failed (c, n) ∈ r.history

/-- **Remote objects are linearizable**, in every run of the server, its clients and any other peers. -/
theorem linearizable_of_run {shipped : ConnId → Bool} {object : σ} {as : List (RemoteAct svc)} {r : Remote svc S}
    (hsvc : svc.Generated) (h : run step (init svc S shipped object) as = some r) : r.Linearizable object := by
  have hinv : Explained object r :=
    run_invariant (P := fun _ => True) (fun _ _ _ _ hinv hs => step_explained hsvc hinv hs) (fun _ _ => trivial)
      (explained_init shipped object) h
  exact ⟨hinv.linearizes, fun c hc => (hinv.links c hc).called, fun c hc => (hinv.links c hc).returned,
    fun c hc n error hin => ((hinv.links c hc).failed n).mpr ⟨error, hin⟩⟩

end Remote

end Remote

/-! ## The counter, shared by its clients -/

def counterService : Service Unit (fun _ => UInt32) UInt32 where
  expansion := counterExpansion
  callCodec := counterCodec
  codec _ := u32Codec
  implementation _ := counterHandler

theorem generated_counterService : counterService.Generated where
  expands := ⟨asciiUppercase, fun _ => true, counterTrait, rfl⟩
  named m hm pat hpat := by
    simp only [counterService, counterExpansion, counterTrait, List.mem_cons, TraitItem.method.injEq,
      List.not_mem_nil, or_false] at hm
    rcases hm with rfl | rfl
    · exact ⟨"amount", List.mem_singleton.mp hpat⟩
    · exact ⟨"amount", List.mem_singleton.mp hpat⟩
  distinct := by decide
  call_codec := lawful_counterCodec
  codec _ _ := lawful_u32Codec

def incrementCall (amount : UInt32) : StubCall counterService where
  stub := { sig := counterMethod "increment", rpcCallVariant := "Increment", rpcCallParams := [.ident "amount"] }
  mem := List.mem_cons_self
  args := (amount, ())

def sessionActs (c : ConnId) (as : List SessionAct) : List (RemoteAct counterService) :=
  as.map fun a => .system (.session c a)

/-- A call that waits at the client makes its way to a handler task. -/
def requestActs : List SessionAct :=
  [.client .takeRequest, .client (.send .sent), .client .fillSlot,
    .conn .pollNext, .conn .pollNext, .conn .pollNext, .conn .pollNext, .conn (.clientMessage true)]

def responseActs : List SessionAct := [.conn .response, .conn (.sendDone true), .receive true]

/-- Two clients increment the counter at the same time, and so does a peer of another kind. The work is done in one
order, the answers come back in another. -/
def counterRun : List (RemoteAct counterService) :=
  [.call 0 (incrementCall 5), .call 1 (incrementCall 7)] ++ sessionActs 0 requestActs ++ sessionActs 1 requestActs ++
    sessionActs 2 [.conn (.peerSend (.binary (some ⟨7, [0, 0, 0, 0, 1, 0, 0, 0], 0⟩))), .conn .pollNext,
      .conn .pollNext, .conn .pollNext, .conn .pollNext, .conn (.clientMessage true)] ++
    [.execute 2 0, .execute 1 0, .execute 0 0, .respond 0 0, .respond 1 0] ++
    sessionActs 0 responseActs ++ sessionActs 1 responseActs

theorem Remote.linearizable_counterRun :
    ∃ r, run step (init counterService counterState.toStateStruct (fun c => decide (c < 2)) 0) counterRun = some r ∧
      r.order.map Prod.fst = [(2, 0), (1, 0), (0, 0)] ∧ r.Linearizable 0 := by
  have hrun : (run step (init counterService counterState.toStateStruct (fun c => decide (c < 2)) 0) counterRun).map
      (fun r => r.order.map Prod.fst) = some [(2, 0), (1, 0), (0, 0)] := rfl
  obtain ⟨r, hr, horder⟩ := Option.map_eq_some_iff.mp hrun
  exact ⟨r, hr, horder, linearizable_of_run generated_counterService hr⟩

end HardLight
