import HardLight.Session.Table
import HardLight.Lib.Run

/-!
# RPC pairing

The client loop against the connection loop: any calls, any order of steps of the two loops and of the
handler tasks, with messages lost on either side.

* `Ledger` : a call is waiting, on the wire or accepted, and only one of these, with the bytes it was
  issued with;
* `Outputs` : an output given to a completion sender came in a response with its call;
* `Paired`, `paired_of_run` : an id has one live item at most, and every output is the one of its own
  call's handler.
-/

namespace HardLight
open Lib

namespace ClientLoop
variable {S : StateStruct}

/-- The calls that the loop has not sent yet. -/
def waiting (c : ClientLoop S) : List (Bytes × Call) :=
  c.rpcRequestRx ++ match c.phase with
    | .sending _ call internal => [(internal, call)]
    | _ => []

theorem waiting_select {c : ClientLoop S} (h : c.phase = .select) : c.waiting = c.rpcRequestRx := by
  rw [waiting, h, List.append_nil]

theorem Step.waiting {c c' : ClientLoop S} {out : Option Request} (h : Step c out c') :
    (∃ issue : Issue, out = none ∧ c'.issued = c.issued ++ [issue] ∧
      c'.waiting.Perm ((issue.internal, c.issued.length) :: c.waiting)) ∨
    c'.issued = c.issued ∧
      (c'.waiting ++ out.toList.map RpcView.requestBytes).Subperm c.waiting := by
  cases h with
  | called internal =>
    refine Or.inl ⟨_, rfl, rfl, ?_⟩
    simp only [ClientLoop.waiting, List.append_assoc]
    exact List.perm_middle
  | chosen slot call internal rest hphase hq hfree =>
    refine Or.inr ⟨rfl, List.Perm.subperm ?_⟩
    rw [waiting_select hphase, hq]
    simp only [ClientLoop.waiting, Option.toList_none, List.map_nil, List.append_nil]
    exact List.perm_append_singleton _ _
  | refused call internal rest hphase hq hfull =>
    refine Or.inr ⟨rfl, ?_⟩
    rw [waiting_select hphase, hq, waiting_select rfl]
    simp only [complete, Option.toList_none, List.map_nil, List.append_nil]
    exact (List.sublist_cons_self _ _).subperm
  | failed slot call internal error hphase =>
    refine Or.inr ⟨rfl, ?_⟩
    rw [waiting_select rfl]
    simp only [ClientLoop.waiting, complete, hphase, Option.toList_none, List.map_nil, List.append_nil]
    exact (List.sublist_append_left _ _).subperm
  | sent slot call internal hphase =>
    refine Or.inr ⟨rfl, ?_⟩
    simp only [ClientLoop.waiting, hphase, RpcView.requestBytes, Option.toList_some, List.map_cons,
      List.map_nil, List.append_nil]
    exact List.Subperm.refl _
  | filled slot call hphase =>
    refine Or.inr ⟨rfl, ?_⟩
    rw [waiting_select rfl]
    simp only [ClientLoop.waiting, hphase, Option.toList_none, List.map_nil, List.append_nil]
    exact List.Subperm.refl _
  | stopped hphase =>
    refine Or.inr ⟨rfl, ?_⟩
    rw [waiting_select hphase]
    simp only [ClientLoop.waiting, Option.toList_none, List.map_nil, List.append_nil]
    exact List.Subperm.refl _

theorem Receives.waiting {c c' : ClientLoop S} {r : Option Response} (h : Receives c r c') :
    c'.issued = c.issued ∧ c'.waiting = c.waiting := by
  cases h with
  | completed r call hphase hslot =>
    rw [waiting_select rfl, waiting_select hphase]
    exact ⟨rfl, rfl⟩
  | unknown r hphase hslot => exact ⟨rfl, rfl⟩
  | other state events hphase => exact ⟨rfl, rfl⟩

theorem Step.completions {c c' : ClientLoop S} {out : Option Request} (h : Step c out c') {call : Call}
    {output : HandlerResult Bytes} (hc : (call, Completion.output output) ∈ c'.completions) :
    (call, Completion.output output) ∈ c.completions := by
  cases h with
  | refused call' internal rest hphase hq hfull =>
    simpa [complete] using hc
  | failed slot call' internal error hphase =>
    simpa [complete] using hc
  | _ => exact hc

theorem Receives.completions {c c' : ClientLoop S} {r : Option Response} (h : Receives c r c')
    {call : Call} {output : HandlerResult Bytes}
    (hc : (call, Completion.output output) ∈ c'.completions) :
    (call, Completion.output output) ∈ c.completions ∨
      ∃ r', r = some r' ∧ c.outstanding (slotOf r'.id) = some call ∧ r'.output = output := by
  cases h with
  | completed r call' hphase hslot =>
    simp only [complete, List.mem_append, List.mem_singleton, Prod.mk.injEq, Completion.output.injEq] at hc
    rcases hc with hc | ⟨rfl, rfl⟩
    · exact Or.inl hc
    · exact Or.inr ⟨r, rfl, by rw [outstanding_select hphase, hslot], rfl⟩
  | unknown r hphase hslot => exact Or.inl hc
  | other state events hphase => exact Or.inl hc

end ClientLoop

namespace RpcView

/-- A response on the wire was sent by a handler task. -/
def Sent (v : RpcView) : Prop := ∀ r ∈ v.replies, r ∈ v.responded

theorem step_sent {v v' : RpcView} {l : RpcLabel} (hinv : v.Sent) (h : Step v l v') : v'.Sent := by
  intro x hx
  cases h with
  | responded r rest hq =>
    rw [List.mem_append] at hx ⊢
    exact hx.imp (hinv x) (fun h => h)
  | replyLost r front hrep => exact hinv x (hrep ▸ List.mem_append_left _ hx)
  | read r rest hrep => exact hinv x (hrep ▸ List.mem_cons_of_mem _ hx)
  | _ => exact hinv x hx

theorem Step.mem_responded {v v' : RpcView} {l : RpcLabel} (h : Step v l v') {r : Response}
    (hr : r ∈ v.responded) : r ∈ v'.responded := by
  cases h with
  | responded r' rest hq => exact List.mem_append_left _ hr
  | _ => exact hr

end RpcView

namespace Session
variable {S : StateStruct}

theorem RpcStep.view {s s' : Session S} {a : SessionAct} (h : RpcStep s s' a) :
    ∃ l, RpcView.Step s.conn.rpcView l s'.conn.rpcView := by
  cases h with
  | server a hclient hserver hview => exact ⟨_, hview⟩
  | request a r hclient hview => exact ⟨_, hview⟩
  | response r hclient hview => exact ⟨_, hview⟩
  | unreadable r hclient hview => exact ⟨_, hview⟩
  | aborted hclient hview => exact ⟨.silent, hview ▸ .silent _⟩
  | client a hclient hview => exact ⟨.silent, hview ▸ .silent _⟩
  | message decoded hclient hview => exact ⟨.silent, hview ▸ .silent _⟩

/-! ## Each call once, with its own bytes -/

/-- Every call that is waiting, on the wire or accepted. -/
def stock (s : Session S) : List (Bytes × Call) := s.client.waiting ++ s.conn.rpcView.received

structure Ledger (s : Session S) : Prop where
  once : (s.stock.map Prod.snd).Nodup
  issued : ∀ x ∈ s.stock, (s.client.issued[x.2]?).map Issue.internal = some x.1

theorem ledger_of_subperm {s s' : Session S} (hinv : Ledger s) (hissued : s'.client.issued = s.client.issued)
    (h : s'.stock.Subperm s.stock) : Ledger s' where
  once := by
    obtain ⟨l, hperm, hsub⟩ := h
    have hcalls : (s'.stock.map Prod.snd).Subperm (s.stock.map Prod.snd) :=
      ⟨l.map Prod.snd, hperm.map Prod.snd, hsub.map Prod.snd⟩
    refine List.nodup_iff_count_le_one.mpr fun k => (hcalls.count_le k).trans ?_
    exact List.nodup_iff_count_le_one.mp hinv.once k
  issued x hx := by
    rw [hissued]
    exact hinv.issued x (h.subset hx)

/-- A new call has a number above all the others. -/
theorem ledger_of_called {s s' : Session S} (hinv : Ledger s) (issue : Issue)
    (hissued : s'.client.issued = s.client.issued ++ [issue])
    (h : s'.stock.Perm ((issue.internal, s.client.issued.length) :: s.stock)) : Ledger s' where
  once := by
    rw [(h.map Prod.snd).nodup_iff, List.map_cons, List.nodup_cons]
    refine ⟨fun hin => ?_, hinv.once⟩
    obtain ⟨x, hx, hlen⟩ := List.mem_map.mp hin
    have hbytes := hinv.issued x hx
    rw [hlen, List.getElem?_eq_none (Nat.le_refl _)] at hbytes
    cases hbytes
  issued x hx := by
    rw [hissued]
    rcases List.mem_cons.mp (h.mem_iff.mp hx) with rfl | hx
    · simp
    · have hbytes := hinv.issued x hx
      have hlt : x.2 < s.client.issued.length := by
        by_contra hge
        rw [List.getElem?_eq_none (Nat.not_lt.mp hge)] at hbytes
        cases hbytes
      rw [List.getElem?_append_left hlt, hbytes]

theorem step_ledger {s s' : Session S} {a : SessionAct} (hship : s.shipped = true) (hinv : Ledger s)
    (h : RpcStep s s' a) : Ledger s' := by
  -- what the server does with the client's part left as it is
  have hserver : ∀ l : RpcLabel, s'.client.issued = s.client.issued → s'.client.waiting = s.client.waiting →
      l.brings = [] → RpcView.Step s.conn.rpcView l s'.conn.rpcView → Ledger s' := by
    intro l hissued hwait hbrings hview
    refine ledger_of_subperm hinv hissued ?_
    have hrec := hview.received
    rw [hbrings, List.map_nil, List.append_nil] at hrec
    rw [stock, stock, hwait]
    exact (List.subperm_append_left _).mpr hrec
  cases h with
  | server a hclient hofserver hview =>
    exact hserver _ (by rw [hclient]) (by rw [hclient]) (Conn.rpcLabel_brings (hofserver hship)) hview
  | aborted hclient hview => exact hserver .silent (by rw [hclient]) (by rw [hclient]) rfl (hview ▸ .silent _)
  | client a hclient hview =>
    rcases hclient.waiting with ⟨issue, -, hissued, hperm⟩ | ⟨hissued, hsub⟩
    · refine ledger_of_called hinv issue hissued ?_
      rw [stock, stock, hview, ← List.cons_append]
      exact hperm.append_right _
    · refine ledger_of_subperm hinv hissued ?_
      rw [Option.toList_none, List.map_nil, List.append_nil] at hsub
      rw [stock, stock, hview]
      exact (List.subperm_append_right _).mpr hsub
  | request a r hclient hview =>
    rcases hclient.waiting with ⟨issue, hnone, -⟩ | ⟨hissued, hsub⟩
    · cases hnone
    · refine ledger_of_subperm hinv hissued ?_
      have hsent : (s'.client.waiting ++ s'.conn.rpcView.received).Subperm
          (s'.client.waiting ++ (s.conn.rpcView.received ++ [RpcView.requestBytes r])) :=
        (List.subperm_append_left _).mpr hview.received
      have hmove : (s'.client.waiting ++ (s.conn.rpcView.received ++ [RpcView.requestBytes r])).Perm
          (s'.client.waiting ++ [RpcView.requestBytes r] ++ s.conn.rpcView.received) := by
        rw [List.append_assoc]
        exact List.perm_append_comm.append_left _
      exact (hsent.trans hmove.subperm).trans ((List.subperm_append_right _).mpr hsub)
  | response r hclient hview => exact hserver _ hclient.waiting.1 hclient.waiting.2 rfl hview
  | unreadable r hclient hview => exact hserver _ hclient.waiting.1 hclient.waiting.2 rfl hview
  | message decoded hclient hview =>
    exact hserver .silent hclient.waiting.1 hclient.waiting.2 rfl (hview ▸ .silent _)

/-! ## Each output to its own call -/

/-- A completion sender with an output got it from a response to its call. -/
structure Outputs (s : Session S) : Prop where
  sent : s.conn.rpcView.Sent
  own : ∀ call output, (call, Completion.output output) ∈ s.client.completions →
    ∃ r ∈ s.conn.responded, r.call = call ∧ r.output = output

theorem step_outputs {s s' : Session S} {a : SessionAct} (htable : Table s) (hinv : Outputs s)
    (h : RpcStep s s' a) : Outputs s' := by
  obtain ⟨l, hl⟩ := h.view
  refine ⟨RpcView.step_sent hinv.sent hl, fun call output hc => ?_⟩
  have hold : (call, Completion.output output) ∈ s.client.completions →
      ∃ r ∈ s'.conn.responded, r.call = call ∧ r.output = output := by
    intro hc
    obtain ⟨r, hr, hown⟩ := hinv.own call output hc
    exact ⟨r, hl.mem_responded hr, hown⟩
  have hnone : ClientLoop.Receives s.client none s'.client →
      (call, Completion.output output) ∈ s.client.completions := by
    intro hrecv
    rcases hrecv.completions hc with hc | ⟨r', hno, -⟩
    · exact hc
    · cases hno
  cases h with
  | server a hclient hofserver hview => exact hold (hclient ▸ hc)
  | aborted hclient hview => exact hold (hclient ▸ hc)
  | client a hclient hview => exact hold (hclient.completions hc)
  | request a r hclient hview => exact hold (hclient.completions hc)
  | response r hclient hview =>
    rcases hclient.completions hc with hc | ⟨r', hr', hslot, hout⟩
    · exact hold hc
    · cases hr'
      -- the slot of the response holds the call the response was made for
      rw [outstanding_of_reply htable hview.read_mem, Option.some.injEq] at hslot
      exact ⟨r, hl.mem_responded (hinv.sent r hview.read_mem), hslot, hout⟩
  | unreadable r hclient hview => exact hold (hnone hclient)
  | message decoded hclient hview => exact hold (hnone hclient)

/-! ## Pairing -/

theorem Ledger.accepted_nodup {s : Session S} (h : Ledger s) : (s.conn.accepted.map Request.call).Nodup := by
  have honce := h.once
  rw [stock, RpcView.received, List.map_append, List.map_append, List.map_map, List.map_map] at honce
  exact honce.of_append_right.of_append_right

/-- A call whose handler is running is not answered, and a call is answered once. -/
theorem Ledger.run_nodup {s : Session S} (h : Ledger s) (hacc : s.conn.rpcView.Accounted) :
    (s.conn.tasks.map Request.call ++
      (s.conn.rpcView.answered.map Response.call ++ s.conn.crashed.map Request.call)).Nodup := by
  have hcalls := hacc.map Prod.snd
  simp only [List.map_append, List.map_map] at hcalls
  exact hcalls.nodup_iff.mp h.accepted_nodup

/-- **RPC pairing** in one state of a session. -/
structure Paired (s : Session S) : Prop where
  /-- An id has at most one of a request, a handler task, a queued response, a response on the wire. -/
  live_le_one : ∀ id, s.conn.rpcView.live id ≤ 1
  /-- It has none when its slot is free. -/
  live_free : ∀ id, s.client.taken (slotOf id) = false → s.conn.rpcView.live id = 0
  /-- The handler is invoked at most once for a call, with the bytes of the call. -/
  invoked_once : (s.conn.accepted.map Request.call).Nodup
  invoked_own : ∀ q ∈ s.conn.accepted,
    (s.client.issued[q.call]?).map Issue.internal = some q.internal
  /-- The handler run of a call returns at most once. -/
  answered_once : (s.conn.rpcView.answered.map Response.call).Nodup
  /-- A completion sender that gets an output gets the output of its own call's handler run. -/
  output_own : ∀ call output, (call, Completion.output output) ∈ s.client.completions →
    ∃ q ∈ s.conn.accepted, q.call = call ∧ q.respond output ∈ s.conn.responded
  /-- The server never ignores a request because its id is in flight. -/
  never_ignored : ∀ decoded r, s.conn.rpcLabel (.clientMessage decoded) ≠ .ignored r
  /-- The client never reads a response to an unknown call. -/
  never_unknown : s.client.phase = .select → ∀ r rest, s.conn.wsOut = .rpcResponse r :: rest →
    s.client.activeRpcCalls (slotOf r.id) = some r.call

theorem rpcLabel_ignored {k : Conn} {decoded : Bool} {r : Request}
    (h : k.rpcLabel (.clientMessage decoded) = .ignored r) :
    r ∈ k.rpcView.requests ∧ k.inFlight (slotOf r.id) = true := by
  simp only [Conn.rpcLabel] at h
  split at h
  next r' rest hws =>
    split at h
    · split at h
      next hbusy =>
        cases h
        refine ⟨?_, hbusy⟩
        simp [Conn.rpcView, Conn.requests, hws, WsItem.request?]
      · cases h
    · cases h
  · cases h

theorem paired_of_inv {s : Session S} (htable : Table s) (hledger : Ledger s) (houtputs : Outputs s)
    (hacc : s.conn.rpcView.Accounted) : Paired s where
  live_le_one id := by
    have hle := htable.carried_le id
    have hone := s.held_le_one id
    rw [RpcView.carried_eq_live htable.in_flight] at hle
    omega
  live_free id hfree := by
    have hle := htable.carried_le id
    have hnone : s.client.outstanding (slotOf id) = none := by
      by_contra hno
      rw [ClientLoop.taken_of_outstanding hno] at hfree
      cases hfree
    rw [RpcView.carried_eq_live htable.in_flight, held, hnone, Option.isSome_none, Bool.toNat_false] at hle
    omega
  invoked_once := hledger.accepted_nodup
  invoked_own q hq := hledger.issued (RpcView.requestBytes q)
    (List.mem_append_right _ (List.mem_append_right _ (List.mem_map_of_mem hq)))
  answered_once := (hledger.run_nodup hacc).of_append_right.of_append_left
  output_own call output hc := by
    obtain ⟨r, hr, rfl, rfl⟩ := houtputs.own call output hc
    have hkey : RpcView.responseKey r ∈ s.conn.rpcView.accepted.map RpcView.requestKey := by
      rw [hacc.mem_iff]
      exact List.mem_append_right _ (List.mem_append_left _
        (List.mem_map_of_mem (List.mem_append_left _ hr)))
    obtain ⟨q, hq, hqr⟩ := List.mem_map.mp hkey
    simp only [RpcView.requestKey, RpcView.responseKey, Prod.mk.injEq] at hqr
    have hresp : q.respond r.output = r := by
      rw [Request.respond, hqr.1, hqr.2]
    exact ⟨q, hq, hqr.2, by rw [hresp]; exact hr⟩
  never_ignored decoded r hlabel := by
    obtain ⟨hreq, hbusy⟩ := rpcLabel_ignored hlabel
    rw [inFlight_false_of_request htable hreq] at hbusy
    cases hbusy
  never_unknown hphase r rest hout := by
    have hreply : r ∈ s.conn.rpcView.replies := by
      simp [Conn.rpcView, Conn.replies, hout, ServerMessage.response?]
    rw [← ClientLoop.outstanding_select hphase, outstanding_of_reply htable hreply]

/-- What a session with the client loop keeps. -/
structure Consistent (s : Session S) : Prop where
  shipped : s.shipped = true
  table : Table s
  ledger : Ledger s
  outputs : Outputs s
  accounted : s.conn.rpcView.Accounted

theorem consistent_init (S : StateStruct) : Consistent (init S true) where
  shipped := rfl
  table := table_init true
  ledger := ⟨List.nodup_nil, fun x hx => by cases hx⟩
  outputs := ⟨(fun r hr => by cases hr), (fun call output hc => by cases hc)⟩
  accounted := Conn.init_accounted

theorem step_consistent {s s' : Session S} {a : SessionAct} (hinv : Consistent s) (h : s.step a = some s') :
    Consistent s' := by
  have hrpc := step_rpcStep h
  obtain ⟨l, hl⟩ := hrpc.view
  exact ⟨(step_shipped h).trans hinv.shipped, step_table hinv.shipped hinv.table hrpc,
    step_ledger hinv.shipped hinv.ledger hrpc, step_outputs hinv.table hinv.outputs hrpc,
    RpcView.step_accounted hinv.accounted hl⟩

/-- **RPC pairing holds in every state the two loops can reach.** -/
theorem paired_of_run {as : List SessionAct} {s : Session S}
    (h : run step (init S true) as = some s) : Paired s := by
  have hinv : Consistent s :=
    run_invariant (P := fun _ => True) (fun _ _ _ _ hinv hs => step_consistent hinv hs)
      (fun _ _ => trivial) (consistent_init S) h
  exact paired_of_inv hinv.table hinv.ledger hinv.outputs hinv.accounted

/-- Two calls at once; the handler of the second returns first. -/
def overtakingRun : List SessionAct :=
  [.client (.call [1]), .client (.call [2]),
    .client .takeRequest, .client (.send .sent), .client .fillSlot,
    .client .takeRequest, .client (.send .sent), .client .fillSlot,
    .conn .pollNext, .conn .pollNext, .conn .pollNext, .conn .pollNext, .conn (.clientMessage true),
    .conn .pollNext, .conn .pollNext, .conn .pollNext, .conn .pollNext, .conn (.clientMessage true),
    .conn (.handlerReturns 1 (.ok [20])), .conn .response, .conn (.sendDone true), .receive true,
    .conn (.handlerReturns 0 (.ok [10])), .conn .response, .conn (.sendDone true), .receive true]

theorem paired_overtakingRun :
    ∃ s, run step (init counterState.toStateStruct true) overtakingRun = some s ∧ Paired s := by
  have hrun : (run step (init counterState.toStateStruct true) overtakingRun).isSome = true := rfl
  obtain ⟨s, hs⟩ := Option.isSome_iff_exists.mp hrun
  exact ⟨s, hs, paired_of_run hs⟩

end Session

end HardLight
