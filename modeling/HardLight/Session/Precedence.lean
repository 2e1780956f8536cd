import HardLight.Session.Pairing

/-!
# What comes before a call

A call made after the response of another one is accepted after the connection loop has taken every
subscription operation of that other call's handler: a response is sent only when its handler is done,
and the arm for client messages is polled after the one for these operations.

* `OpStep`, `step_opStep` : what a connection step does to the operations, the calls and the arm;
* `Precedence`, `step_precedence` : the order of the three.
-/

namespace HardLight
open Lib

namespace Conn

/-- A step of a connection, as far as it is about the operations of its handlers. -/
inductive OpStep (k k' : Conn) : Prop
  | asked (o : HandlerOp) (hcaller : ∀ call, o.caller = some call → ∃ r ∈ k.tasks, r.call = call)
      (hproxy : k'.proxyRx = k.proxyRx ++ [o]) (harm : k'.arm = k.arm) (haccepted : k'.accepted = k.accepted)
      (hresponded : k'.responded = k.responded)
  | handled (o : HandlerOp) (hproxy : k.proxyRx = o :: k'.proxyRx) (harm : k'.arm = .rpc)
      (haccepted : k'.accepted = k.accepted) (hresponded : k'.responded = k.responded)
  | responded (r : Response) (hproxy : k'.proxyRx = k.proxyRx) (harm : k'.arm = .rpc)
      (haccepted : k'.accepted = k.accepted) (hresponded : k'.responded = k.responded ++ [r])
  | accepted (r : Request) (hclient : k.arm = .client) (hproxy : k'.proxyRx = k.proxyRx)
      (harm : k'.arm = .rpc) (haccepted : k'.accepted = k.accepted ++ [r])
      (hresponded : k'.responded = k.responded)
  | moved (hproxy : k'.proxyRx = k.proxyRx)
      (harm : k'.arm = .client → k.arm = .client ∨ k.proxyRx = [])
      (haccepted : k'.accepted = k.accepted) (hresponded : k'.responded = k.responded)

theorem OpStep.mem_responded {k k' : Conn} (h : OpStep k k') {r : Response} (hr : r ∈ k.responded) :
    r ∈ k'.responded := by
  cases h with
  | responded r' hproxy harm haccepted hresponded =>
    rw [hresponded]
    exact List.mem_append_left _ hr
  | asked o hcaller hproxy harm haccepted hresponded => exact hresponded ▸ hr
  | handled o hproxy harm haccepted hresponded => exact hresponded ▸ hr
  | accepted r' hclient hproxy harm haccepted hresponded => exact hresponded ▸ hr
  | moved hproxy harm haccepted hresponded => exact hresponded ▸ hr

theorem OpStep.mem_accepted {k k' : Conn} (h : OpStep k k') {q : Request} (hq : q ∈ k.accepted) :
    q ∈ k'.accepted := by
  cases h with
  | accepted r hclient hproxy harm haccepted hresponded =>
    rw [haccepted]
    exact List.mem_append_left _ hq
  | asked o hcaller hproxy harm haccepted hresponded => exact haccepted ▸ hq
  | handled o hproxy harm haccepted hresponded => exact haccepted ▸ hq
  | responded r hproxy harm haccepted hresponded => exact haccepted ▸ hq
  | moved hproxy harm haccepted hresponded => exact haccepted ▸ hq

theorem step_opStep {k k' : Conn} {a : ConnAct} (h : k.step a = some k') : OpStep k k' := by
  cases step_cases h with
  | passedOver hpolls hready =>
    refine .moved rfl (fun he => Or.inr ?_) rfl rfl
    -- the arm polled before the one for client messages is the one for operations
    cases harm : k.arm with
    | subscription =>
      rw [harm, ready, Bool.not_eq_false', List.isEmpty_iff] at hready
      exact hready
    | _ =>
      dsimp only at he
      rw [harm] at he
      cases he
  | responded r rest hpolls hq => exact .responded r rfl rfl rfl rfl
  | notified id alive o rest subscriptions hpolls hq => exact .handled o hq rfl rfl rfl
  | accepted r rest hpolls hq hfree => exact .accepted r (polls_iff.mp hpolls).2.2 rfl rfl rfl rfl
  | asked n o hrun hcaller => exact .asked o hcaller rfl rfl rfl rfl
  | stateChanged changes rest hpolls hq => exact .moved rfl (fun he => by cases he) rfl rfl
  | newEvent e rest hpolls hq => exact .moved rfl (fun he => by cases he) rfl rfl
  | noRequest decoded item rest hpolls hq hitem => exact .moved rfl (fun he => by cases he) rfl rfl
  | undecoded r rest hpolls hq => exact .moved rfl (fun he => by cases he) rfl rfl
  | ignored r rest hpolls hq hbusy => exact .moved rfl (fun he => by cases he) rfl rfl
  | _ => exact .moved rfl Or.inl rfl rfl

end Conn

namespace ClientLoop
variable {S : StateStruct}

/-- Calls are made one at a time, each with the ones answered before it. -/
theorem Step.issued {c c' : ClientLoop S} {out : Option Request} (h : Step c out c') :
    c'.issued = c.issued ∨ out = none ∧ ∃ internal, c'.issued = c.issued ++ [⟨internal, c.answered⟩] := by
  cases h with
  | called internal => exact Or.inr ⟨rfl, internal, rfl⟩
  | _ => exact Or.inl rfl

theorem mem_answered_iff {c : ClientLoop S} {call : Call} :
    call ∈ c.answered ↔ ∃ output, (call, Completion.output output) ∈ c.completions := by
  rw [answered, List.mem_filterMap]
  constructor
  · rintro ⟨⟨call', completion⟩, hin, heq⟩
    cases completion with
    | failed error => cases heq
    | output output => cases heq; exact ⟨output, hin⟩
  · rintro ⟨output, hin⟩
    exact ⟨_, hin, rfl⟩

end ClientLoop

namespace Session
variable {S : StateStruct}

theorem step_opStep {s s' : Session S} {a : SessionAct} (h : s.step a = some s') :
    (s'.client.issued = s.client.issued ∧ Conn.OpStep s.conn s'.conn) ∨
    (∃ internal, s'.client.issued = s.client.issued ++ [⟨internal, s.client.answered⟩] ∧
      s'.conn = s.conn) := by
  have hsame : s'.conn = s.conn → Conn.OpStep s.conn s'.conn := fun hk =>
    .moved (by rw [hk]) (fun he => Or.inl (hk ▸ he)) (by rw [hk]) (by rw [hk])
  cases a with
  | client a =>
    obtain ⟨out, hc, -, hk⟩ := step_client h
    rcases (ClientLoop.step_cases hc).issued with hissued | ⟨rfl, hissued⟩
    · cases out with
      | none => exact Or.inl ⟨hissued, hsame hk⟩
      | some r => exact Or.inl ⟨hissued, Conn.step_opStep hk⟩
    · exact Or.inr (hissued.imp fun internal hissued => ⟨hissued, hk⟩)
  | receive decoded =>
    obtain ⟨msg, rest, -, -, hc, hk⟩ := step_receive h
    exact Or.inl ⟨(ClientLoop.onServerMessage_cases hc).waiting.1, Conn.step_opStep hk⟩
  | conn a =>
    obtain ⟨hc, -, -, hk⟩ := step_conn h
    exact Or.inl ⟨by rw [hc], Conn.step_opStep hk⟩
  | abort => cases h; exact Or.inl ⟨rfl, .moved rfl Or.inl rfl rfl⟩

/-- **A call comes after the operations of the calls answered before it.** -/
structure Precedence (s : Session S) : Prop where
  seen : ∀ issue ∈ s.client.issued, ∀ call ∈ issue.seen, ∃ r ∈ s.conn.responded, r.call = call
  /-- When the client arm is polled, no operation of an answered call is left. -/
  polled : s.conn.arm = .client → ∀ o ∈ s.conn.proxyRx, ∀ r ∈ s.conn.responded, o.caller ≠ some r.call
  /-- A call is accepted when no operation of a call answered before it is left. -/
  accepted : ∀ q ∈ s.conn.accepted, ∀ issue, s.client.issued[q.call]? = some issue →
    ∀ call ∈ issue.seen, ∀ o ∈ s.conn.proxyRx, o.caller ≠ some call

theorem Consistent.accepted_of_task {s : Session S} (h : Consistent s) {r : Request}
    (hr : r ∈ s.conn.tasks) : ∃ q ∈ s.conn.accepted, q.call = r.call := by
  have hkey : RpcView.requestKey r ∈ s.conn.rpcView.accepted.map RpcView.requestKey := by
    rw [h.accounted.mem_iff]
    exact List.mem_append_left _ (List.mem_map_of_mem hr)
  obtain ⟨q, hq, hqr⟩ := List.mem_map.mp hkey
  exact ⟨q, hq, congrArg Prod.snd hqr⟩

theorem Consistent.not_responded {s : Session S} (h : Consistent s) {q : Request} {r : Response}
    (hq : q ∈ s.conn.tasks) (hr : r ∈ s.conn.responded) : q.call ≠ r.call := by
  have hdisj := (List.nodup_append.mp (h.ledger.run_nodup h.accounted)).2.2
  have hanswered : r ∈ s.conn.rpcView.answered := List.mem_append_left _ hr
  exact hdisj _ (List.mem_map_of_mem hq) _ (List.mem_append_left _ (List.mem_map_of_mem hanswered))

theorem caller_ne_of_asked {s : Session S} (hcons : Consistent s) {o : HandlerOp}
    (hcaller : ∀ call, o.caller = some call → ∃ r ∈ s.conn.tasks, r.call = call) {r : Response}
    (hr : r ∈ s.conn.responded) : o.caller ≠ some r.call := by
  intro he
  obtain ⟨q, hq, hcall⟩ := hcaller r.call he
  exact hcons.not_responded hq hr hcall

theorem precedence_of_opStep {s s' : Session S} (hcons : Consistent s) (hinv : Precedence s)
    (hissued : s'.client.issued = s.client.issued) (h : Conn.OpStep s.conn s'.conn) : Precedence s' where
  seen issue hi call hcall := by
    obtain ⟨r, hr, heq⟩ := hinv.seen issue (hissued ▸ hi) call hcall
    exact ⟨r, h.mem_responded hr, heq⟩
  polled := by
    cases h with
    | asked o hcaller hproxy harm haccepted hresponded =>
      intro hclient o' ho r hr
      rw [hresponded] at hr
      rw [hproxy, List.mem_append, List.mem_singleton] at ho
      rcases ho with ho | rfl
      · exact hinv.polled (harm ▸ hclient) o' ho r hr
      · exact caller_ne_of_asked hcons hcaller hr
    | moved hproxy harm haccepted hresponded =>
      intro hclient o ho r hr
      rw [hproxy] at ho
      rw [hresponded] at hr
      rcases harm hclient with hold | hnil
      · exact hinv.polled hold o ho r hr
      · rw [hnil] at ho
        cases ho
    | handled o hproxy harm haccepted hresponded => exact fun hclient => by rw [harm] at hclient; cases hclient
    | responded r hproxy harm haccepted hresponded => exact fun hclient => by rw [harm] at hclient; cases hclient
    | accepted r hold hproxy harm haccepted hresponded =>
      exact fun hclient => by rw [harm] at hclient; cases hclient
  accepted := by
    rw [hissued]
    cases h with
    | asked o hcaller hproxy harm haccepted hresponded =>
      intro q hq issue hget call hcall o' ho
      rw [haccepted] at hq
      rw [hproxy, List.mem_append, List.mem_singleton] at ho
      rcases ho with ho | rfl
      · exact hinv.accepted q hq issue hget call hcall o' ho
      · obtain ⟨r, hr, rfl⟩ := hinv.seen issue (List.mem_of_getElem? hget) call hcall
        exact caller_ne_of_asked hcons hcaller hr
    | handled o hproxy harm haccepted hresponded =>
      intro q hq issue hget call hcall o' ho
      rw [haccepted] at hq
      exact hinv.accepted q hq issue hget call hcall o' (hproxy ▸ List.mem_cons_of_mem o ho)
    | accepted r hclient hproxy harm haccepted hresponded =>
      intro q hq issue hget call hcall o ho
      rw [hproxy] at ho
      rw [haccepted, List.mem_append, List.mem_singleton] at hq
      rcases hq with hq | rfl
      · exact hinv.accepted q hq issue hget call hcall o ho
      · -- the client arm is polled, so the operations of answered calls have been taken
        obtain ⟨r', hr', rfl⟩ := hinv.seen issue (List.mem_of_getElem? hget) call hcall
        exact hinv.polled hclient o ho r' hr'
    | responded r hproxy harm haccepted hresponded =>
      rw [hproxy, haccepted]
      exact hinv.accepted
    | moved hproxy harm haccepted hresponded =>
      rw [hproxy, haccepted]
      exact hinv.accepted

theorem step_precedence {s s' : Session S} {a : SessionAct} (hcons : Consistent s) (hinv : Precedence s)
    (h : s.step a = some s') : Precedence s' := by
  rcases step_opStep h with ⟨hissued, hop⟩ | ⟨internal, hissued, hk⟩
  · exact precedence_of_opStep hcons hinv hissued hop
  · refine ⟨fun issue hi call hcall => ?_, hk ▸ hinv.polled, fun q hq issue hget => ?_⟩
    · rw [hissued, List.mem_append, List.mem_singleton] at hi
      rcases hi with hi | rfl
      · rw [hk]
        exact hinv.seen issue hi call hcall
      · -- the new call comes after the calls that have an output
        obtain ⟨output, hc⟩ := ClientLoop.mem_answered_iff.mp hcall
        obtain ⟨r, hr, heq, -⟩ := hcons.outputs.own call output hc
        exact ⟨r, hk ▸ hr, heq⟩
    · rw [hk] at hq ⊢
      have hold := hcons.ledger.issued (RpcView.requestBytes q)
        (List.mem_append_right _ (List.mem_append_right _ (List.mem_map_of_mem hq)))
      obtain ⟨old, hold, -⟩ := Option.map_eq_some_iff.mp hold
      have hold : s.client.issued[q.call]? = some old := hold
      obtain ⟨hlt, -⟩ := List.getElem?_eq_some_iff.mp hold
      rw [hissued, List.getElem?_append_left hlt] at hget
      exact hinv.accepted q hq issue hget

theorem precedence_init (S : StateStruct) : Precedence (init S true) :=
  ⟨(fun issue hi => by cases hi), (fun he => by cases he), (fun q hq => by cases hq)⟩

end Session

end HardLight
