import HardLight.Session.Pairing

/-!
# The order of calls and answers

The client loop and the connection loop keep the calls of an application in order, and the answers of the
handlers in theirs; only the handlers themselves change the order.

* `line` : the calls that were accepted, are on the wire or wait, from the front of the line; a step adds a new
  call at the back or takes one out (`step_line`);
* `Ordered` : the line is in the order of the calls, and a call completed with an error of the client's own is not
  in it;
* `Answers` : the outputs given to completion senders, and the responses on the wire, are in the order in which the
  handlers returned;
* `Orderly`, `step_orderly` : what a session keeps;
* `Fifo`, `fifo_of_run` : calls and answers are in order, in every run.
-/

namespace HardLight
open Lib

namespace ClientLoop
variable {S : StateStruct}

/-- The calls that the loop has not sent yet, the next one first. -/
def queued (c : ClientLoop S) : List Call :=
  (match c.phase with
    | .sending _ call _ => [call]
    | _ => []) ++ c.rpcRequestRx.map Prod.snd

theorem queued_select {c : ClientLoop S} (h : c.phase = .select) : c.queued = c.rpcRequestRx.map Prod.snd := by
  rw [queued, h, List.nil_append]

/-- A step puts a new call at the back, or sends or drops the one at the front. -/
theorem Step.queued {c c' : ClientLoop S} {out : Option Request} (h : Step c out c') :
    (∃ issue : Issue, out = none ∧ c'.issued = c.issued ++ [issue] ∧ c'.queued = c.queued ++ [c.issued.length]) ∨
    c'.issued = c.issued ∧ (out.toList.map Request.call ++ c'.queued).Sublist c.queued := by
  cases h with
  | called internal =>
    refine Or.inl ⟨_, rfl, rfl, ?_⟩
    simp only [ClientLoop.queued, List.map_append, List.map_cons, List.map_nil, List.append_assoc]
  | chosen slot call internal rest hphase hq hfree =>
    refine Or.inr ⟨rfl, ?_⟩
    rw [queued_select hphase, hq]
    exact List.Sublist.refl _
  | refused call internal rest hphase hq hfull =>
    refine Or.inr ⟨rfl, ?_⟩
    rw [queued_select hphase, hq, queued_select rfl]
    exact List.sublist_cons_self _ _
  | failed slot call internal error hphase =>
    refine Or.inr ⟨rfl, ?_⟩
    rw [queued_select rfl]
    simp only [ClientLoop.queued, hphase, complete, Option.toList_none, List.map_nil, List.nil_append]
    exact List.sublist_append_right _ _
  | sent slot call internal hphase =>
    refine Or.inr ⟨rfl, ?_⟩
    simp only [ClientLoop.queued, hphase, Option.toList_some, List.map_cons, List.map_nil, List.nil_append]
    exact List.Sublist.refl _
  | filled slot call hphase =>
    refine Or.inr ⟨rfl, ?_⟩
    rw [queued_select rfl]
    simp only [ClientLoop.queued, hphase, Option.toList_none, List.map_nil, List.nil_append]
    exact List.Sublist.refl _
  | stopped hphase =>
    refine Or.inr ⟨rfl, ?_⟩
    rw [queued_select hphase]
    exact List.Sublist.refl _

theorem Receives.queued {c c' : ClientLoop S} {r : Option Response} (h : Receives c r c') :
    c'.queued = c.queued := by
  cases h with
  | completed r call hphase hslot =>
    rw [queued_select rfl, queued_select hphase]
    rfl
  | unknown r hphase hslot => rfl
  | other state events hphase => rfl

theorem Step.failed_cases {c c' : ClientLoop S} {out : Option Request} (h : Step c out c') {call : Call}
    {error : RpcHandlerError} (hc : (call, Completion.failed error) ∈ c'.completions) :
    (call, Completion.failed error) ∈ c.completions ∨
      out = none ∧ c'.issued = c.issued ∧ c.queued = call :: c'.queued := by
  cases h with
  | refused call' internal rest hphase hq hfull =>
    simp only [complete, List.mem_append, List.mem_singleton, Prod.mk.injEq, Completion.failed.injEq] at hc
    rcases hc with hc | ⟨rfl, rfl⟩
    · exact Or.inl hc
    · refine Or.inr ⟨rfl, rfl, ?_⟩
      rw [queued_select hphase, hq, queued_select rfl]
      rfl
  | failed slot call' internal error' hphase =>
    simp only [complete, List.mem_append, List.mem_singleton, Prod.mk.injEq, Completion.failed.injEq] at hc
    rcases hc with hc | ⟨rfl, rfl⟩
    · exact Or.inl hc
    · refine Or.inr ⟨rfl, rfl, ?_⟩
      rw [ClientLoop.queued, hphase]
      rfl
  | _ => exact Or.inl hc

theorem Receives.failed {c c' : ClientLoop S} {r : Option Response} (h : Receives c r c') {call : Call}
    {error : RpcHandlerError} (hc : (call, Completion.failed error) ∈ c'.completions) :
    (call, Completion.failed error) ∈ c.completions := by
  cases h with
  | completed r call' hphase hslot => simpa [complete] using hc
  | unknown r hphase hslot => exact hc
  | other state events hphase => exact hc

theorem Step.answered {c c' : ClientLoop S} {out : Option Request} (h : Step c out c') :
    c'.answered = c.answered := by
  cases h with
  | refused => simp [ClientLoop.answered, complete, Completion.output?]
  | failed => simp [ClientLoop.answered, complete, Completion.output?]
  | _ => rfl

/-- A response gives an output to the call in its slot, if there is one. -/
theorem Receives.answered {c c' : ClientLoop S} {r : Option Response} (h : Receives c r c') :
    c'.answered = c.answered ∨
      ∃ r' call, r = some r' ∧ c.outstanding (slotOf r'.id) = some call ∧ c'.answered = c.answered ++ [call] := by
  cases h with
  | completed r call hphase hslot =>
    refine Or.inr ⟨r, call, rfl, by rw [outstanding_select hphase, hslot], ?_⟩
    simp [ClientLoop.answered, complete, Completion.output?]
  | unknown r hphase hslot => exact Or.inl rfl
  | other state events hphase => exact Or.inl rfl

end ClientLoop

namespace RpcLabel

/-- The response that a handler task puts on `rpc_tx`. -/
def answers : RpcLabel → List Response
  | returned r output => [r.respond output]
  | _ => []

end RpcLabel

namespace RpcView

/-- The calls that were accepted, then those on the wire. -/
def line (v : RpcView) : List Call := v.accepted.map Request.call ++ v.requests.map Request.call

theorem Step.line {v v' : RpcView} {l : RpcLabel} (h : Step v l v') :
    v'.line.Sublist (v.line ++ l.brings.map Request.call) := by
  cases h with
  | arrived r => simp [RpcView.line, RpcLabel.brings]
  | lost r rest hreq => simp [RpcView.line, RpcLabel.brings, hreq]
  | ignored r rest hreq hbusy => simp [RpcView.line, RpcLabel.brings, hreq]
  | accepted r rest hreq hfree => simp [RpcView.line, RpcLabel.brings, hreq]
  | _ => simp [RpcView.line, RpcLabel.brings]

theorem Step.answered {v v' : RpcView} {l : RpcLabel} (h : Step v l v') :
    v'.answered = v.answered ++ l.answers := by
  cases h with
  | returned r output tasks hperm => simp [RpcView.answered, RpcLabel.answers]
  | responded r rest hq => simp [RpcView.answered, RpcLabel.answers, hq]
  | _ => simp [RpcView.answered, RpcLabel.answers]

/-- The responses on the wire stay the last ones sent, in order. -/
theorem Step.replies {v v' : RpcView} {l : RpcLabel} (h : Step v l v') (hread : ∀ r, l ≠ .read r) {xs : List Call}
    (hinv : (xs ++ v.replies.map Response.call).Sublist (v.responded.map Response.call)) :
    (xs ++ v'.replies.map Response.call).Sublist (v'.responded.map Response.call) := by
  cases h with
  | responded r rest hq =>
    dsimp only
    rw [List.map_append, List.map_append, ← List.append_assoc]
    exact hinv.append (List.Sublist.refl _)
  | replyLost r front hrep =>
    rw [hrep, List.map_append, ← List.append_assoc] at hinv
    exact (List.sublist_append_left _ _).trans hinv
  | read r rest hrep => exact absurd rfl (hread r)
  | _ => exact hinv

theorem Step.read_eq {v v' : RpcView} {r : Response} (h : Step v (.read r) v') :
    v.replies = r :: v'.replies ∧ v'.responded = v.responded := by
  cases h with
  | read r rest hrep => exact ⟨hrep, rfl⟩

end RpcView

namespace Session
variable {S : StateStruct}

/-- The calls that were accepted, are on the wire or wait, from the front of the line. -/
def line (s : Session S) : List Call := s.conn.rpcView.line ++ s.client.queued

theorem step_line {s s' : Session S} {a : SessionAct} (hship : s.shipped = true) (h : RpcStep s s' a) :
    (∃ issue : Issue, s'.client.issued = s.client.issued ++ [issue] ∧
      s'.line = s.line ++ [s.client.issued.length]) ∨
    s'.client.issued = s.client.issued ∧ s'.line.Sublist s.line := by
  -- what the server does with the client's part left as it is
  have hserver : ∀ l : RpcLabel, s'.client.issued = s.client.issued → s'.client.queued = s.client.queued →
      l.brings = [] → RpcView.Step s.conn.rpcView l s'.conn.rpcView →
        s'.client.issued = s.client.issued ∧ s'.line.Sublist s.line := by
    intro l hissued hqueued hbrings hview
    refine ⟨hissued, ?_⟩
    have hline := hview.line
    rw [hbrings, List.map_nil, List.append_nil] at hline
    rw [line, line, hqueued]
    exact hline.append (List.Sublist.refl _)
  cases h with
  | server a hclient hofserver hview =>
    exact Or.inr (hserver _ (by rw [hclient]) (by rw [hclient]) (Conn.rpcLabel_brings (hofserver hship)) hview)
  | aborted hclient hview =>
    exact Or.inr (hserver .silent (by rw [hclient]) (by rw [hclient]) rfl (hview ▸ .silent _))
  | client a hclient hview =>
    rw [line, line, hview]
    rcases hclient.queued with ⟨issue, -, hissued, hqueued⟩ | ⟨hissued, hsub⟩
    · exact Or.inl ⟨issue, hissued, by rw [hqueued, List.append_assoc]⟩
    · exact Or.inr ⟨hissued, (List.Sublist.refl _).append hsub⟩
  | request a r hclient hview =>
    rcases hclient.queued with ⟨issue, hnone, -⟩ | ⟨hissued, hsub⟩
    · cases hnone
    · refine Or.inr ⟨hissued, ?_⟩
      have hline : (s'.conn.rpcView.line ++ s'.client.queued).Sublist
          ((s.conn.rpcView.line ++ [r].map Request.call) ++ s'.client.queued) :=
        hview.line.append (List.Sublist.refl _)
      rw [List.append_assoc] at hline
      exact hline.trans ((List.Sublist.refl _).append hsub)
  | response r hclient hview => exact Or.inr (hserver _ hclient.waiting.1 hclient.queued rfl hview)
  | unreadable r hclient hview => exact Or.inr (hserver _ hclient.waiting.1 hclient.queued rfl hview)
  | message decoded hclient hview =>
    exact Or.inr (hserver .silent hclient.waiting.1 hclient.queued rfl (hview ▸ .silent _))

theorem step_failed {s s' : Session S} {a : SessionAct} (h : RpcStep s s' a) {call : Call}
    {error : RpcHandlerError} (hc : (call, Completion.failed error) ∈ s'.client.completions) :
    (call, Completion.failed error) ∈ s.client.completions ∨
      s'.conn.rpcView = s.conn.rpcView ∧ s.client.queued = call :: s'.client.queued := by
  cases h with
  | server a hclient hofserver hview => exact Or.inl (hclient ▸ hc)
  | aborted hclient hview => exact Or.inl (hclient ▸ hc)
  | client a hclient hview => exact (hclient.failed_cases hc).imp_right fun hnew => ⟨hview, hnew.2.2⟩
  | request a r hclient hview =>
    rcases hclient.failed_cases hc with hc | ⟨hnone, -⟩
    · exact Or.inl hc
    · cases hnone
  | response r hclient hview => exact Or.inl (hclient.failed hc)
  | unreadable r hclient hview => exact Or.inl (hclient.failed hc)
  | message decoded hclient hview => exact Or.inl (hclient.failed hc)

/-- **The line is in the order of the calls.** -/
structure Ordered (s : Session S) : Prop where
  sorted : s.line.Pairwise (· < ·)
  issued : ∀ call ∈ s.line, call < s.client.issued.length
  /-- A call completed with an error of the client's own is out of the line for good. -/
  failed : ∀ call error, (call, Completion.failed error) ∈ s.client.completions →
    call < s.client.issued.length ∧ call ∉ s.line

theorem ordered_init (S : StateStruct) (shipped : Bool) : Ordered (init S shipped) :=
  ⟨List.Pairwise.nil, (fun call h => by cases h), (fun call error h => by cases h)⟩

theorem step_ordered {s s' : Session S} {a : SessionAct} (hship : s.shipped = true) (hinv : Ordered s)
    (h : RpcStep s s' a) : Ordered s' := by
  have hfailed : ∀ call error, (call, Completion.failed error) ∈ s'.client.completions →
      call < s.client.issued.length ∧ (call ∈ s'.line → call ∉ s.line) := by
    intro call error hc
    rcases step_failed h hc with hc | ⟨hview, hfront⟩
    · exact ⟨(hinv.failed call error hc).1, fun _ => (hinv.failed call error hc).2⟩
    · have hline : s.line = s.conn.rpcView.line ++ call :: s'.client.queued := by rw [line, hfront]
      have hsorted := hinv.sorted
      rw [hline, List.pairwise_append, List.pairwise_cons] at hsorted
      refine ⟨hinv.issued call (by rw [hline]; simp), fun hin _ => ?_⟩
      rw [line, hview, List.mem_append] at hin
      rcases hin with hin | hin
      · exact (hsorted.2.2 call hin call List.mem_cons_self).ne rfl
      · exact (hsorted.2.1.1 call hin).ne rfl
  rcases step_line hship h with ⟨issue, hissued, hline⟩ | ⟨hissued, hsub⟩
  · refine ⟨?_, fun call hcall => ?_, fun call error hc => ?_⟩
    · rw [hline, List.pairwise_append]
      refine ⟨hinv.sorted, List.pairwise_singleton _ _, fun call hcall call' hcall' => ?_⟩
      rw [List.mem_singleton.mp hcall']
      exact hinv.issued call hcall
    · rw [hissued, List.length_append, List.length_singleton]
      rw [hline, List.mem_append, List.mem_singleton] at hcall
      rcases hcall with hcall | rfl
      · exact Nat.lt_succ_of_lt (hinv.issued call hcall)
      · exact Nat.lt_succ_self _
    · obtain ⟨hlt, hout⟩ := hfailed call error hc
      refine ⟨by rw [hissued, List.length_append]; exact Nat.lt_add_right _ hlt, fun hin => ?_⟩
      have hold := hout hin
      rw [hline, List.mem_append, List.mem_singleton] at hin
      rcases hin with hin | rfl
      · exact hold hin
      · exact hlt.ne rfl
  · refine ⟨hinv.sorted.sublist hsub, fun call hcall => ?_, fun call error hc => ?_⟩
    · rw [hissued]
      exact hinv.issued call (hsub.subset hcall)
    · obtain ⟨hlt, hout⟩ := hfailed call error hc
      exact ⟨hissued ▸ hlt, fun hin => hout hin (hsub.subset hin)⟩

/-! ## Answers -/

/-- **The answers are in the order of the responses.** -/
def Answers (s : Session S) : Prop :=
  (s.client.answered ++ s.conn.rpcView.replies.map Response.call).Sublist (s.conn.responded.map Response.call)

theorem step_answers {s s' : Session S} {a : SessionAct} (hship : s.shipped = true) (htable : Table s)
    (hinv : Answers s) (h : RpcStep s s' a) : Answers s' := by
  have hread : ∀ r : Response, RpcView.Step s.conn.rpcView (.read r) s'.conn.rpcView →
      (s.client.answered ++ r.call :: s'.conn.rpcView.replies.map Response.call).Sublist
        (s'.conn.responded.map Response.call) := by
    intro r hview
    obtain ⟨hreplies, hresponded⟩ := hview.read_eq
    have hold := hinv
    rw [Answers, hreplies, List.map_cons] at hold
    rw [show s'.conn.responded = s.conn.responded from hresponded]
    exact hold
  have hdrop : ∀ r : Response, (s.client.answered ++ s'.conn.rpcView.replies.map Response.call).Sublist
      (s.client.answered ++ r.call :: s'.conn.rpcView.replies.map Response.call) :=
    fun r => (List.Sublist.refl _).append (List.sublist_cons_self _ _)
  cases h with
  | server a hclient hofserver hview =>
    rw [Answers, hclient]
    refine hview.replies (fun r hr => ?_) hinv
    cases a with
    | peerRead => cases hofserver hship
    | _ =>
      simp only [Conn.rpcLabel] at hr
      repeat' first
        | cases hr
        | split at hr
  | aborted hclient hview =>
    rw [Answers, hclient, hview, ← Conn.rpcView_responded, hview]
    exact hinv
  | client a hclient hview =>
    rw [Answers, hclient.answered, hview, ← Conn.rpcView_responded, hview]
    exact hinv
  | request a r hclient hview =>
    rw [Answers, hclient.answered]
    exact hview.replies (fun r' hr => by cases hr) hinv
  | response r hclient hview =>
    rcases hclient.answered with hsame | ⟨r', call, hr', hslot, hnew⟩
    · rw [Answers, hsame]
      exact (hdrop r).trans (hread r hview)
    · cases hr'
      -- the call in the slot of the response is its own
      rw [outstanding_of_reply htable hview.read_mem, Option.some.injEq] at hslot
      rw [Answers, hnew, ← hslot, List.append_assoc]
      exact hread r hview
  | unreadable r hclient hview =>
    rcases hclient.answered with hsame | ⟨r', call, hr', -⟩
    · rw [Answers, hsame]
      exact (hdrop r).trans (hread r hview)
    · cases hr'
  | message decoded hclient hview =>
    rcases hclient.answered with hsame | ⟨r', call, hr', -⟩
    · rw [Answers, hsame, hview, ← Conn.rpcView_responded, hview]
      exact hinv
    · cases hr'

/-! ## The property -/

/-- **A session is first in, first out** in both directions. -/
structure Fifo (s : Session S) : Prop where
  /-- Handlers are started in the order of the calls. -/
  started : (s.conn.accepted.map Request.call).Pairwise (· < ·)
  /-- A call that was accepted is older than every call that waits or is on the wire. -/
  no_overtaking : ∀ q ∈ s.conn.accepted, ∀ call ∈ s.conn.requests.map Request.call ++ s.client.queued, q.call < call
  /-- Outputs reach their calls in the order in which the handlers returned. -/
  answered : s.client.answered.Sublist (s.conn.rpcView.answered.map Response.call)
  /-- The handler of a call completed with an error of the client's own is not started, now or later. -/
  failed : ∀ call error, (call, Completion.failed error) ∈ s.client.completions →
    call ∉ s.conn.accepted.map Request.call ∧ call ∉ s.conn.requests.map Request.call ++ s.client.queued

/-- What a session with the client loop keeps, with the order of calls and answers. -/
structure Orderly (s : Session S) : Prop where
  consistent : Consistent s
  ordered : Ordered s
  answers : Answers s

theorem orderly_init (S : StateStruct) : Orderly (init S true) :=
  ⟨consistent_init S, ordered_init S true, List.Sublist.refl _⟩

theorem step_orderly {s s' : Session S} {a : SessionAct} (hinv : Orderly s) (h : s.step a = some s') :
    Orderly s' :=
  ⟨step_consistent hinv.consistent h, step_ordered hinv.consistent.shipped hinv.ordered (step_rpcStep h),
    step_answers hinv.consistent.shipped hinv.consistent.table hinv.answers (step_rpcStep h)⟩

theorem orderly_of_run {as : List SessionAct} {s : Session S} (h : run step (init S true) as = some s) :
    Orderly s :=
  run_invariant (P := fun _ => True) (fun _ _ _ _ hinv hs => step_orderly hinv hs) (fun _ _ => trivial)
    (orderly_init S) h

theorem Orderly.paired {s : Session S} (h : Orderly s) : Paired s :=
  paired_of_inv h.consistent.table h.consistent.ledger h.consistent.outputs h.consistent.accounted

theorem Orderly.fifo {s : Session S} (h : Orderly s) : Fifo s where
  started := by
    have hsorted := h.ordered.sorted
    rw [line, RpcView.line, List.append_assoc, List.pairwise_append] at hsorted
    exact hsorted.1
  no_overtaking q hq call hcall := by
    have hsorted := h.ordered.sorted
    rw [line, RpcView.line, List.append_assoc, List.pairwise_append] at hsorted
    exact hsorted.2.2 q.call (List.mem_map_of_mem hq) call hcall
  answered := by
    rw [RpcView.answered, List.map_append]
    exact ((List.sublist_append_left _ _).trans h.answers).trans (List.sublist_append_left _ _)
  failed call error hc := by
    have hout := (h.ordered.failed call error hc).2
    rw [line, RpcView.line, List.append_assoc, List.mem_append, not_or] at hout
    exact hout

/-- **Calls and answers stay in order** in every run of the two loops. -/
theorem fifo_of_run {as : List SessionAct} {s : Session S} (h : run step (init S true) as = some s) : Fifo s :=
  (orderly_of_run h).fifo

/-- The handler of the second call returns first, and the second call is answered first. -/
theorem fifo_overtakingRun :
    ∃ s, run step (init counterState.toStateStruct true) overtakingRun = some s ∧ s.client.answered = [1, 0] ∧
      Fifo s := by
  have hrun : (run step (init counterState.toStateStruct true) overtakingRun).map (fun s => s.client.answered) =
      some [1, 0] := rfl
  obtain ⟨s, hs, hanswered⟩ := Option.map_eq_some_iff.mp hrun
  exact ⟨s, hs, hanswered, fifo_of_run hs⟩

end Session

end HardLight
