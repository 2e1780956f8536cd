import HardLight.Remote.Basic
import HardLight.System.Projection

/-!
# The connection of a generated client

What one connection of a service keeps: its calls, handler tasks and completions, beside what the applications see
and the operations done.

* `Recorded` : a call has taken effect, and a result is what its stub makes of the effect;
* `LinkInv` : what the connection keeps; `LinkInv.frame`, `LinkInv.call`, `LinkInv.execute`, `LinkInv.advance` : after
  a step elsewhere, a call, the work of a handler, any other step of the session;
* `LinkInv.observed` : what the application sees is an effect or a failure.
-/

namespace HardLight
open Lib

namespace Session
variable {S : StateStruct}

theorem step_client_eq {s s' : Session S} {a : SessionAct} (hno : s.shipped = false) (h : s.step a = some s') :
    s'.client = s.client := by
  cases a with
  | client a =>
    rw [step, hno] at h
    cases h
  | receive decoded =>
    rw [step, hno] at h
    cases h
  | conn a => exact (step_conn h).1
  | abort => cases h; rfl

theorem reserved_cases {s s' : Session S} {a : SessionAct} (ha : a.reserved = true) (h : s.step a = some s') :
    s'.client = s.client ∧ a.ends = none ∧ (∀ internal, a ≠ .client (.call internal)) ∧
      ∀ n result, a ≠ .conn (.handlerReturns n result) := by
  cases a with
  | conn a =>
    refine ⟨(step_conn h).1, ?_, (fun internal he => by cases he), fun n result he => ?_⟩
    · cases a with
      | subscription => rfl
      | deliver => rfl
      | _ => cases ha
    · cases he
      cases ha
  | _ => cases ha

end Session

theorem followTasks_request {tasks : List Task} {running now accepted accepted' : List Request} {ends : Option Nat}
    (htasks : tasks.map Task.request = running)
    (hstep : (∃ n, ends = some n ∧ now = running.eraseIdx n ∧ accepted' = accepted) ∨
      ends = none ∧ ∃ new, now = running ++ new ∧ accepted' = accepted ++ new) :
    (followTasks tasks ends now).map Task.request = now := by
  rcases hstep with ⟨n, rfl, rfl, -⟩ | ⟨rfl, new, rfl, -⟩
  · rw [followTasks, ← htasks, List.eraseIdx_map]
  · have hlength : tasks.length = running.length := by rw [← htasks, List.length_map]
    rw [followTasks, hlength, List.drop_left, List.map_append, List.map_map, htasks]
    exact congrArg (running ++ ·) (List.map_id' new)

theorem mem_followTasks {tasks : List Task} {running now accepted accepted' : List Request} {ends : Option Nat}
    (htasks : tasks.map Task.request = running)
    (hstep : (∃ n, ends = some n ∧ now = running.eraseIdx n ∧ accepted' = accepted) ∨
      ends = none ∧ ∃ new, now = running ++ new ∧ accepted' = accepted ++ new) {t : Task}
    (ht : t ∈ followTasks tasks ends now) :
    t ∈ tasks ∨ t.handled = none ∧ ∃ new, accepted' = accepted ++ new ∧ t.request ∈ new := by
  rcases hstep with ⟨n, rfl, -, -⟩ | ⟨rfl, new, rfl, hnew⟩
  · exact Or.inl (List.mem_of_mem_eraseIdx ht)
  · have hlength : tasks.length = running.length := by rw [← htasks, List.length_map]
    rw [followTasks, hlength, List.drop_left, List.mem_append, List.mem_map] at ht
    rcases ht with ht | ⟨r, hr, rfl⟩
    · exact Or.inl ht
    · exact Or.inr ⟨rfl, new, hnew, hr⟩

section Remote
variable {τ : Type} {El : τ → Type} {σ : Type} {svc : Service τ El σ} {S : StateStruct}
  {history history' : List (Observation RemoteCall (ConnId × Invocation El) (Outcome El))}
  {order order' : List (RemoteCall × (ConnId × Invocation El) × Outcome El)} {c : ConnId}

theorem mem_observe {made : List (StubCall svc)} {completions : List (Call × Completion)}
    {o : Observation RemoteCall (ConnId × Invocation El) (Outcome El)} :
    o ∈ observe c made completions ↔ ∃ n stub, made[n]? = some stub ∧
      ((∃ result, (n, Completion.output result) ∈ completions ∧ o = .returned (c, n) (stub.outcome result)) ∨
        ∃ error, (n, Completion.failed error) ∈ completions ∧ o = .failed (c, n)) := by
  rw [observe, List.mem_filterMap]
  constructor
  · rintro ⟨⟨n, completion⟩, hin, ho⟩
    obtain ⟨stub, hstub, rfl⟩ := Option.map_eq_some_iff.mp ho
    refine ⟨n, stub, hstub, ?_⟩
    cases completion with
    | output result => exact Or.inl ⟨result, hin, rfl⟩
    | failed error => exact Or.inr ⟨error, hin, rfl⟩
  · rintro ⟨n, stub, hstub, ⟨result, hin, rfl⟩ | ⟨error, hin, rfl⟩⟩
    · exact ⟨_, hin, by rw [hstub]; rfl⟩
    · exact ⟨_, hin, by rw [hstub]; rfl⟩

/-- Call number `n` has taken effect, and its stub makes the result of the effect out of `result`. -/
def Recorded (order : List (RemoteCall × (ConnId × Invocation El) × Outcome El)) (c : ConnId)
    (made : List (StubCall svc)) (n : Call) (result : HandlerResult Bytes) : Prop :=
  ∃ stub, made[n]? = some stub ∧ ((c, n), (c, stub.invocation), stub.outcome result) ∈ order

theorem Recorded.mono {made made' : List (StubCall svc)} {n : Call} {result : HandlerResult Bytes}
    (h : Recorded order c made n result) (horder : order ⊆ order') (hmade : made <+: made') :
    Recorded order' c made' n result := by
  obtain ⟨stub, hstub, hin⟩ := h
  obtain ⟨rest, rfl⟩ := hmade
  refine ⟨stub, ?_, horder hin⟩
  obtain ⟨hlt, -⟩ := List.getElem?_eq_some_iff.mp hstub
  rw [List.getElem?_append_left hlt, hstub]

variable [DecidableEq τ]

/-- **What the connection of a client keeps.** -/
structure LinkInv (history : List (Observation RemoteCall (ConnId × Invocation El) (Outcome El)))
    (order : List (RemoteCall × (ConnId × Invocation El) × Outcome El)) (c : ConnId) (session : Session S)
    (tasks : List Task) (made : List (StubCall svc)) : Prop where
  orderly : session.Orderly
  runs : ∀ r ∈ session.conn.tasks, r ∈ session.conn.accepted
  follows : tasks.map Task.request = session.conn.tasks
  sends : made.map StubCall.request = session.client.issued.map fun issue => some (some issue.internal)
  called : ∀ n stub, made[n]? = some stub → .called (c, n) (c, stub.invocation) ∈ history
  fresh : ∀ n op, .called (c, n) op ∈ history → n < made.length
  returned : ∀ n result, (n, Completion.output result) ∈ session.client.completions →
    ∃ stub, made[n]? = some stub ∧ .returned (c, n) (stub.outcome result) ∈ history
  failed : ∀ n, .failed (c, n) ∈ history ↔ ∃ error, (n, Completion.failed error) ∈ session.client.completions
  executed : ∀ n, (c, n) ∈ order.map Prod.fst → n ∈ session.conn.accepted.map Request.call
  pending : ∀ t ∈ tasks, t.handled = none → (c, t.request.call) ∉ order.map Prod.fst
  done : ∀ t ∈ tasks, ∀ o, t.handled = some o →
    ∃ result, o = some result ∧ Recorded order c made t.request.call result
  answered : ∀ x ∈ session.conn.rpcView.answered, Recorded order c made x.call x.output

theorem linkInv_init : LinkInv [] [] c (Session.init S true) [] ([] : List (StubCall svc)) where
  orderly := Session.orderly_init S
  runs r hr := by cases hr
  follows := rfl
  sends := rfl
  called n stub h := by cases h
  fresh n op h := by cases h
  returned n result h := by cases h
  failed n := ⟨(fun h => by cases h), (fun ⟨error, h⟩ => by cases h)⟩
  executed n h := by cases h
  pending t ht := by cases ht
  done t ht := by cases ht
  answered x hx := by cases hx

namespace LinkInv
variable {session session' : Session S} {tasks : List Task} {made : List (StubCall svc)}

theorem frame (h : LinkInv history order c session tasks made) (hhistory : history ⊆ history')
    (hnew : ∀ o ∈ history', o ∈ history ∨ o.id.1 ≠ c) (horder : order ⊆ order')
    (hentry : ∀ x ∈ order', x ∈ order ∨ x.1.1 ≠ c) : LinkInv history' order' c session tasks made where
  orderly := h.orderly
  runs := h.runs
  follows := h.follows
  sends := h.sends
  called n stub hn := hhistory (h.called n stub hn)
  fresh n op hin := by
    rcases hnew _ hin with hin | hne
    · exact h.fresh n op hin
    · exact absurd rfl hne
  returned n result hin := (h.returned n result hin).imp fun stub hs => ⟨hs.1, hhistory hs.2⟩
  failed n := by
    rw [← h.failed n]
    refine ⟨fun hin => ?_, fun hin => hhistory hin⟩
    rcases hnew _ hin with hin | hne
    · exact hin
    · exact absurd rfl hne
  executed n hin := by
    obtain ⟨x, hx, hid⟩ := List.mem_map.mp hin
    rcases hentry x hx with hx | hne
    · exact h.executed n (List.mem_map.mpr ⟨x, hx, hid⟩)
    · exact absurd (congrArg Prod.fst hid) hne
  pending t ht hnone hin := by
    obtain ⟨x, hx, hid⟩ := List.mem_map.mp hin
    rcases hentry x hx with hx | hne
    · exact h.pending t ht hnone (List.mem_map.mpr ⟨x, hx, hid⟩)
    · exact absurd (congrArg Prod.fst hid) hne
  done t ht o ho := (h.done t ht o ho).imp fun result hr => ⟨hr.1, hr.2.mono horder (List.prefix_refl _)⟩
  answered x hx := (h.answered x hx).mono horder (List.prefix_refl _)

theorem length_made (h : LinkInv history order c session tasks made) :
    made.length = session.client.issued.length := by
  have hlength := congrArg List.length h.sends
  rwa [List.length_map, List.length_map] at hlength

theorem call (h : LinkInv history order c session tasks made) {stub : StubCall svc} {bytes : Bytes}
    (hrequest : stub.request = some (some bytes)) (hs : session.step (.client (.call bytes)) = some session') :
    LinkInv (history ++ [.called (c, made.length) (c, stub.invocation)]) order c session' tasks (made ++ [stub]) := by
  obtain ⟨hconn, hcompletions, hissued⟩ := Session.step_call hs
  have hmono : made <+: made ++ [stub] := List.prefix_append _ _
  refine ⟨Session.step_orderly h.orderly hs, hconn ▸ h.runs, hconn ▸ h.follows, ?_, ?_, ?_, ?_, ?_, ?_, h.pending, ?_,
    ?_⟩
  · rw [hissued, List.map_append, List.map_append, h.sends]
    simp [hrequest]
  · intro n stub' hn
    rw [List.mem_append, List.mem_singleton]
    rw [List.getElem?_append] at hn
    split at hn
    next hlt => exact Or.inl (h.called n stub' hn)
    next hge =>
      rw [List.getElem?_singleton, Option.ite_none_right_eq_some] at hn
      obtain ⟨hz, ⟨⟩⟩ := hn
      rw [show n = made.length from Nat.le_antisymm (Nat.sub_eq_zero_iff_le.mp hz) (Nat.not_lt.mp hge)]
      exact Or.inr rfl
  · intro n op hin
    rw [List.length_append, List.length_singleton]
    rw [List.mem_append, List.mem_singleton] at hin
    rcases hin with hin | hin
    · exact Nat.lt_succ_of_lt (h.fresh n op hin)
    · cases hin
      exact Nat.lt_succ_self _
  · intro n result hin
    obtain ⟨stub', hstub, hseen⟩ := h.returned n result (hcompletions ▸ hin)
    obtain ⟨hlt, -⟩ := List.getElem?_eq_some_iff.mp hstub
    exact ⟨stub', by rw [List.getElem?_append_left hlt, hstub], List.mem_append_left _ hseen⟩
  · intro n
    rw [hcompletions, ← h.failed n]
    simp
  · exact hconn ▸ h.executed
  · exact fun t ht o ho => (h.done t ht o ho).imp fun result hr => ⟨hr.1, hr.2.mono (List.Subset.refl _) hmono⟩
  · exact fun x hx => (h.answered x (hconn ▸ hx)).mono (List.Subset.refl _) hmono

theorem stub_of_task (h : LinkInv history order c session tasks made) {t : Task} (ht : t ∈ tasks) :
    ∃ stub, made[t.request.call]? = some stub ∧ stub.request = some (some t.request.internal) := by
  have hrunning : t.request ∈ session.conn.tasks := h.follows ▸ List.mem_map_of_mem ht
  have hissued := h.orderly.consistent.ledger.issued (RpcView.requestBytes t.request)
    (List.mem_append_right _ (List.mem_append_right _ (List.mem_map_of_mem (h.runs _ hrunning))))
  obtain ⟨issue, hissue, hinternal⟩ := Option.map_eq_some_iff.mp hissued
  have hsends := congrArg (fun l => l[t.request.call]?) h.sends
  simp only [List.getElem?_map] at hsends
  rw [show session.client.issued[t.request.call]? = some issue from hissue, Option.map_some,
    Option.map_eq_some_iff] at hsends
  obtain ⟨stub, hstub, hrequest⟩ := hsends
  exact ⟨stub, hstub, by rw [hrequest, hinternal]; rfl⟩

theorem not_failed_of_task (h : LinkInv history order c session tasks made) {t : Task} (ht : t ∈ tasks) :
    .failed (c, t.request.call) ∉ history := by
  intro hf
  obtain ⟨error, hc⟩ := (h.failed _).mp hf
  have hrunning : t.request ∈ session.conn.tasks := h.follows ▸ List.mem_map_of_mem ht
  exact (h.orderly.fifo.failed _ error hc).1 (List.mem_map_of_mem (h.runs _ hrunning))

theorem call_ne_of_place (h : LinkInv history order c session tasks made) {n m : Nat} {t u : Task}
    (ht : tasks[n]? = some t) (hu : tasks[m]? = some u) (hne : n ≠ m) : t.request.call ≠ u.request.call := by
  have hnodup := (h.orderly.consistent.ledger.run_nodup h.orderly.consistent.accounted).of_append_left
  rw [← h.follows, List.map_map] at hnodup
  obtain ⟨hn, rfl⟩ := List.getElem?_eq_some_iff.mp ht
  obtain ⟨hm, rfl⟩ := List.getElem?_eq_some_iff.mp hu
  intro heq
  have hn' : n < (tasks.map (Request.call ∘ Task.request)).length := by rwa [List.length_map]
  have hm' : m < (tasks.map (Request.call ∘ Task.request)).length := by rwa [List.length_map]
  refine hne ((@List.Nodup.getElem_inj_iff _ _ hnodup n hn' m hm').mp ?_)
  rw [List.getElem_map, List.getElem_map]
  exact heq

theorem execute (h : LinkInv history order c session tasks made) {n : Nat} {request : Request}
    (htask : tasks[n]? = some ⟨request, none⟩) {stub : StubCall svc} (hstub : made[request.call]? = some stub)
    (response : HandlerResult Bytes) :
    LinkInv history (order ++ [((c, request.call), (c, stub.invocation), stub.outcome response)]) c session
      (tasks.set n ⟨request, some (some response)⟩) made := by
  have hgrows : order ⊆ order ++ [((c, request.call), (c, stub.invocation), stub.outcome response)] :=
    List.subset_append_left _ _
  obtain ⟨hn, -⟩ := List.getElem?_eq_some_iff.mp htask
  have hmem : (⟨request, none⟩ : Task) ∈ tasks := List.mem_of_getElem? htask
  refine ⟨h.orderly, h.runs, ?_, h.sends, h.called, h.fresh, h.returned, h.failed, ?_, ?_, ?_, ?_⟩
  · rw [← h.follows, List.map_set]
    have hrequest : (tasks.map Task.request)[n]? = some request := by rw [List.getElem?_map, htask, Option.map_some]
    obtain ⟨hlt, heq⟩ := List.getElem?_eq_some_iff.mp hrequest
    exact (congrArg (List.set _ n) heq.symm).trans (List.set_getElem_self hlt)
  · intro m hin
    rw [List.map_append, List.mem_append, List.map_singleton, List.mem_singleton] at hin
    rcases hin with hin | hin
    · exact h.executed m hin
    · cases hin
      have hrunning : request ∈ session.conn.tasks := h.follows ▸ List.mem_map_of_mem hmem
      exact List.mem_map_of_mem (h.runs _ hrunning)
  · intro t ht hnone hin
    obtain ⟨m, hm⟩ := List.mem_iff_getElem?.mp ht
    by_cases hne : n = m
    · rw [← hne, List.getElem?_set_self hn] at hm
      cases hm
      cases hnone
    · rw [List.getElem?_set_ne hne] at hm
      rw [List.map_append, List.mem_append, List.map_singleton, List.mem_singleton] at hin
      rcases hin with hin | hin
      · exact h.pending t (List.mem_of_getElem? hm) hnone hin
      · exact h.call_ne_of_place htask hm hne (congrArg Prod.snd hin).symm
  · intro t ht o ho
    rcases List.mem_or_eq_of_mem_set ht with ht | rfl
    · exact (h.done t ht o ho).imp fun result hr => ⟨hr.1, hr.2.mono hgrows (List.prefix_refl _)⟩
    · cases ho
      exact ⟨response, rfl, stub, hstub, List.mem_append_right _ List.mem_cons_self⟩
  · exact fun x hx => (h.answered x hx).mono hgrows (List.prefix_refl _)

/-- The session takes a step that makes no call; a handler task that returns has done its work. -/
theorem advance (h : LinkInv history order c session tasks made) {a : SessionAct}
    (hs : session.step a = some session') (hcall : ∀ internal, a ≠ .client (.call internal))
    (hreturn : ∀ n result, a = .conn (.handlerReturns n result) →
      ∃ request, tasks[n]? = some ⟨request, some (some result)⟩) :
    LinkInv (history ++ observe c made (session'.client.completions.drop session.client.completions.length)) order c
      session' (followTasks tasks a.ends session'.conn.tasks) made := by
  have horderly := Session.step_orderly h.orderly hs
  have hissued := Session.step_issued hs hcall
  have htasks := Session.step_tasks hs
  obtain ⟨new, hnew⟩ := Session.step_completions hs
  have hdrop : session'.client.completions.drop session.client.completions.length = new := by
    rw [← hnew, List.drop_left]
  have haccepted : ∀ r ∈ session.conn.accepted, r ∈ session'.conn.accepted := by
    intro r hr
    rcases htasks with ⟨n, -, -, heq⟩ | ⟨-, started, -, heq⟩
    · exact heq ▸ hr
    · exact heq ▸ List.mem_append_left _ hr
  have hanswered : ∀ x ∈ session'.conn.rpcView.answered, Recorded order c made x.call x.output := by
    intro x hx
    rcases Session.step_answered (Session.step_rpcStep hs) hx with hx | ⟨n, result, q, rfl, hq, rfl⟩
    · exact h.answered x hx
    · obtain ⟨request, htask⟩ := hreturn n result rfl
      rw [← h.follows, List.getElem?_map, htask] at hq
      cases hq
      obtain ⟨result', hresult, hrec⟩ := h.done _ (List.mem_of_getElem? htask) _ rfl
      cases hresult
      exact hrec
  have houtput : ∀ n result, (n, Completion.output result) ∈ session'.client.completions →
      Recorded order c made n result := by
    intro n result hin
    obtain ⟨x, hx, rfl, rfl⟩ := horderly.consistent.outputs.own n result hin
    exact hanswered x (List.mem_append_left _ hx)
  rw [hdrop]
  refine ⟨horderly, fun r hr => ?_, followTasks_request h.follows htasks, by rw [hissued, h.sends], ?_, ?_, ?_, ?_, ?_,
    ?_, ?_, hanswered⟩
  · rcases htasks with ⟨n, -, heq, -⟩ | ⟨-, started, heq, heq'⟩
    · exact haccepted r (h.runs r (List.mem_of_mem_eraseIdx (heq ▸ hr)))
    · rw [heq, List.mem_append] at hr
      rw [heq', List.mem_append]
      exact hr.imp_left (h.runs r)
  · exact fun n stub hn => List.mem_append_left _ (h.called n stub hn)
  · intro n op hin
    rcases List.mem_append.mp hin with hin | hin
    · exact h.fresh n op hin
    · obtain ⟨m, stub, -, ⟨result, -, he⟩ | ⟨error, -, he⟩⟩ := mem_observe.mp hin
      · cases he
      · cases he
  · intro n result hin
    obtain ⟨stub, hstub, -⟩ := houtput n result hin
    rw [← hnew, List.mem_append] at hin
    rcases hin with hin | hin
    · obtain ⟨stub', hstub', hseen⟩ := h.returned n result hin
      exact ⟨stub', hstub', List.mem_append_left _ hseen⟩
    · exact ⟨stub, hstub, List.mem_append_right _ (mem_observe.mpr ⟨n, stub, hstub, Or.inl ⟨result, hin, rfl⟩⟩)⟩
  · intro n
    constructor
    · intro hin
      rcases List.mem_append.mp hin with hin | hin
      · obtain ⟨error, hc⟩ := (h.failed n).mp hin
        exact ⟨error, hnew ▸ List.mem_append_left _ hc⟩
      · obtain ⟨m, stub, -, ⟨result, -, he⟩ | ⟨error, hc, he⟩⟩ := mem_observe.mp hin
        · cases he
        · cases he
          exact ⟨error, hnew ▸ List.mem_append_right _ hc⟩
    · rintro ⟨error, hin⟩
      have hlt := (horderly.ordered.failed n error hin).1
      rw [hissued, ← h.length_made] at hlt
      rw [← hnew, List.mem_append] at hin
      rcases hin with hin | hin
      · exact List.mem_append_left _ ((h.failed n).mpr ⟨error, hin⟩)
      · exact List.mem_append_right _
          (mem_observe.mpr ⟨n, made[n], List.getElem?_eq_getElem hlt, Or.inr ⟨error, hin, rfl⟩⟩)
  · intro n hin
    obtain ⟨r, hr, rfl⟩ := List.mem_map.mp (h.executed n hin)
    exact List.mem_map_of_mem (haccepted r hr)
  · intro t ht hnone hin
    rcases mem_followTasks h.follows htasks ht with ht | ⟨-, started, hstarted, ht⟩
    · exact h.pending t ht hnone hin
    · -- a call that has taken effect was accepted before, and no call is accepted twice
      have hnodup := horderly.consistent.ledger.accepted_nodup
      rw [hstarted, List.map_append] at hnodup
      exact (List.nodup_append.mp hnodup).2.2 _ (h.executed _ hin) _ (List.mem_map_of_mem ht) rfl
  · intro t ht o ho
    rcases mem_followTasks h.follows htasks ht with ht | ⟨hnone, -⟩
    · exact h.done t ht o ho
    · rw [hnone] at ho
      cases ho

theorem observed {tasks' : List Task} (h : LinkInv history order c session tasks made)
    (h' : LinkInv history' order c session' tasks' made) {completions : List (Call × Completion)}
    (hin : completions ⊆ session'.client.completions) :
    ∀ o ∈ observe c made completions, (∃ id op r, o = .returned id r ∧ (id, op, r) ∈ order) ∨
      ∃ id, o = .failed id ∧ id ∈ history.filterMap Observation.called? ∧ id ∉ order.map Prod.fst := by
  intro o ho
  obtain ⟨n, stub, hstub, ⟨result, hc, rfl⟩ | ⟨error, hc, rfl⟩⟩ := mem_observe.mp ho
  · obtain ⟨x, hx, rfl, rfl⟩ := h'.orderly.consistent.outputs.own n result (hin hc)
    obtain ⟨stub', hstub', hrec⟩ := h'.answered x (List.mem_append_left _ hx)
    cases hstub.symm.trans hstub'
    exact Or.inl ⟨_, _, _, rfl, hrec⟩
  · refine Or.inr ⟨_, rfl, mem_called_iff.mpr ⟨_, h.called n stub hstub⟩, fun hexec => ?_⟩
    exact (h'.orderly.fifo.failed n error (hin hc)).1 (h'.executed n hexec)

end LinkInv

end Remote

end HardLight
