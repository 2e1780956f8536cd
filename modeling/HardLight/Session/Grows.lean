import HardLight.Session.Order

/-!
# What a session step adds

The calls made, the completions, the requests accepted and the responses of handlers only grow; handler tasks are
started for what is accepted and end one at a time.

* `step_call`, `step_issued` : only an application call is a new call;
* `step_completions` : completions are added at the end;
* `step_tasks` : a task ends, or tasks are started for the requests accepted;
* `step_answered` : a response is sent by the task that returns.
-/

namespace HardLight
open Lib

namespace ConnAct

/-- The place of the handler task that ends. -/
def ends : ConnAct → Option Nat
  | handlerReturns n _ => some n
  | handlerPanics n => some n
  | _ => none

end ConnAct

namespace Conn

theorem step_tasks {k k' : Conn} {a : ConnAct} (h : k.step a = some k') :
    (∃ n, a.ends = some n ∧ k'.tasks = k.tasks.eraseIdx n ∧ k'.accepted = k.accepted) ∨
      a.ends = none ∧ ∃ new, k'.tasks = k.tasks ++ new ∧ k'.accepted = k.accepted ++ new := by
  cases step_cases h with
  | returned n output r hr hrun => exact Or.inl ⟨n, rfl, rfl, rfl⟩
  | orphaned n output r hr hexited => exact Or.inl ⟨n, rfl, rfl, rfl⟩
  | panicked n r hr => exact Or.inl ⟨n, rfl, rfl, rfl⟩
  | accepted r rest hpolls hq hfree => exact Or.inr ⟨rfl, [r], rfl, rfl⟩
  | _ => exact Or.inr ⟨rfl, [], (List.append_nil _).symm, (List.append_nil _).symm⟩

theorem mem_answers {k : Conn} {a : ConnAct} {r : Response} (h : r ∈ (k.rpcLabel a).answers) :
    ∃ n output q, a = .handlerReturns n output ∧ k.tasks[n]? = some q ∧ r = q.respond output := by
  cases a with
  | handlerReturns n output =>
    simp only [rpcLabel] at h
    split at h
    next q hq =>
      split at h
      · cases h
      · exact ⟨n, output, q, rfl, hq, List.mem_singleton.mp h⟩
    next => cases h
  | _ =>
    simp only [rpcLabel] at h
    repeat' first
      | cases h
      | split at h

end Conn

namespace ClientLoop
variable {S : StateStruct}

theorem Step.grows {c c' : ClientLoop S} {out : Option Request} (h : Step c out c') :
    c.completions <+: c'.completions := by
  cases h with
  | refused => exact List.prefix_append _ _
  | failed => exact List.prefix_append _ _
  | _ => exact List.prefix_refl _

theorem Receives.grows {c c' : ClientLoop S} {r : Option Response} (h : Receives c r c') :
    c.completions <+: c'.completions := by
  cases h with
  | completed => exact List.prefix_append _ _
  | _ => exact List.prefix_refl _

theorem step_issued {c c' : ClientLoop S} {a : ClientAct} {out : Option Request} (h : c.step a = some (c', out))
    (ha : ∀ internal, a ≠ .call internal) : c'.issued = c.issued := by
  cases a with
  | call internal => exact absurd rfl (ha internal)
  | takeRequest =>
    obtain ⟨c'', htake, ⟨⟩⟩ := Option.map_eq_some_iff.mp h
    obtain ⟨internal, call, rest, -, -, ⟨slot, -, rfl⟩ | ⟨-, rfl⟩⟩ := takeRequest_cases htake <;> rfl
  | send outcome =>
    obtain ⟨slot, call, internal, -, ⟨-, ⟨⟩⟩ | ⟨error, -, ⟨⟩⟩⟩ := onSend_cases h <;> rfl
  | fillSlot =>
    obtain ⟨c'', hfill, ⟨⟩⟩ := Option.map_eq_some_iff.mp h
    obtain ⟨slot, call, -, rfl⟩ := fillSlot_cases hfill
    rfl
  | shutdown =>
    obtain ⟨c'', hshut, ⟨⟩⟩ := Option.map_eq_some_iff.mp h
    obtain ⟨-, rfl⟩ := shutdown_cases hshut
    rfl

end ClientLoop

namespace SessionAct

/-- The place of the handler task that ends. -/
def ends : SessionAct → Option Nat
  | conn a => a.ends
  | _ => none

end SessionAct

namespace Session
variable {S : StateStruct}

theorem step_call {s s' : Session S} {internal : Bytes} (h : s.step (.client (.call internal)) = some s') :
    s'.conn = s.conn ∧ s'.client.completions = s.client.completions ∧
      s'.client.issued = s.client.issued ++ [⟨internal, s.client.answered⟩] := by
  obtain ⟨out, hc, -, hk⟩ := step_client h
  obtain ⟨c, hcall, heq⟩ := Option.map_eq_some_iff.mp hc
  obtain ⟨rfl, rfl⟩ := Prod.mk.inj heq
  refine ⟨hk, ?_, ?_⟩ <;> rw [ClientLoop.call_cases hcall]

theorem step_issued {s s' : Session S} {a : SessionAct} (h : s.step a = some s')
    (ha : ∀ internal, a ≠ .client (.call internal)) : s'.client.issued = s.client.issued := by
  cases a with
  | client a =>
    obtain ⟨out, hc, -, -⟩ := step_client h
    exact ClientLoop.step_issued hc fun internal he => ha internal (congrArg _ he)
  | receive decoded =>
    obtain ⟨msg, rest, -, -, hc, -⟩ := step_receive h
    exact (ClientLoop.onServerMessage_cases hc).waiting.1
  | conn a => rw [(step_conn h).1]
  | abort => cases h; rfl

theorem step_completions {s s' : Session S} {a : SessionAct} (h : s.step a = some s') :
    s.client.completions <+: s'.client.completions := by
  cases a with
  | client a =>
    obtain ⟨out, hc, -, -⟩ := step_client h
    exact (ClientLoop.step_cases hc).grows
  | receive decoded =>
    obtain ⟨msg, rest, -, -, hc, -⟩ := step_receive h
    exact (ClientLoop.onServerMessage_cases hc).grows
  | conn a => rw [(step_conn h).1]
  | abort => cases h; exact List.prefix_refl _

theorem step_tasks {s s' : Session S} {a : SessionAct} (h : s.step a = some s') :
    (∃ n, a.ends = some n ∧ s'.conn.tasks = s.conn.tasks.eraseIdx n ∧ s'.conn.accepted = s.conn.accepted) ∨
      a.ends = none ∧ ∃ new, s'.conn.tasks = s.conn.tasks ++ new ∧ s'.conn.accepted = s.conn.accepted ++ new := by
  have hsame : s'.conn = s.conn →
      ∃ new, s'.conn.tasks = s.conn.tasks ++ new ∧ s'.conn.accepted = s.conn.accepted ++ new :=
    fun hk => ⟨[], by rw [hk, List.append_nil], by rw [hk, List.append_nil]⟩
  cases a with
  | client a =>
    obtain ⟨out, -, -, hk⟩ := step_client h
    cases out with
    | none => exact Or.inr ⟨rfl, hsame hk⟩
    | some r =>
      rcases Conn.step_tasks hk with ⟨n, hn, -⟩ | ⟨-, hnew⟩
      · cases hn
      · exact Or.inr ⟨rfl, hnew⟩
  | receive decoded =>
    obtain ⟨-, -, -, -, -, hk⟩ := step_receive h
    rcases Conn.step_tasks hk with ⟨n, hn, -⟩ | ⟨-, hnew⟩
    · cases hn
    · exact Or.inr ⟨rfl, hnew⟩
  | conn a => exact Conn.step_tasks (step_conn h).2.2.2
  | abort => cases h; exact Or.inr ⟨rfl, [], (List.append_nil _).symm, (List.append_nil _).symm⟩

theorem step_answered {s s' : Session S} {a : SessionAct} (h : RpcStep s s' a) {r : Response}
    (hr : r ∈ s'.conn.rpcView.answered) :
    r ∈ s.conn.rpcView.answered ∨
      ∃ n output q, a = .conn (.handlerReturns n output) ∧ s.conn.tasks[n]? = some q ∧ r = q.respond output := by
  have hnone : ∀ l : RpcLabel, l.answers = [] → RpcView.Step s.conn.rpcView l s'.conn.rpcView →
      r ∈ s.conn.rpcView.answered := by
    intro l hl hview
    rwa [hview.answered, hl, List.append_nil] at hr
  cases h with
  | server a hclient hserver hview =>
    rw [hview.answered, List.mem_append] at hr
    refine hr.imp_right fun hin => ?_
    obtain ⟨n, output, q, rfl, hq, hresp⟩ := Conn.mem_answers hin
    exact ⟨n, output, q, rfl, hq, hresp⟩
  | aborted hclient hview => exact Or.inl (hview ▸ hr)
  | client a hclient hview => exact Or.inl (hview ▸ hr)
  | request a q hclient hview => exact Or.inl (hnone _ rfl hview)
  | response q hclient hview => exact Or.inl (hnone _ rfl hview)
  | unreadable q hclient hview => exact Or.inl (hnone _ rfl hview)
  | message decoded hclient hview => exact Or.inl (hview ▸ hr)

end Session

end HardLight
