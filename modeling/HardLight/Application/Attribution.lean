import HardLight.Application.Agreed
import HardLight.Session.Grows

/-!
# Whose handler runs

Calls of an application, with all the connections it makes one after the other: each is put on one connection at
most, and a connection is never given up with its calls taken to the next.

* `LoopsStep.keeps`, `LoopsStep.completions` : what the loops keep in a step;
* `Traced` : every call on a loop is a call of the application, and what became of it; `step_traced`;
* `World.executions` : the handler tasks started for a call, on all connections;
* `Attributed`, `attributed_of_run` : at most one handler runs for a call, with its bytes, and a call that returns
  has what that handler returned, or none has run.
-/

namespace HardLight
open Lib

variable {S : StateStruct}

namespace ApplicationClient
variable {version : HeaderValue} {s s' : ApplicationClient S} {a : ApplicationAct}

/-- A loop in front of the step, seen from behind it: only a call sent to it is new there. -/
theorem LoopsStep.keeps (h : LoopsStep version s a s') (hno : ∀ n, a ≠ .sendCall n) {k : Nat}
    {loop' : ClientLoop S} (hk : s'.loopAt k = some loop') :
    (s.loopAt k = none ∧ loop'.issued = []) ∨ ∃ loop, s.loopAt k = some loop ∧ loop'.issued = loop.issued := by
  have hupdate {j : Nat} {loop loop'' : ClientLoop S} (hloop : s.loopAt j = some loop)
      (hissued : loop''.issued = loop.issued) (hloops : s'.loopAt = Function.update s.loopAt j (some loop'')) :
      ∃ loop, s.loopAt k = some loop ∧ loop'.issued = loop.issued := by
    rw [hloops] at hk
    by_cases hj : k = j
    · subst hj
      rw [Function.update_self, Option.some.injEq] at hk
      exact ⟨loop, hloop, hk ▸ hissued⟩
    · rw [Function.update_of_ne hj] at hk
      exact ⟨loop', hk, rfl⟩
  cases h with
  | same _ _ hloop hmsg hloops =>
    rw [hloops] at hk
    exact Or.inr ⟨loop', hk, rfl⟩
  | entered j response _ hnone hversion hloops =>
    rw [hloops] at hk
    by_cases hj : k = j
    · subst hj
      rw [Function.update_self, Option.some.injEq] at hk
      exact Or.inl ⟨hnone, hk ▸ rfl⟩
    · rw [Function.update_of_ne hj] at hk
      exact Or.inr ⟨loop', hk, rfl⟩
  | queued n j internal loop loop'' _ hcall hloop hstep hcalls hloops => exact absurd rfl (hno n)
  | looped j b loop x _ hloop hstep hown hloops =>
    exact Or.inr (hupdate hloop (ClientLoop.step_issued hstep hown) hloops)
  | received j msg loop loop'' _ hloop hstep hloops =>
    exact Or.inr (hupdate hloop (ClientLoop.onServerMessage_cases hstep).waiting.1 hloops)

theorem LoopsStep.completions (h : LoopsStep version s a s') {k : Nat} {loop : ClientLoop S}
    (hk : s.loopAt k = some loop) : ∃ loop', s'.loopAt k = some loop' ∧ loop.completions <+: loop'.completions := by
  have hupdate {j : Nat} {loop₁ loop₂ : ClientLoop S} (hloop : s.loopAt j = some loop₁)
      (hmore : loop₁.completions <+: loop₂.completions)
      (hloops : s'.loopAt = Function.update s.loopAt j (some loop₂)) :
      ∃ loop', s'.loopAt k = some loop' ∧ loop.completions <+: loop'.completions := by
    rw [hloops]
    by_cases hj : k = j
    · subst hj
      rw [hloop, Option.some.injEq] at hk
      exact ⟨loop₂, Function.update_self _ _ _, hk ▸ hmore⟩
    · exact ⟨loop, by rw [Function.update_of_ne hj, hk], List.prefix_refl _⟩
  cases h with
  | same _ _ hloop hmsg hloops => exact ⟨loop, by rw [hloops, hk], List.prefix_refl _⟩
  | entered j response _ hnone hversion hloops =>
    have hj : k ≠ j := by
      rintro rfl
      rw [hnone] at hk
      cases hk
    exact ⟨loop, by rw [hloops, Function.update_of_ne hj, hk], List.prefix_refl _⟩
  | queued n j internal loop₁ loop₂ _ hcall hloop hstep hcalls hloops =>
    exact hupdate hloop (by rw [ClientLoop.call_cases hstep]) hloops
  | looped j b loop₁ x _ hloop hstep hown hloops => exact hupdate hloop (ClientLoop.step_cases hstep).grows hloops
  | received j msg loop₁ loop₂ _ hloop hstep hloops =>
    exact hupdate hloop (ClientLoop.onServerMessage_cases hstep).grows hloops

end ApplicationClient

/-! ## Where a call is -/

/-- A call is over before it is put on a connection. -/
inductive Unplaced : Option Bytes → HandlerResult Bytes → Prop
  | notConnected (encoded : Option Bytes) : Unplaced encoded (.error .clientNotConnected)
  | notEncoded : Unplaced none (.error .clientEncodeError)

/-- What the history says of the calls of an application and of those on its loops. -/
structure Traced (calls : List CallPhase) (loops : Nat → Option (ClientLoop S)) (encoded : List (Option Bytes))
    (placements : List Placement) : Prop where
  length_encoded : encoded.length = calls.length
  call_once : (placements.map Placement.call).Nodup
  own : ∀ p ∈ placements, encoded[p.call]? = some (some p.internal)
  connected : ∀ p ∈ placements, (loops p.connection).isSome = true
  issued : ∀ k loop, loops k = some loop → ∀ number internal,
    (loop.issued[number]?).map Issue.internal = some internal ↔
      ∃ p ∈ placements, p.connection = k ∧ p.number = number ∧ p.internal = internal
  sending : ∀ (n k : Nat) internal, calls[n]? = some (.sending k internal) →
    encoded[n]? = some (some internal) ∧ n ∉ placements.map Placement.call
  awaiting : ∀ (n k : Nat) number, calls[n]? = some (.awaiting k number) →
    ∃ p ∈ placements, p.call = n ∧ p.connection = k ∧ p.number = number
  returned : ∀ (n : Nat) result, calls[n]? = some (.returned result) →
    (n ∉ placements.map Placement.call ∧ ∃ e, encoded[n]? = some e ∧ Unplaced e result) ∨
      ∃ p ∈ placements, p.call = n ∧ ∃ loop completion, loops p.connection = some loop ∧
        (p.number, completion) ∈ loop.completions ∧ completion.result = result

namespace Traced
variable {calls : List CallPhase} {loops loops' : Nat → Option (ClientLoop S)} {encoded : List (Option Bytes)}
  {placements : List Placement}

theorem init : Traced (S := S) [] (fun _ => none) [] [] where
  length_encoded := rfl
  call_once := List.nodup_nil
  own p h := by cases h
  connected p h := by cases h
  issued k loop h := by cases h
  sending n k internal h := by cases h
  awaiting n k number h := by cases h
  returned n result h := by cases h

theorem call_lt (h : Traced calls loops encoded placements) {n : Nat} (hn : n ∈ placements.map Placement.call) :
    n < calls.length := by
  obtain ⟨p, hp, rfl⟩ := List.mem_map.mp hn
  rw [← h.length_encoded]
  exact (List.getElem?_eq_some_iff.mp (h.own p hp)).1

theorem onward (h : Traced calls loops encoded placements)
    (hkeeps : ∀ k loop', loops' k = some loop' → (loops k = none ∧ loop'.issued = []) ∨
      ∃ loop, loops k = some loop ∧ loop'.issued = loop.issued)
    (hcompletions : ∀ k loop, loops k = some loop →
      ∃ loop', loops' k = some loop' ∧ loop.completions <+: loop'.completions) :
    Traced calls loops' encoded placements where
  length_encoded := h.length_encoded
  call_once := h.call_once
  own := h.own
  connected p hp := by
    obtain ⟨loop, hloop⟩ := Option.isSome_iff_exists.mp (h.connected p hp)
    obtain ⟨loop', hloop', -⟩ := hcompletions _ _ hloop
    rw [hloop']
    rfl
  issued k loop' hloop' number internal := by
    rcases hkeeps k loop' hloop' with ⟨hnone, hissued⟩ | ⟨loop, hloop, hissued⟩
    · rw [hissued]
      refine ⟨(fun hget => by cases hget), fun ⟨p, hp, hk, _, _⟩ => ?_⟩
      have hsome := h.connected p hp
      rw [hk, hnone] at hsome
      cases hsome
    · rw [hissued]
      exact h.issued k loop hloop number internal
  sending := h.sending
  awaiting := h.awaiting
  returned n result hn := by
    refine (h.returned n result hn).imp_right ?_
    rintro ⟨p, hp, hcall, loop, completion, hloop, hmem, hresult⟩
    obtain ⟨loop', hloop', hmore⟩ := hcompletions _ _ hloop
    exact ⟨p, hp, hcall, loop', completion, hloop', hmore.subset hmem, hresult⟩

theorem begin (h : Traced calls loops encoded placements) {e : Option Bytes} {phase : CallPhase}
    (hphase : (∃ k internal, e = some internal ∧ phase = .sending k internal) ∨
      ∃ result, phase = .returned result ∧ Unplaced e result) :
    Traced (calls ++ [phase]) loops (encoded ++ [e]) placements := by
  have hlen := h.length_encoded
  have hfresh : calls.length ∉ placements.map Placement.call := fun hmem => Nat.lt_irrefl _ (h.call_lt hmem)
  have hnew : (encoded ++ [e])[calls.length]? = some e := by rw [← hlen, List.getElem?_concat_length]
  have hold {n : Nat} {x : Option Bytes} (hn : encoded[n]? = some x) : (encoded ++ [e])[n]? = some x := by
    rw [List.getElem?_append_left (List.getElem?_eq_some_iff.mp hn).1, hn]
  -- a call is one of before or the new one
  have hcases {n : Nat} {x : CallPhase} (hn : (calls ++ [phase])[n]? = some x) :
      calls[n]? = some x ∨ (n = calls.length ∧ x = phase) := by
    rw [List.getElem?_append] at hn
    split at hn
    next => exact Or.inl hn
    next hge =>
      obtain ⟨hlt, hx⟩ := List.getElem?_eq_some_iff.mp hn
      rw [List.length_singleton] at hlt
      have hzero : n - calls.length = 0 := by omega
      rw [List.getElem_singleton] at hx
      exact Or.inr ⟨by omega, hx.symm⟩
  refine ⟨by simp [hlen], h.call_once, fun p hp => hold (h.own p hp), h.connected, h.issued, ?_, ?_, ?_⟩
  · intro n k internal hn
    rcases hcases hn with hn | ⟨rfl, hx⟩
    · obtain ⟨he, hfree⟩ := h.sending n k internal hn
      exact ⟨hold he, hfree⟩
    · rcases hphase with ⟨k', internal', rfl, rfl⟩ | ⟨result, rfl, -⟩
      · cases hx
        exact ⟨hnew, hfresh⟩
      · cases hx
  · intro n k number hn
    rcases hcases hn with hn | ⟨rfl, hx⟩
    · exact h.awaiting n k number hn
    · rcases hphase with ⟨k', internal', rfl, rfl⟩ | ⟨result, rfl, -⟩ <;> cases hx
  · intro n result hn
    rcases hcases hn with hn | ⟨rfl, hx⟩
    · exact (h.returned n result hn).imp_left fun ⟨hfree, x, hx, hun⟩ => ⟨hfree, x, hold hx, hun⟩
    · rcases hphase with ⟨k', internal', rfl, rfl⟩ | ⟨result', rfl, hun⟩
      · cases hx
      · cases hx
        exact Or.inl ⟨hfresh, e, hnew, hun⟩

theorem set (h : Traced calls loops encoded placements) (n : Nat) (phase : CallPhase)
    (hphase : phase = .panicked ∨ phase = .cancelled ∨ ∃ k number loop completion,
      calls[n]? = some (.awaiting k number) ∧ loops k = some loop ∧ (number, completion) ∈ loop.completions ∧
        phase = .returned completion.result) :
    Traced (calls.set n phase) loops encoded placements := by
  have hcases {m : Nat} {x : CallPhase} (hm : (calls.set n phase)[m]? = some x) :
      calls[m]? = some x ∨ (m = n ∧ x = phase) := by
    rw [List.getElem?_set] at hm
    split at hm
    next heq =>
      split at hm
      · exact Or.inr ⟨heq.symm, (Option.some.inj hm).symm⟩
      · cases hm
    next => exact Or.inl hm
  refine ⟨by rw [List.length_set, h.length_encoded], h.call_once, h.own, h.connected, h.issued, ?_, ?_, ?_⟩
  · intro m k internal hm
    rcases hcases hm with hm | ⟨rfl, hx⟩
    · exact h.sending m k internal hm
    · rcases hphase with rfl | rfl | ⟨_, _, _, _, _, _, _, rfl⟩ <;> cases hx
  · intro m k number hm
    rcases hcases hm with hm | ⟨rfl, hx⟩
    · exact h.awaiting m k number hm
    · rcases hphase with rfl | rfl | ⟨_, _, _, _, _, _, _, rfl⟩ <;> cases hx
  · intro m result hm
    rcases hcases hm with hm | ⟨rfl, hx⟩
    · exact h.returned m result hm
    · rcases hphase with rfl | rfl | ⟨k, number, loop, completion, hcall, hloop, hmem, rfl⟩
      · cases hx
      · cases hx
      · cases hx
        obtain ⟨p, hp, rfl, rfl, rfl⟩ := h.awaiting m k number hcall
        exact Or.inr ⟨p, hp, rfl, loop, completion, hloop, hmem, rfl⟩

theorem issued_place {issued : List Issue} {n k : Nat} {internal : Bytes} {seen : List Call}
    (h : ∀ number bytes, (issued[number]?).map Issue.internal = some bytes ↔
      ∃ p ∈ placements, p.connection = k ∧ p.number = number ∧ p.internal = bytes) (number : Nat) (bytes : Bytes) :
    ((issued ++ [⟨internal, seen⟩])[number]?).map Issue.internal = some bytes ↔
      ∃ p ∈ placements ++ [⟨n, k, issued.length, internal⟩],
        p.connection = k ∧ p.number = number ∧ p.internal = bytes := by
  simp only [List.mem_append, List.mem_singleton, or_and_right, exists_or, exists_eq_left, ← h, true_and]
  rcases Nat.lt_trichotomy number issued.length with hlt | rfl | hgt
  · rw [List.getElem?_append_left hlt]
    simp [Nat.ne_of_gt hlt]
  · simp
  · rw [List.getElem?_eq_none (by rw [List.length_append, List.length_singleton]; omega),
      List.getElem?_eq_none (Nat.le_of_lt hgt)]
    simp [Nat.ne_of_lt hgt]

/-- **A call is put on a connection**, as the last one there. -/
theorem place (h : Traced calls loops encoded placements) {n k : Nat} {internal : Bytes}
    {loop loop' : ClientLoop S} {seen : List Call} (hcall : calls[n]? = some (.sending k internal))
    (hloop : loops k = some loop) (hissued : loop'.issued = loop.issued ++ [⟨internal, seen⟩])
    (hcompletions : loop'.completions = loop.completions) :
    Traced (calls.set n (.awaiting k loop.issued.length)) (Function.update loops k (some loop')) encoded
      (placements ++ [⟨n, k, loop.issued.length, internal⟩]) := by
  obtain ⟨hencoded, hfree⟩ := h.sending n k internal hcall
  have hn := (List.getElem?_eq_some_iff.mp hcall).1
  have hcases {m : Nat} {x : CallPhase} (hm : (calls.set n (.awaiting k loop.issued.length))[m]? = some x) :
      (m ≠ n ∧ calls[m]? = some x) ∨ (m = n ∧ x = .awaiting k loop.issued.length) := by
    rw [List.getElem?_set] at hm
    split at hm
    next heq => exact Or.inr ⟨heq.symm, (Option.some.inj hm).symm⟩
    next hne => exact Or.inl ⟨fun heq => hne heq.symm, hm⟩
  have hkept {j : Nat} {l : ClientLoop S} (hl : loops j = some l) :
      ∃ l', Function.update loops k (some loop') j = some l' ∧ l'.completions = l.completions := by
    by_cases hj : j = k
    · subst hj
      rw [hloop, Option.some.injEq] at hl
      exact ⟨loop', Function.update_self _ _ _, hl ▸ hcompletions⟩
    · exact ⟨l, by rw [Function.update_of_ne hj, hl], rfl⟩
  have hmem {m : Nat} (hne : m ≠ n) :
      m ∈ (placements ++ [(⟨n, k, loop.issued.length, internal⟩ : Placement)]).map Placement.call ↔
        m ∈ placements.map Placement.call := by
    simp [hne]
  refine ⟨by rw [List.length_set, h.length_encoded], ?_, ?_, ?_, ?_, ?_, ?_, ?_⟩
  · rw [List.map_append, List.nodup_append]
    refine ⟨h.call_once, List.nodup_singleton _, fun m hm m' hm' => ?_⟩
    rw [List.map_singleton, List.mem_singleton] at hm'
    rintro rfl
    rw [hm'] at hm
    exact hfree hm
  · intro p hp
    rcases List.mem_append.mp hp with hp | hp
    · exact h.own p hp
    · rw [List.mem_singleton.mp hp]
      exact hencoded
  · intro p hp
    rcases List.mem_append.mp hp with hp | hp
    · obtain ⟨l, hl⟩ := Option.isSome_iff_exists.mp (h.connected p hp)
      obtain ⟨l', hl', -⟩ := hkept hl
      rw [hl']
      rfl
    · rw [List.mem_singleton.mp hp, Function.update_self]
      rfl
  · intro j l hl number bytes
    by_cases hj : j = k
    · subst hj
      rw [Function.update_self, Option.some.injEq] at hl
      subst hl
      rw [hissued]
      exact issued_place (h.issued j loop hloop) number bytes
    · rw [Function.update_of_ne hj] at hl
      rw [h.issued j l hl number bytes]
      constructor
      · rintro ⟨p, hp, hrest⟩
        exact ⟨p, List.mem_append_left _ hp, hrest⟩
      · rintro ⟨p, hp, hconn, hrest⟩
        rcases List.mem_append.mp hp with hp | hp
        · exact ⟨p, hp, hconn, hrest⟩
        · rw [List.mem_singleton.mp hp] at hconn
          exact absurd hconn.symm hj
  · intro m j bytes hm
    rcases hcases hm with ⟨hne, hm⟩ | ⟨rfl, hx⟩
    · obtain ⟨he, hfree'⟩ := h.sending m j bytes hm
      exact ⟨he, fun hin => hfree' ((hmem hne).mp hin)⟩
    · cases hx
  · intro m j number hm
    rcases hcases hm with ⟨hne, hm⟩ | ⟨rfl, hx⟩
    · obtain ⟨p, hp, hrest⟩ := h.awaiting m j number hm
      exact ⟨p, List.mem_append_left _ hp, hrest⟩
    · cases hx
      exact ⟨_, List.mem_append_right _ (List.mem_singleton_self _), rfl, rfl, rfl⟩
  · intro m result hm
    rcases hcases hm with ⟨hne, hm⟩ | ⟨rfl, hx⟩
    · rcases h.returned m result hm with ⟨hfree', hrest⟩ | ⟨p, hp, hp', l, completion, hl, hin, hresult⟩
      · exact Or.inl ⟨fun hin => hfree' ((hmem hne).mp hin), hrest⟩
      · obtain ⟨l', hl', hsame⟩ := hkept hl
        exact Or.inr ⟨p, List.mem_append_left _ hp, hp', l', completion, hl', hsame ▸ hin, hresult⟩
    · cases hx

end Traced

/-! ## The steps -/

namespace World
variable {d : Deployment}

/-- What a step of the application leaves of the history. -/
theorem traced_app {version : HeaderValue} {app app' : ApplicationClient S} {a : ApplicationAct}
    {encoded : List (Option Bytes)} {placements : List Placement}
    (hinv : Traced app.calls app.loopAt encoded placements) (h : app.step version a = some app') :
    Traced app'.calls app'.loopAt (encoded ++ a.begun) (placements ++ placed app app' a) := by
  have hloops := ApplicationClient.step_loops h
  have hbegun {n : Nat} : ApplicationAct.begun (.sendCall n) = [] := rfl
  -- a step that sends no call
  have honward (hno : ∀ n, a ≠ .sendCall n) : Traced app.calls app'.loopAt encoded placements :=
    hinv.onward (fun _ _ hk => hloops.keeps hno hk) (fun _ _ hk => hloops.completions hk)
  cases hq : ApplicationClient.quiet a with
  | true =>
    cases ApplicationClient.step_quiet hq h with
    | stepped k a t t' ht hstep =>
      simpa [ApplicationAct.begun, placed] using honward fun n => by simp
    | died k t ht hended => simpa [ApplicationAct.begun, placed] using honward fun n => by simp
    | notConnected e hrpc =>
      have hnext := (honward fun n => by simp).begin (Or.inr ⟨_, rfl, .notConnected e⟩)
      simpa [ApplicationAct.begun, placed] using hnext
    | notEncoded k hrpc =>
      have hnext := (honward fun n => by simp).begin (e := none) (Or.inr ⟨_, rfl, .notEncoded⟩)
      simpa [ApplicationAct.begun, placed] using hnext
    | begun k internal hrpc =>
      have hnext := (honward fun n => by simp).begin (Or.inl ⟨k, internal, rfl, rfl⟩)
      simpa [ApplicationAct.begun, placed] using hnext
    | refused n k internal t hcall ht hended =>
      have hn := (List.getElem?_eq_some_iff.mp hcall).1
      have hplaced : placed app { app with calls := app.calls.set n .panicked } (.sendCall n) = [] := by
        simp [placed, hn]
      rw [hplaced, hbegun, List.append_nil, List.append_nil]
      exact hinv.set n .panicked (Or.inl rfl)
    | queued n k internal t loop loop' hcall ht hended hphase hloop =>
      have hn := (List.getElem?_eq_some_iff.mp hcall).1
      have hat : app.loopAt k = some loop := by
        rw [ApplicationClient.loopAt_of_getElem? ht, ApplicationClient.loop_of_phase hphase]
      have hset := ApplicationClient.loopAt_set ht
        { t with client := { t.client with phase := .rpc loop' } } (app.calls.set n (.awaiting k loop.issued.length))
      have hplaced : placed app { app with
          tasks := app.tasks.set k { t with client := { t.client with phase := .rpc loop' } }
          calls := app.calls.set n (.awaiting k loop.issued.length) } (.sendCall n) =
            [⟨n, k, loop.issued.length, internal⟩] := by
        rw [placed, hcall, List.getElem?_set_self hn]
      rw [hset, hplaced, hbegun, List.append_nil]
      have hcases := ClientLoop.call_cases hloop
      exact hinv.place hcall hat (congrArg ClientLoop.issued hcases) (by rw [hcases])
    | answered n k call t completion hcall ht hcompletion =>
      obtain ⟨loop, hloop, hfound⟩ := Option.bind_eq_some_iff.mp hcompletion
      obtain ⟨x, hx, rfl⟩ := Option.map_eq_some_iff.mp hfound
      have hxcall : x.1 = call := by simpa using List.find?_some hx
      have hat : app.loopAt k = some loop := (ApplicationClient.loopAt_of_getElem? ht).trans hloop
      have hmem : (call, x.2) ∈ loop.completions := hxcall ▸ List.mem_of_find?_eq_some hx
      have hnext := (honward fun n => by simp).set n (.returned x.2.result)
        (Or.inr (Or.inr ⟨k, call, loop, x.2, hcall, hat, hmem, rfl⟩))
      simpa [ApplicationAct.begun, placed] using hnext
    | lost n k call t hcall ht hnone hended =>
      have hnext := (honward fun n => by simp).set n .panicked (Or.inl rfl)
      simpa [ApplicationAct.begun, placed] using hnext
    | cancelled n phase hcall hfinished =>
      have hnext := (honward fun n => by simp).set n .cancelled (Or.inr (Or.inl rfl))
      simpa [ApplicationAct.begun, placed] using hnext
  | false =>
    have hop := ApplicationClient.step_operation hq h
    have hcalls := hop.managed.calls
    have hnext := honward fun n hn => by
      subst hn
      cases hq
    have hnone : a.begun = [] ∧ placed app app' a = [] := by
      cases hop <;> exact ⟨rfl, rfl⟩
    rw [hcalls, hnone.1, hnone.2, List.append_nil, List.append_nil]
    exact hnext

theorem step_traced {w w' : World S} {a : WorldAct}
    (hinv : Traced w.app.calls w.app.loopAt w.encoded w.placements) (h : w.step d a = some w') :
    Traced w'.app.calls w'.app.loopAt w'.encoded w'.placements := by
  rcases step_app h with ⟨happ, hencoded, hplacements⟩ | ⟨b, happ, hencoded, hplacements⟩
  · rw [happ, hencoded, hplacements]
    exact hinv
  · rw [hencoded, hplacements]
    exact traced_app hinv happ

theorem traced_of_run {as : List WorldAct} {w : World S} (h : run (step d) (init S) as = some w) :
    Traced w.app.calls w.app.loopAt w.encoded w.placements :=
  run_invariant (P := fun _ => True)
    (I := fun w : World S => Traced w.app.calls w.app.loopAt w.encoded w.placements)
    (fun _ _ _ _ hinv hs => step_traced hinv hs) (fun _ _ => trivial) Traced.init h

/-! ## The property -/

/-- The handler tasks that were started for call `n` of the application, on all connections. -/
def executions (w : World S) (n : Nat) : List Request :=
  (w.placements.filter fun p => p.call == n).flatMap fun p =>
    (w.servers p.connection).accepted.filter fun q => q.call == p.number

/-- **At most one handler runs for a call**, over all connections, and the call returns its result. -/
structure Attributed (w : World S) : Prop where
  /-- A handler runs for a call of the application, with the bytes of the call. -/
  own : ∀ k, ∀ q ∈ (w.servers k).accepted, ∃ n, q ∈ w.executions n ∧ w.encoded[n]? = some (some q.internal)
  once : ∀ n, (w.executions n).length ≤ 1
  /-- A call that returns has the result of its handler, which was run, or an error and none was run. -/
  returned : ∀ (n : Nat) result, w.app.calls[n]? = some (.returned result) →
    (∃ k conn q, (w.servers k).conn? = some conn ∧ w.executions n = [q] ∧
      w.encoded[n]? = some (some q.internal) ∧ q.respond result ∈ conn.responded) ∨
    (w.executions n = [] ∧ ∃ e, result = .error e)

theorem length_filter_le_one {α : Type} {l : List α} {key : α → Nat} (h : (l.map key).Nodup) (n : Nat) :
    (l.filter fun x => key x == n).length ≤ 1 := by
  have hcount := List.nodup_iff_count_le_one.mp h n
  rwa [List.count_eq_countP, List.countP_map, List.countP_eq_length_filter] at hcount

theorem executions_eq_nil {w : World S} {n : Nat} (h : n ∉ w.placements.map Placement.call) :
    w.executions n = [] := by
  have hnone : (w.placements.filter fun p => p.call == n) = [] := by
    rw [List.filter_eq_nil_iff]
    intro p hp hcall
    exact h (List.mem_map.mpr ⟨p, hp, by simpa using hcall⟩)
  rw [executions, hnone]
  rfl

/-- The executions of a call that was put on a connection. -/
theorem executions_of_placed {w : World S} (hinv : Traced w.app.calls w.app.loopAt w.encoded w.placements)
    {p : Placement} (hp : p ∈ w.placements) :
    w.executions p.call = (w.servers p.connection).accepted.filter fun q => q.call == p.number := by
  have hone := length_filter_le_one hinv.call_once p.call
  have hmem : p ∈ w.placements.filter fun x => x.call == p.call := by simp [hp]
  obtain ⟨x, hx⟩ := List.length_eq_one_iff.mp (Nat.le_antisymm hone (List.length_pos_of_mem hmem))
  rw [hx, List.mem_singleton] at hmem
  rw [executions, hx, ← hmem, List.flatMap_singleton]

theorem accepted_nodup {w : World S} (hinv : Composed d w) (k : Nat) :
    ((w.servers k).accepted.map Request.call).Nodup := by
  unfold ServerTask.accepted
  split
  next compression conn hphase =>
    obtain ⟨-, as, hrun⟩ := (hinv.linked k).session compression conn hphase
    exact (Session.orderly_of_run hrun).paired.invoked_once
  next => exact List.nodup_nil

theorem conn_of_accepted {server : ServerTask} {q : Request} (h : q ∈ server.accepted) :
    ∃ compression conn, server.phase = .rpc compression conn ∧ q ∈ conn.accepted := by
  unfold ServerTask.accepted at h
  split at h
  next compression conn hphase => exact ⟨compression, conn, hphase, h⟩
  next => cases h

/-- The calls of a session's loop are calls of the application. -/
theorem placement_of_accepted {w : World S} (hcomposed : Composed d w)
    (htraced : Traced w.app.calls w.app.loopAt w.encoded w.placements) {k : Nat} {q : Request}
    (hq : q ∈ (w.servers k).accepted) :
    ∃ p ∈ w.placements, p.connection = k ∧ p.number = q.call ∧ p.internal = q.internal := by
  obtain ⟨compression, conn, hphase, hq⟩ := conn_of_accepted hq
  obtain ⟨-, as, hrun⟩ := (hcomposed.linked k).session compression conn hphase
  have hissued := (Session.orderly_of_run hrun).paired.invoked_own q hq
  cases hloop : w.app.loopAt k with
  | none =>
    rw [hloop] at hissued
    cases hissued
  | some loop =>
    rw [hloop] at hissued
    exact (htraced.issued k loop hloop q.call q.internal).mp hissued

theorem execution_of_output {w : World S} (hcomposed : Composed d w)
    (htraced : Traced w.app.calls w.app.loopAt w.encoded w.placements) {p : Placement} (hp : p ∈ w.placements)
    {loop : ClientLoop S} {output : HandlerResult Bytes} (hloop : w.app.loopAt p.connection = some loop)
    (hmem : (p.number, Completion.output output) ∈ loop.completions) :
    ∃ k conn q, (w.servers k).conn? = some conn ∧ w.executions p.call = [q] ∧
      w.encoded[p.call]? = some (some q.internal) ∧ q.respond output ∈ conn.responded := by
  have hlinked := hcomposed.linked p.connection
  rw [hloop] at hlinked
  obtain ⟨conn, hconn⟩ := Option.isSome_iff_exists.mp (hlinked.entered rfl).2
  obtain ⟨compression, hphase⟩ := phase_of_conn hconn
  obtain ⟨-, as, hrun⟩ := hlinked.session compression conn hphase
  have hpaired := (Session.orderly_of_run hrun).paired
  obtain ⟨q, hq, hcall, hresponded⟩ := hpaired.output_own p.number output hmem
  have haccepted : (w.servers p.connection).accepted = conn.accepted := by rw [ServerTask.accepted, hphase]
  have hexec := executions_of_placed htraced hp
  have hqmem : q ∈ w.executions p.call := by
    rw [hexec, haccepted, List.mem_filter]
    exact ⟨hq, by simp [hcall]⟩
  have hone := length_filter_le_one (accepted_nodup hcomposed p.connection) p.number
  rw [← hexec] at hone
  obtain ⟨x, hx⟩ := List.length_eq_one_iff.mp (Nat.le_antisymm hone (List.length_pos_of_mem hqmem))
  rw [hx, List.mem_singleton] at hqmem
  subst hqmem
  -- the request has the bytes of the call
  have hsent := hpaired.invoked_own q hq
  rw [hcall] at hsent
  have hplaced := (htraced.issued _ loop hloop p.number p.internal).mpr ⟨p, hp, rfl, rfl, rfl⟩
  have hinternal : q.internal = p.internal := Option.some.inj (hsent.symm.trans hplaced)
  exact ⟨p.connection, conn, q, hconn, hx, by rw [htraced.own p hp, hinternal], hresponded⟩

/-- A request that failed at the client never reaches a handler. -/
theorem executions_of_failed {w : World S} (hcomposed : Composed d w)
    (htraced : Traced w.app.calls w.app.loopAt w.encoded w.placements) {p : Placement} (hp : p ∈ w.placements)
    {loop : ClientLoop S} {error : RpcHandlerError} (hloop : w.app.loopAt p.connection = some loop)
    (hmem : (p.number, Completion.failed error) ∈ loop.completions) : w.executions p.call = [] := by
  rw [executions_of_placed htraced hp, List.filter_eq_nil_iff]
  intro q hq hcall
  obtain ⟨compression, conn, hphase, hq⟩ := conn_of_accepted hq
  have hlinked := hcomposed.linked p.connection
  rw [hloop] at hlinked
  obtain ⟨-, as, hrun⟩ := hlinked.session compression conn hphase
  have hfailed := (Session.orderly_of_run hrun).fifo.failed p.number error hmem
  exact hfailed.1 (List.mem_map.mpr ⟨q, hq, by simpa using hcall⟩)

theorem attributed_of_inv {w : World S} (hcomposed : Composed d w)
    (htraced : Traced w.app.calls w.app.loopAt w.encoded w.placements) : Attributed w where
  own k q hq := by
    obtain ⟨p, hp, rfl, hnumber, hinternal⟩ := placement_of_accepted hcomposed htraced hq
    refine ⟨p.call, ?_, by rw [htraced.own p hp, hinternal]⟩
    rw [executions_of_placed htraced hp, List.mem_filter]
    exact ⟨hq, by simp [hnumber]⟩
  once n := by
    by_cases hn : n ∈ w.placements.map Placement.call
    · obtain ⟨p, hp, rfl⟩ := List.mem_map.mp hn
      rw [executions_of_placed htraced hp]
      exact length_filter_le_one (accepted_nodup hcomposed p.connection) p.number
    · rw [executions_eq_nil hn]
      exact Nat.zero_le 1
  returned n result hn := by
    rcases htraced.returned n result hn with ⟨hfree, e, -, hun⟩ | ⟨p, hp, rfl, loop, completion, hloop, hmem, rfl⟩
    · refine Or.inr ⟨executions_eq_nil hfree, ?_⟩
      cases hun with
      | notConnected => exact ⟨_, rfl⟩
      | notEncoded => exact ⟨_, rfl⟩
    · cases completion with
      | failed error => exact Or.inr ⟨executions_of_failed hcomposed htraced hp hloop hmem, error, rfl⟩
      | output output => exact Or.inl (execution_of_output hcomposed htraced hp hloop hmem)

/-- **At most one handler runs for a call of an application**, in every run with its server: over all the
connections it makes, whatever is lost, cancelled, dropped or given up. -/
theorem attributed_of_run {as : List WorldAct} {w : World S} (h : run (step d) (init S) as = some w) :
    Attributed w :=
  attributed_of_inv (composed_of_run h) (traced_of_run h)

/-! ## Two connections -/

/-- A call and its answer on connection `k`. -/
def callOn (n k : Nat) (internal output : Bytes) : List WorldAct :=
  [.app (.makeRpcCall (some internal)), .app (.sendCall n), .loop k .takeRequest, .loop k (.send .sent),
    .loop k .fillSlot, .server k (.conn .pollNext), .server k (.conn .pollNext), .server k (.conn .pollNext),
    .server k (.conn .pollNext), .server k (.conn (.clientMessage true)),
    .server k (.conn (.handlerReturns 0 (.ok output))), .server k (.conn .response),
    .server k (.conn (.sendDone true)), .receive k true, .app (.pollCall n)]

/-- A call on the first connection, and one on the second. -/
def reconnectRun : List WorldAct :=
  connectRun ++ callOn 0 0 [1] [10] ++
    [.app .disconnect, .app .connect, .server 1 (.tlsAccept true), .server 1 (.upgrade (sampleDeployment.request 1)),
      .response 1 true, .app .connected] ++ callOn 1 1 [2] [20]

theorem attributed_reconnectRun :
    ∃ w, run (step sampleDeployment) (init counterState.toStateStruct) reconnectRun = some w ∧
      (w.executions 0).map Request.internal = [[1]] ∧ (w.executions 1).map Request.internal = [[2]] ∧
      Attributed w := by
  have hrun : (run (step sampleDeployment) (init counterState.toStateStruct) reconnectRun).map (fun w =>
      ((w.executions 0).map Request.internal, (w.executions 1).map Request.internal)) = some ([[1]], [[2]]) := rfl
  obtain ⟨w, hw, hexec⟩ := Option.map_eq_some_iff.mp hrun
  rw [Prod.mk.injEq] at hexec
  exact ⟨w, hw, hexec.1, hexec.2, attributed_of_run hw⟩

end World

end HardLight
