import HardLight.Server.Switch
import Mathlib.Data.List.Infix

/-!
# Topic notifications and the switch's map

`after is` is the switch after the inputs `is`, in the order in which `EventSwitch::run` takes them.

* `TopicsMirror` : the notifications of every topic alternate from `Created`, the last one is `Created`
  exactly when the topic has a subscriber, and no topic is kept with an empty subscriber set;
* `Safe` : the input is not an event on a topic all of whose subscribers have dropped their receivers;
* `take_mirror` : a safe input keeps `TopicsMirror`; `not_mirror_of_not_safe` : an unsafe one breaks it;
* `topicsMirror_iff` : the notifications mirror the map all along a sequence of inputs exactly when every
  input of it is safe.
-/

namespace HardLight
open Lib

namespace EventSwitch
variable {χ : Type}

/-- What `run` takes from its two channels. `failed` says which sends of the event find their receiver
dropped. -/
inductive Input (χ : Type)
  | event (event : Event) (failed : SubscriptionID → χ → Bool)
  | notification (n : SubscriptionNotification χ)

def take (sw : EventSwitch χ) : Input χ → EventSwitch χ
  | .event event failed => (sw.onEvent failed event).1
  | .notification n => sw.onNotification n

def after (is : List (Input χ)) : EventSwitch χ := is.foldl take new

theorem after_concat (is : List (Input χ)) (i : Input χ) : after (is ++ [i]) = (after is).take i := by
  simp [after, List.foldl_append]

/-- The id a `Subscribe` brings. -/
def Input.newId? : Input χ → Option SubscriptionID
  | .notification (.subscribe _ id _) => some id
  | _ => none

def newIds (is : List (Input χ)) : List SubscriptionID := is.filterMap Input.newId?

/-! ## The property -/

/-- The notifications of `t` so far, `true` for `Created`. -/
def history (ns : List TopicNotification) (t : Topic) : List Bool :=
  (ns.filter fun n => n.topic = t).map TopicNotification.isCreated

theorem history_concat (ns : List TopicNotification) (n : TopicNotification) (t : Topic) :
    history (ns ++ [n]) t = if n.topic = t then history ns t ++ [n.isCreated] else history ns t := by
  unfold history
  rw [List.filter_append, List.map_append]
  split
  next h => simp [h]
  next h => simp [h]

/-- `true, false, true, ...` -/
def Alternates (l : List Bool) : Prop := ∀ i b, l[i]? = some b → (b = true ↔ i % 2 = 0)

theorem alternates_nil : Alternates [] := fun i b h => by simp at h

theorem alternates_concat {l : List Bool} {b : Bool} (h : Alternates l) (hb : b = true ↔ l.length % 2 = 0) :
    Alternates (l ++ [b]) := by
  intro i c hc
  rcases Nat.lt_trichotomy i l.length with hi | rfl | hi
  · rw [List.getElem?_append_left hi] at hc
    exact h i c hc
  · rw [List.getElem?_concat_length] at hc
    exact Option.some.inj hc ▸ hb
  · rw [List.getElem?_eq_none (by simp; omega)] at hc
    cases hc

/-- In an alternating history the last notification is `Created` when the number of them is odd. -/
theorem Alternates.getLast?_iff {l : List Bool} (h : Alternates l) :
    l.getLast? = some true ↔ l.length % 2 = 1 := by
  rw [List.getLast?_eq_getElem?]
  cases hl : l[l.length - 1]? with
  | none =>
    have hlen := List.getElem?_eq_none_iff.mp hl
    simp only [reduceCtorEq, false_iff]
    omega
  | some b =>
    have hlen := (List.getElem?_eq_some_iff.mp hl).1
    rw [Option.some.injEq, h _ b hl]
    omega

/-- Some connection is subscribed to `t`. -/
def Subscribed (sw : EventSwitch χ) (t : Topic) : Prop := ∃ id c, sw.find t id = some c

/-- **The topic notifications mirror the map.** -/
structure TopicsMirror (sw : EventSwitch χ) : Prop where
  alternates : ∀ t, Alternates (history sw.topicNotifs t)
  last_created_iff : ∀ t, (history sw.topicNotifs t).getLast? = some true ↔ sw.Subscribed t
  no_empty : ∀ t subs, sw.subscriptions.lookup t = some subs → HashMap.isEmpty subs = false

/-- An event whose topic has subscribers finds at least one of their receivers alive. -/
def Safe (sw : EventSwitch χ) : Input χ → Prop
  | .event event failed => sw.Subscribed event.topic →
      ∃ id c, sw.find event.topic id = some c ∧ failed id c = false
  | .notification _ => True

theorem TopicsMirror.subscribed_of_lookup {sw : EventSwitch χ} (h : TopicsMirror sw) {t : Topic}
    {subs : HashMap SubscriptionID χ} (hl : sw.subscriptions.lookup t = some subs) : sw.Subscribed t := by
  by_contra hno
  have hempty : HashMap.isEmpty subs = true := by
    rw [HashMap.isEmpty_iff]
    intro id
    cases hid : subs.lookup id with
    | none => rfl
    | some c => exact absurd ⟨id, c, (find_of_lookup hl id).trans hid⟩ hno
  rw [h.no_empty t subs hl] at hempty
  cases hempty

theorem topicsMirror_new : TopicsMirror (new : EventSwitch χ) where
  alternates _ := alternates_nil
  last_created_iff t := by simp [new, history, Subscribed, find]
  no_empty t subs h := by simp [new] at h

/-! ## One input -/

/-- A notification about `t` that agrees with the map after it extends an alternating history. -/
theorem mirror_concat {sw sw' : EventSwitch χ} (h : TopicsMirror sw) (n : TopicNotification)
    (hsent : sw'.topicNotifs = sw.topicNotifs ++ [n])
    (hother : ∀ t, t ≠ n.topic → (sw'.Subscribed t ↔ sw.Subscribed t))
    (hbefore : n.isCreated = true ↔ ¬ sw.Subscribed n.topic)
    (hafter : n.isCreated = true ↔ sw'.Subscribed n.topic)
    (hempty : ∀ t subs, sw'.subscriptions.lookup t = some subs → HashMap.isEmpty subs = false) :
    TopicsMirror sw' where
  alternates t := by
    rw [hsent, history_concat]
    split
    next ht =>
      subst ht
      refine alternates_concat (h.alternates _) ?_
      rw [hbefore, ← h.last_created_iff, (h.alternates _).getLast?_iff]
      omega
    next => exact h.alternates t
  last_created_iff t := by
    rw [hsent, history_concat]
    split
    next ht =>
      subst ht
      rw [List.getLast?_concat, Option.some.injEq, hafter]
    next ht => rw [h.last_created_iff, hother t (fun he => ht he.symm)]
  no_empty := hempty

theorem mirror_same {sw sw' : EventSwitch χ} (h : TopicsMirror sw)
    (hsent : sw'.topicNotifs = sw.topicNotifs) (hsub : ∀ t, sw'.Subscribed t ↔ sw.Subscribed t)
    (hempty : ∀ t subs, sw'.subscriptions.lookup t = some subs → HashMap.isEmpty subs = false) :
    TopicsMirror sw' where
  alternates t := by rw [hsent]; exact h.alternates t
  last_created_iff t := by rw [hsent, h.last_created_iff, hsub]
  no_empty := hempty

theorem isEmpty_false_of_lookup {subs : HashMap SubscriptionID χ} {id : SubscriptionID} {c : χ}
    (h : subs.lookup id = some c) : HashMap.isEmpty subs = false := by
  cases he : HashMap.isEmpty subs with
  | false => rfl
  | true => rw [HashMap.isEmpty_iff.mp he id] at h; cases h

theorem subscribed_subscribe (sw : EventSwitch χ) (t : Topic) (id : SubscriptionID) (tx : χ) (t' : Topic) :
    (sw.onNotification (.subscribe t id tx)).Subscribed t' ↔ t' = t ∨ sw.Subscribed t' := by
  constructor
  · rintro ⟨id', c, hf⟩
    rw [find_subscribe] at hf
    split at hf
    next h => exact Or.inl h.1
    next => exact Or.inr ⟨id', c, hf⟩
  · rintro (rfl | ⟨id', c, hf⟩)
    · exact ⟨id, tx, by simp [find_subscribe]⟩
    · by_cases hid : t' = t ∧ id' = id
      · exact ⟨id', tx, by simp [find_subscribe, hid]⟩
      · exact ⟨id', c, by simp [find_subscribe, hid, hf]⟩

theorem subscribe_mirror {sw : EventSwitch χ} (h : TopicsMirror sw) (t : Topic) (id : SubscriptionID)
    (tx : χ) (hfresh : sw.find t id = none) : TopicsMirror (sw.onNotification (.subscribe t id tx)) := by
  have hempty : ∀ t' subs, (sw.onNotification (.subscribe t id tx)).subscriptions.lookup t' = some subs →
      HashMap.isEmpty subs = false := by
    intro t' subs hl
    simp only [onNotification, HashMap.lookup_insert_if] at hl
    split at hl
    next =>
      rw [← Option.some.inj hl]
      exact isEmpty_false_of_lookup (AList.lookup_insert _)
    next => exact h.no_empty t' subs hl
  have hlen : HashMap.len (((sw.subscriptions.lookup t).getD ∅).insert id tx) = 1 ↔ ¬ sw.Subscribed t := by
    rw [HashMap.len_insert_of_fresh ((getD_lookup sw t id).trans hfresh), Nat.add_eq_right,
      HashMap.len_eq_zero_iff]
    simp only [getD_lookup, Subscribed, not_exists, Option.eq_none_iff_forall_ne_some, ne_eq]
  by_cases hsub : sw.Subscribed t
  · refine mirror_same h ?_ ?_ hempty
    · simp only [onNotification]
      rw [if_neg (fun h1 => hlen.mp h1 hsub)]
    · intro t'
      rw [subscribed_subscribe]
      exact ⟨fun h' => h'.elim (fun he => he ▸ hsub) (fun hs => hs), Or.inr⟩
  · refine mirror_concat h (.created t) ?_ ?_ ?_ ?_ hempty
    · simp only [onNotification]
      rw [if_pos (hlen.mpr hsub)]
    · intro t' ht'
      rw [subscribed_subscribe]
      exact ⟨fun h' => h'.resolve_left ht', Or.inr⟩
    · simpa [TopicNotification.isCreated, TopicNotification.topic] using hsub
    · simp [TopicNotification.isCreated, TopicNotification.topic, subscribed_subscribe]

theorem unsubscribe_mirror {sw : EventSwitch χ} (h : TopicsMirror sw) (t : Topic) (id : SubscriptionID) :
    TopicsMirror (sw.onNotification (.unsubscribe t id)) := by
  have hfind := find_unsubscribe sw t id
  cases hl : sw.subscriptions.lookup t with
  | none =>
    have hsame : sw.onNotification (.unsubscribe t id) = sw := by simp only [onNotification, hl]
    rw [hsame]
    exact h
  | some subs =>
    have hother : ∀ t', t' ≠ t →
        ((sw.onNotification (.unsubscribe t id)).Subscribed t' ↔ sw.Subscribed t') := by
      intro t' ht'
      simp only [Subscribed, hfind, ht', false_and, if_false]
    have hsub : sw.Subscribed t := h.subscribed_of_lookup hl
    cases he : HashMap.isEmpty (subs.erase id) with
    | true =>
      have hnone := HashMap.isEmpty_iff.mp he
      refine mirror_concat h (.removed t) ?_ hother ?_ ?_ ?_
      · simp only [onNotification, hl, he, if_true]
      · simpa [TopicNotification.isCreated, TopicNotification.topic] using hsub
      · simp only [TopicNotification.isCreated, TopicNotification.topic, Bool.false_eq_true, false_iff]
        rintro ⟨id', c, hf⟩
        have hgone := hnone id'
        rw [HashMap.lookup_erase_if] at hgone
        rw [hfind, find_of_lookup hl] at hf
        simp only [true_and, hgone, reduceCtorEq] at hf
      · intro t' subs' hl'
        simp only [onNotification, hl, he, if_true, HashMap.lookup_erase_if] at hl'
        split at hl'
        · cases hl'
        · exact h.no_empty t' subs' hl'
    | false =>
      refine mirror_same h ?_ ?_ ?_
      · simp only [onNotification, hl, he, Bool.false_eq_true, if_false]
      · intro t'
        by_cases ht' : t' = t
        · subst ht'
          refine iff_of_true ?_ hsub
          by_contra hno
          refine absurd (HashMap.isEmpty_iff.mpr fun id' => ?_) (by rw [he]; simp)
          cases hc : (subs.erase id).lookup id' with
          | none => rfl
          | some c =>
            refine absurd ⟨id', c, ?_⟩ hno
            rw [hfind, find_of_lookup hl]
            rw [HashMap.lookup_erase_if] at hc
            simpa using hc
        · exact hother t' ht'
      · intro t' subs' hl'
        simp only [onNotification, hl, he, Bool.false_eq_true, if_false, HashMap.lookup_insert_if] at hl'
        split at hl'
        · rw [← Option.some.inj hl', he]
        · exact h.no_empty t' subs' hl'

theorem event_mirror {sw : EventSwitch χ} (h : TopicsMirror sw) (e : Event)
    (failed : SubscriptionID → χ → Bool) (hsafe : sw.Safe (.event e failed)) :
    TopicsMirror (sw.onEvent failed e).1 := by
  have hsub : ∀ t, (sw.onEvent failed e).1.Subscribed t ↔ sw.Subscribed t := by
    intro t
    simp only [Subscribed, find_onEvent]
    constructor
    · rintro ⟨id, c, hf, -⟩
      exact ⟨id, c, hf⟩
    · rintro ⟨id, c, hf⟩
      by_cases ht : t = e.topic
      · subst ht
        obtain ⟨id', c', hf', hlive⟩ := hsafe ⟨id, c, hf⟩
        exact ⟨id', c', hf', by simp [hlive]⟩
      · exact ⟨id, c, hf, fun hc => ht hc.1⟩
  refine mirror_same h (topicNotifs_onEvent failed sw e) hsub ?_
  intro t subs hl
  -- an entry is kept only if it was there before, so it is not empty after a safe event either
  have hkept : (sw.onEvent failed e).1.Subscribed t := by
    rw [hsub]
    cases hl' : sw.subscriptions.lookup t with
    | some subs' => exact h.subscribed_of_lookup hl'
    | none =>
      have hnone : (sw.onEvent failed e).1.subscriptions.lookup t = none := by
        unfold onEvent
        split
        next subs' he =>
          have hne : t ≠ e.topic := fun heq => by rw [heq, he] at hl'; cases hl'
          rw [HashMap.lookup_insert_if, if_neg hne, hl']
        next => exact hl'
      rw [hnone] at hl
      cases hl
  obtain ⟨id, c, hf⟩ := hkept
  exact isEmpty_false_of_lookup ((find_of_lookup hl id).symm.trans hf)

/-- **A safe input keeps the mirror**, a `Subscribe` under an id not in the map. -/
theorem take_mirror {sw : EventSwitch χ} (h : TopicsMirror sw) (i : Input χ) (hsafe : sw.Safe i)
    (hfresh : ∀ id, i.newId? = some id → ∀ t, sw.find t id = none) : TopicsMirror (sw.take i) := by
  cases i with
  | event e failed => exact event_mirror h e failed hsafe
  | notification n =>
    cases n with
    | subscribe t id tx => exact subscribe_mirror h t id tx (hfresh id rfl t)
    | unsubscribe t id => exact unsubscribe_mirror h t id

/-- The event branch removes the last subscriber of a topic without removing the topic. -/
theorem not_mirror_of_not_safe {sw : EventSwitch χ} (i : Input χ) (hsafe : ¬ sw.Safe i) :
    ¬ TopicsMirror (sw.take i) := by
  intro h
  cases i with
  | notification n => exact hsafe trivial
  | event e failed =>
    simp only [Safe, not_forall, not_exists, not_and] at hsafe
    obtain ⟨⟨id, c, hf⟩, hdead⟩ := hsafe
    obtain ⟨subs, hl⟩ : ∃ subs, sw.subscriptions.lookup e.topic = some subs := by
      cases hl : sw.subscriptions.lookup e.topic with
      | some subs => exact ⟨subs, rfl⟩
      | none => rw [find_of_lookup_none hl] at hf; cases hf
    have hkey : ∃ subs', (sw.onEvent failed e).1.subscriptions.lookup e.topic = some subs' := by
      simp only [onEvent, hl]
      exact ⟨_, AList.lookup_insert _⟩
    obtain ⟨subs', hl'⟩ := hkey
    obtain ⟨id', c', hf'⟩ := h.subscribed_of_lookup hl'
    obtain ⟨hf'', hkept⟩ := (find_onEvent failed sw e e.topic id' c').mp hf'
    exact hdead id' c' hf'' (by simpa using hkept)

/-! ## A whole sequence of inputs -/

theorem mem_newIds_of_find (is : List (Input χ)) (t : Topic) (id : SubscriptionID) (c : χ)
    (h : (after is).find t id = some c) : id ∈ newIds is := by
  induction is using List.reverseRecOn with
  | nil => simp [after] at h
  | append_singleton is i ih =>
    rw [after_concat] at h
    rw [newIds, List.filterMap_append, List.mem_append]
    cases i with
    | event e failed => exact Or.inl (ih ((find_onEvent failed _ e t id c).mp h).1)
    | notification n =>
      rcases find_onNotification h with hf | rfl
      · exact Or.inl (ih hf)
      · exact Or.inr (by simp [Input.newId?])

/-- **Topic notifications mirror the switch exactly when no event finds all the receivers of its topic
dropped.** -/
theorem topicsMirror_iff (is : List (Input χ)) (hids : (newIds is).Nodup) :
    (∀ is', is' <+: is → TopicsMirror (after is')) ↔
      ∀ is' i, is' ++ [i] <+: is → (after is').Safe i := by
  constructor
  · intro h is' i hpre
    by_contra hsafe
    have hmirror := h _ hpre
    rw [after_concat] at hmirror
    exact not_mirror_of_not_safe i hsafe hmirror
  · intro h is' hpre
    induction is' using List.reverseRecOn with
    | nil => exact topicsMirror_new
    | append_singleton is' i ih =>
      have hpre' : is' <+: is := (List.prefix_append is' [i]).trans hpre
      rw [after_concat]
      refine take_mirror (ih hpre') i (h is' i hpre) fun id hid t => ?_
      -- the ids are pairwise distinct, so this one has not been seen before
      obtain ⟨rest, hrest⟩ := hpre
      have hnd : (newIds is' ++ newIds ([i] ++ rest)).Nodup := by
        rw [newIds, newIds, ← List.filterMap_append, ← List.append_assoc, hrest]
        exact hids
      cases hf : (after is').find t id with
      | none => rfl
      | some c =>
        have hmem := mem_newIds_of_find is' t id c hf
        have hmem' : id ∈ newIds ([i] ++ rest) := by
          simp [newIds, hid]
        exact absurd rfl ((List.nodup_append.mp hnd).2.2 id hmem id hmem')

/-! ## Where the notifications go wrong -/

/-- Connection 0 subscribes and drops its receiver, the switch prunes it while routing an event, and
connection 1 subscribes. -/
def prunedInputs : List (Input Nat) :=
  [.notification (.subscribe ⟨[116], true⟩ (Vector.replicate 16 0) 0),
    .event ⟨⟨[116], true⟩, []⟩ (fun _ c => c == 0),
    .notification (.subscribe ⟨[116], true⟩ (Vector.replicate 16 1) 1)]

theorem topicsMirror_iff_prunedInputs : (newIds prunedInputs).Nodup ∧
    ((∀ is', is' <+: prunedInputs → TopicsMirror (after is')) ↔
      ∀ is' i, is' ++ [i] <+: prunedInputs → (after is').Safe i) :=
  ⟨by decide, topicsMirror_iff prunedInputs (by decide)⟩

/-- `Created` is sent twice in a row for one topic. -/
theorem created_twice_in_a_row :
    ¬ ∀ is : List (Input Nat), (newIds is).Nodup → TopicsMirror (after is) := by
  intro h
  have hmirror := h prunedInputs (by decide)
  have hhist : history (after prunedInputs).topicNotifs ⟨[116], true⟩ = [true, true] := by decide
  have hsecond := hmirror.alternates ⟨[116], true⟩ 1 true (by rw [hhist]; rfl)
  simp at hsecond

end EventSwitch

end HardLight
