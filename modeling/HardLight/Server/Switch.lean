import HardLight.Wire
import HardLight.Lib.Assoc

/-!
# The event switch

`EventSwitch::run` is a loop over two inputs: an event to route (`onEvent`) and a subscription
notification (`onNotification`). A sender of a connection's event channel is its handle, of type `χ`;
whether a send to it fails is up to the environment, which is the argument `failed` of `onEvent`.

* `find` : the sender subscribed to a topic under an id;
* `find_subscribe`, `find_unsubscribe`, `find_onEvent` : what each input does to every entry;
* `find_onNotification` : where an entry comes from;
* `count_delivered` : how often an event goes to one sender.
-/

namespace HardLight
open Lib

/-- Sent by the connection loops to the event switch. -/
inductive SubscriptionNotification (χ : Type)
  | subscribe (topic : Topic) (id : SubscriptionID) (tx : χ)
  | unsubscribe (topic : Topic) (id : SubscriptionID)

namespace SubscriptionNotification
variable {χ : Type}

def topic : SubscriptionNotification χ → Topic
  | subscribe topic _ _ => topic
  | unsubscribe topic _ => topic

def id : SubscriptionNotification χ → SubscriptionID
  | subscribe _ id _ => id
  | unsubscribe _ id => id

def isSubscribe : SubscriptionNotification χ → Bool
  | subscribe .. => true
  | unsubscribe .. => false

end SubscriptionNotification

/-- Sent by the event switch to the application. -/
inductive TopicNotification
  | created (topic : Topic)
  | removed (topic : Topic)
  deriving DecidableEq, Repr

namespace TopicNotification

def topic : TopicNotification → Topic
  | created topic => topic
  | removed topic => topic

def isCreated : TopicNotification → Bool
  | created _ => true
  | removed _ => false

end TopicNotification

/-- The switch's map, and what it has sent on `topic_notif_tx` so far. -/
structure EventSwitch (χ : Type) where
  subscriptions : HashMap Topic (HashMap SubscriptionID χ)
  topicNotifs : List TopicNotification

namespace EventSwitch
variable {χ : Type}

def new : EventSwitch χ := { subscriptions := ∅, topicNotifs := [] }

/-- The event branch: the new switch, and the senders that got the event. -/
def onEvent (failed : SubscriptionID → χ → Bool) (sw : EventSwitch χ) (event : Event) :
    EventSwitch χ × List χ :=
  match sw.subscriptions.lookup event.topic with
  | some subscribers =>
    let subsToRemove := (subscribers.entries.filter fun s => failed s.1 s.2).map Sigma.fst
    let sent := (subscribers.entries.filter fun s => !failed s.1 s.2).map Sigma.snd
    ({ sw with
        subscriptions := sw.subscriptions.insert event.topic (subscribers.eraseAll subsToRemove) },
      sent)
  | none => (sw, [])

/-- The subscription branch. -/
def onNotification (sw : EventSwitch χ) : SubscriptionNotification χ → EventSwitch χ
  | .subscribe topic id tx =>
    let subscribers := ((sw.subscriptions.lookup topic).getD ∅).insert id tx
    { subscriptions := sw.subscriptions.insert topic subscribers
      topicNotifs :=
        if HashMap.len subscribers = 1 then sw.topicNotifs ++ [.created topic] else sw.topicNotifs }
  | .unsubscribe topic id =>
    match sw.subscriptions.lookup topic with
    | some subscribers =>
      let subscribers := subscribers.erase id
      if HashMap.isEmpty subscribers then
        { subscriptions := sw.subscriptions.erase topic
          topicNotifs := sw.topicNotifs ++ [.removed topic] }
      else { sw with subscriptions := sw.subscriptions.insert topic subscribers }
    | none => sw

/-- The sender subscribed to `topic` under `id`. -/
def find (sw : EventSwitch χ) (topic : Topic) (id : SubscriptionID) : Option χ :=
  (sw.subscriptions.lookup topic).bind fun subscribers => subscribers.lookup id

@[simp] theorem find_new (t : Topic) (id : SubscriptionID) : (new : EventSwitch χ).find t id = none := by
  simp [find, new]

theorem find_of_lookup {sw : EventSwitch χ} {t : Topic} {subs : HashMap SubscriptionID χ}
    (h : sw.subscriptions.lookup t = some subs) (id : SubscriptionID) : sw.find t id = subs.lookup id := by
  rw [find, h, Option.bind_some]

theorem find_of_lookup_none {sw : EventSwitch χ} {t : Topic}
    (h : sw.subscriptions.lookup t = none) (id : SubscriptionID) : sw.find t id = none := by
  rw [find, h, Option.bind_none]

theorem getD_lookup (sw : EventSwitch χ) (t : Topic) (id : SubscriptionID) :
    ((sw.subscriptions.lookup t).getD ∅).lookup id = sw.find t id := by
  cases h : sw.subscriptions.lookup t with
  | none => rw [find_of_lookup_none h, Option.getD_none, AList.lookup_empty]
  | some subs => rw [find_of_lookup h, Option.getD_some]

theorem find_subscribe (sw : EventSwitch χ) (t : Topic) (id : SubscriptionID) (tx : χ) (t' : Topic)
    (id' : SubscriptionID) : (sw.onNotification (.subscribe t id tx)).find t' id' =
      if t' = t ∧ id' = id then some tx else sw.find t' id' := by
  by_cases ht : t' = t
  · subst ht
    rw [find_of_lookup (AList.lookup_insert _), HashMap.lookup_insert_if, getD_lookup]
    simp
  · simp only [find, onNotification, HashMap.lookup_insert_if, ht, false_and, if_false]

theorem find_unsubscribe (sw : EventSwitch χ) (t : Topic) (id : SubscriptionID) (t' : Topic)
    (id' : SubscriptionID) : (sw.onNotification (.unsubscribe t id)).find t' id' =
      if t' = t ∧ id' = id then none else sw.find t' id' := by
  simp only [onNotification]
  cases h : sw.subscriptions.lookup t with
  | none =>
    by_cases ht : t' = t
    · subst ht
      simp [find_of_lookup_none h]
    · simp [ht]
  | some subs =>
    have hfind := find_of_lookup h
    dsimp only
    split
    next hempty =>
      rw [HashMap.isEmpty_iff] at hempty
      by_cases ht : t' = t
      · subst ht
        have hnone := hempty id'
        rw [HashMap.lookup_erase_if] at hnone
        simp only [find, AList.lookup_erase, Option.bind_none, true_and]
        split
        next => rfl
        next hid => rw [if_neg hid] at hnone; rw [← find, hfind, hnone]
      · simp only [find, HashMap.lookup_erase_if, ht, false_and, if_false]
    next =>
      by_cases ht : t' = t
      · subst ht
        simp only [find, AList.lookup_insert, Option.bind_some, HashMap.lookup_erase_if, true_and, h]
      · simp only [find, HashMap.lookup_insert_if, ht, false_and, if_false]

theorem find_onNotification {sw : EventSwitch χ} {n : SubscriptionNotification χ} {t : Topic}
    {id : SubscriptionID} {c : χ} (h : (sw.onNotification n).find t id = some c) :
    sw.find t id = some c ∨ n = .subscribe t id c := by
  cases n with
  | subscribe t' id' tx =>
    rw [find_subscribe] at h
    split at h
    next heq =>
      obtain ⟨rfl, rfl⟩ := heq
      cases h
      exact Or.inr rfl
    next => exact Or.inl h
  | unsubscribe t' id' =>
    rw [find_unsubscribe] at h
    split at h
    next => cases h
    next => exact Or.inl h

/-- Routing an event only removes entries: those of its topic whose send failed. -/
theorem find_onEvent (failed : SubscriptionID → χ → Bool) (sw : EventSwitch χ) (e : Event) (t : Topic)
    (id : SubscriptionID) (c : χ) : (sw.onEvent failed e).1.find t id = some c ↔
      sw.find t id = some c ∧ ¬ (t = e.topic ∧ failed id c = true) := by
  unfold onEvent
  cases h : sw.subscriptions.lookup e.topic with
  | none =>
    dsimp only
    constructor
    · intro hf
      refine ⟨hf, ?_⟩
      rintro ⟨rfl, -⟩
      rw [find_of_lookup_none h] at hf
      cases hf
    · exact And.left
  | some subs =>
    dsimp only
    by_cases ht : t = e.topic
    · subst ht
      have hmem : id ∈ (subs.entries.filter fun s => failed s.1 s.2).map Sigma.fst ↔
          ∃ c, subs.lookup id = some c ∧ failed id c = true := by
        simp only [List.mem_map, List.mem_filter, Sigma.exists, HashMap.mem_entries_iff]
        constructor
        · rintro ⟨id', c', ⟨h1, h2⟩, rfl⟩
          exact ⟨c', h1, h2⟩
        · rintro ⟨c', h1, h2⟩
          exact ⟨id, c', ⟨h1, h2⟩, rfl⟩
      rw [find_of_lookup h, find_of_lookup (AList.lookup_insert _), HashMap.lookup_eraseAll]
      split
      next hin =>
        obtain ⟨c', h1, h2⟩ := hmem.mp hin
        simp only [reduceCtorEq, false_iff, not_and, not_not, true_and]
        rw [h1]
        rintro ⟨⟩
        exact h2
      next hout =>
        simp only [true_and]
        constructor
        · exact fun hc => ⟨hc, fun hfail => hout (hmem.mpr ⟨c, hc, hfail⟩)⟩
        · exact And.left
    · simp only [find, HashMap.lookup_insert_if, ht, false_and, if_false, not_false_eq_true, and_true]

@[simp] theorem topicNotifs_onEvent (failed : SubscriptionID → χ → Bool) (sw : EventSwitch χ) (e : Event) :
    (sw.onEvent failed e).1.topicNotifs = sw.topicNotifs := by
  unfold onEvent
  split <;> rfl

/-! ## Whom an event reaches -/

section Delivery
variable [DecidableEq χ]

/-- `c` is subscribed to `t` under some id. -/
def subscribes (subscriptions : HashMap Topic (HashMap SubscriptionID χ)) (c : χ) (t : Topic) : Bool :=
  match subscriptions.lookup t with
  | some subscribers => decide (c ∈ HashMap.values subscribers)
  | none => false

theorem subscribes_iff {sw : EventSwitch χ} {c : χ} {t : Topic} :
    subscribes sw.subscriptions c t = true ↔ ∃ id, sw.find t id = some c := by
  unfold subscribes
  cases h : sw.subscriptions.lookup t with
  | none => simp [find_of_lookup_none h]
  | some subs => simp [find_of_lookup h, HashMap.mem_values]

/-- A sender that never fails and holds one id a topic gets the event once if it is subscribed, and not at
all otherwise. -/
theorem count_delivered {failed : SubscriptionID → χ → Bool} {sw : EventSwitch χ} {e : Event} {c : χ}
    (halive : ∀ id, failed id c = false)
    (hone : ∀ id id', sw.find e.topic id = some c → sw.find e.topic id' = some c → id = id') :
    (sw.onEvent failed e).2.count c = if subscribes sw.subscriptions c e.topic then 1 else 0 := by
  unfold onEvent subscribes
  cases h : sw.subscriptions.lookup e.topic with
  | none => simp
  | some subs =>
    simp only [find_of_lookup h] at hone
    have hall : (((subs.entries.filter fun s => !failed s.1 s.2)).map Sigma.snd).count c =
        (HashMap.values subs).count c := by
      unfold HashMap.values
      induction subs.entries with
      | nil => rfl
      | cons s ss ih =>
        by_cases hc : s.2 = c
        · have hs : failed s.1 s.2 = false := hc ▸ halive s.1
          rw [List.filter_cons_of_pos (by simp [hs]), List.map_cons, List.map_cons, List.count_cons,
            List.count_cons, ih]
        · rw [List.filter_cons, List.map_cons, List.count_cons_of_ne hc]
          split
          · rw [List.map_cons, List.count_cons_of_ne hc, ih]
          · exact ih
    have hle := HashMap.count_values_le_one hone
    dsimp only
    rw [hall]
    by_cases hin : c ∈ HashMap.values subs
    · have hpos := List.count_pos_iff.mpr hin
      simp only [hin, decide_true, if_true]
      omega
    · simp [hin, List.count_eq_zero_of_not_mem hin]

end Delivery

end EventSwitch

end HardLight
