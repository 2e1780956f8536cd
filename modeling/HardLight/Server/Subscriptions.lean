import HardLight.Server.Conn
import HardLight.Lib.Behind
import Mathlib.Order.BooleanAlgebra.Set

/-!
# Subscriptions as sets

Three views of what a connection is subscribed to: the topics its handler has added, the connection's
local map, and the entries of the switch's map with the connection's sender.

* `Conn.localSubs` : the topics and ids of the local map; `EventSwitch.ofSender` : those of one sender in the
  switch; `SubscriptionNotification.apply` : what a notification does to either;
* `SubscriptionCase`, `onSubscription_cases` : what the subscription branch does with an operation; it applies
  what it sends to the local map (`localSubs_eq`), and what it takes to the topics (`localTopics_eq`);
* `LastAdded` : the topics whose last operation was `add`; `mem_replay_iff` : replaying the operations
  yields them;
* `ofSender_onNotification_own`, `_other`, `ofSender_onEvent` : what the switch does to the entries of one sender.
-/

namespace HardLight
open Lib

/-- Subscriptions of one connection: topics with their ids. -/
abbrev Subscriptions := Set (Topic × SubscriptionID)

namespace SubscriptionNotification
variable {χ : Type}

def apply (A : Subscriptions) : SubscriptionNotification χ → Subscriptions
  | subscribe topic id _ => insert (topic, id) A
  | unsubscribe topic id => A \ {(topic, id)}

/-- A topic is subscribed to when it is not, and unsubscribed from under the id it has. -/
def Enabled (A : Subscriptions) : SubscriptionNotification χ → Prop
  | subscribe topic _ _ => ∀ id, (topic, id) ∉ A
  | unsubscribe topic id => (topic, id) ∈ A

end SubscriptionNotification

/-- A topic has one id at most. -/
def OneId (A : Subscriptions) : Prop := ∀ t id id', (t, id) ∈ A → (t, id') ∈ A → id = id'

theorem oneId_apply {χ : Type} {A : Subscriptions} {n : SubscriptionNotification χ} (h : OneId A)
    (hn : n.Enabled A) : OneId (n.apply A) := by
  intro t id id' hid hid'
  cases n with
  | subscribe topic new tx =>
    simp only [SubscriptionNotification.apply, Set.mem_insert_iff, Prod.mk.injEq] at hid hid'
    rcases hid with ⟨rfl, rfl⟩ | hid <;> rcases hid' with ⟨hd, rfl⟩ | hid'
    · rfl
    · exact absurd hid' (hn id')
    · exact absurd (hd ▸ hid) (hn id)
    · exact h t id id' hid hid'
  | unsubscribe topic old => exact h t id id' hid.1 hid'.1

/-! ## The handler's operations -/

namespace ProxiedSubscriptionNotification

def topic : ProxiedSubscriptionNotification → Topic
  | subscribe topic => topic
  | unsubscribe topic => topic

def apply (T : Set Topic) : ProxiedSubscriptionNotification → Set Topic
  | subscribe topic => insert topic T
  | unsubscribe topic => T \ {topic}

end ProxiedSubscriptionNotification

namespace HandlerOp

def apply (T : Set Topic) (o : HandlerOp) : Set Topic := o.op.apply T

/-- The last operation on `t` was `add`: one is, and no `remove` comes after it. -/
def LastAdded (ops : List HandlerOp) (t : Topic) : Prop :=
  ∃ before o after, ops = before ++ o :: after ∧ o.op = .subscribe t ∧
    ∀ o' ∈ after, o'.op ≠ .unsubscribe t

/-- **Replaying operations** on a set of topics: those added last, and those that were there and are not
removed. -/
theorem mem_replay_iff {ops : List HandlerOp} {T : Set Topic} {t : Topic} :
    t ∈ ops.foldl apply T ↔ LastAdded ops t ∨ t ∈ T ∧ ∀ o ∈ ops, o.op ≠ .unsubscribe t := by
  induction ops generalizing T with
  | nil => simp [LastAdded]
  | cons o ops ih =>
    have hcons : LastAdded (o :: ops) t ↔
        LastAdded ops t ∨ o.op = .subscribe t ∧ ∀ o' ∈ ops, o'.op ≠ .unsubscribe t := by
      constructor
      · rintro ⟨before, o₁, after, heq, hop, hafter⟩
        cases before with
        | nil =>
          rw [List.nil_append, List.cons.injEq] at heq
          obtain ⟨rfl, rfl⟩ := heq
          exact Or.inr ⟨hop, hafter⟩
        | cons o₂ before =>
          rw [List.cons_append, List.cons.injEq] at heq
          obtain ⟨rfl, rfl⟩ := heq
          exact Or.inl ⟨before, o₁, after, rfl, hop, hafter⟩
      · rintro (⟨before, o₁, after, rfl, hop, hafter⟩ | ⟨hop, hafter⟩)
        · exact ⟨o :: before, o₁, after, rfl, hop, hafter⟩
        · exact ⟨[], o, ops, rfl, hop, hafter⟩
    rw [List.foldl_cons, ih, hcons]
    have hhead : t ∈ o.apply T ↔ o.op = .subscribe t ∨ t ∈ T ∧ o.op ≠ .unsubscribe t := by
      unfold apply
      cases o.op with
      | subscribe topic => simp [ProxiedSubscriptionNotification.apply, eq_comm]
      | unsubscribe topic => simp [ProxiedSubscriptionNotification.apply, eq_comm]
    rw [hhead]
    simp only [List.forall_mem_cons]
    tauto

end HandlerOp

/-! ## The local map -/

namespace Conn

/-- The topics and ids of the local map. -/
def localSubs (k : Conn) : Subscriptions := {x | k.subscriptions.lookup x.1 = some x.2}

/-- The topics of the local map. -/
def localTopics (k : Conn) : Set Topic := {t | k.subscriptions.lookup t ≠ none}

theorem oneId_localSubs (k : Conn) : OneId k.localSubs := by
  intro t id id' hid hid'
  exact Option.some.inj (hid.symm.trans hid')

theorem mem_localTopics_iff {k : Conn} {t : Topic} : t ∈ k.localTopics ↔ ∃ id, (t, id) ∈ k.localSubs :=
  Option.ne_none_iff_exists'

theorem localSubs_insert {k k' : Conn} {t : Topic} {id : SubscriptionID}
    (hnew : k.subscriptions.lookup t = none) (h : k'.subscriptions = k.subscriptions.insert t id) :
    k'.localSubs = insert (t, id) k.localSubs := by
  ext ⟨t', id'⟩
  simp only [localSubs, h, Set.mem_ofPred_eq, Set.mem_insert_iff, Prod.mk.injEq, HashMap.lookup_insert_if]
  by_cases ht : t' = t
  · subst ht
    simp [hnew, eq_comm]
  · simp [ht]

theorem localSubs_erase {k k' : Conn} {t : Topic} {id : SubscriptionID}
    (hold : k.subscriptions.lookup t = some id) (h : k'.subscriptions = k.subscriptions.erase t) :
    k'.localSubs = k.localSubs \ {(t, id)} := by
  ext ⟨t', id'⟩
  simp only [localSubs, h, Set.mem_ofPred_eq, Set.mem_sdiff, Set.mem_singleton_iff, Prod.mk.injEq,
    HashMap.lookup_erase_if]
  by_cases ht : t' = t
  · subst ht
    simp [hold, eq_comm]
  · simp [ht]

section Subscription
variable {χ : Type}

/-- What the subscription branch does with the operation `o`. -/
inductive SubscriptionCase (tx : χ) (id : SubscriptionID) (alive : Bool) (k k' : Conn) (o : HandlerOp) :
    Option (SubscriptionNotification χ) → Prop
  /-- Nothing is sent: there is nothing to do, or the send failed and the map is as before. -/
  | kept (hlookup : ∀ t, k'.subscriptions.lookup t = k.subscriptions.lookup t)
      (htopics : alive = true → k'.localTopics = o.apply k.localTopics) : SubscriptionCase tx id alive k k' o none
  | subscribed (t : Topic) (hop : o.op = .subscribe t) (halive : alive = true)
      (hnew : k.subscriptions.lookup t = none) (hsubs : k'.subscriptions = k.subscriptions.insert t id) :
      SubscriptionCase tx id alive k k' o (some (.subscribe t id tx))
  | unsubscribed (t : Topic) (old : SubscriptionID) (hop : o.op = .unsubscribe t) (halive : alive = true)
      (hold : k.subscriptions.lookup t = some old) (hsubs : k'.subscriptions = k.subscriptions.erase t) :
      SubscriptionCase tx id alive k k' o (some (.unsubscribe t old))

variable {tx : χ} {id : SubscriptionID} {alive : Bool} {k k' : Conn}
  {n : Option (SubscriptionNotification χ)}

theorem onSubscription_cases (h : k.onSubscription tx id alive = some (k', n)) :
    ∃ o rest, k.proxyRx = o :: rest ∧ k'.proxyRx = rest ∧ k'.handled = k.handled ++ [o] ∧
      k'.exited = k.exited ∧ SubscriptionCase tx id alive k k' o n := by
  unfold onSubscription at h
  split at h
  next o rest hq =>
    refine ⟨o, rest, hq, ?_⟩
    dsimp only at h
    split at h
    next t hop =>
      split at h
      next hnew =>
        split at h
        next halive => cases h; exact ⟨rfl, rfl, rfl, .subscribed t hop halive hnew rfl⟩
        next hdead =>
          cases h
          refine ⟨rfl, rfl, rfl, .kept (fun t' => ?_) fun halive => absurd halive hdead⟩
          rw [HashMap.lookup_erase_if, HashMap.lookup_insert_if]
          by_cases ht : t' = t
          · rw [if_pos ht, ht, hnew]
          · rw [if_neg ht, if_neg ht]
      next old hold =>
        cases h
        refine ⟨rfl, rfl, rfl, .kept (fun _ => rfl) fun _ => ?_⟩
        have hin : t ∈ k.localTopics := by
          rw [localTopics, Set.mem_ofPred_eq, hold]
          exact Option.some_ne_none old
        rw [HandlerOp.apply, hop, ProxiedSubscriptionNotification.apply, Set.insert_eq_of_mem hin]
        rfl
    next t hop =>
      split at h
      next old hold =>
        split at h
        next halive => cases h; exact ⟨rfl, rfl, rfl, .unsubscribed t old hop halive hold rfl⟩
        next hdead =>
          cases h
          refine ⟨rfl, rfl, rfl, .kept (fun t' => ?_) fun halive => absurd halive hdead⟩
          rw [HashMap.lookup_insert_if, HashMap.lookup_erase_if]
          by_cases ht : t' = t
          · rw [if_pos ht, ht, hold]
          · rw [if_neg ht, if_neg ht]
      next hnone =>
        cases h
        refine ⟨rfl, rfl, rfl, .kept (fun _ => rfl) fun _ => ?_⟩
        have hout : t ∉ k.localTopics := fun hin => hin hnone
        rw [HandlerOp.apply, hop, ProxiedSubscriptionNotification.apply, Set.sdiff_singleton_eq_self hout]
        rfl
  next => cases h

namespace SubscriptionCase
variable {o : HandlerOp}

theorem localSubs_eq {n : SubscriptionNotification χ} (h : SubscriptionCase tx id alive k k' o (some n)) :
    n.Enabled k.localSubs ∧ k'.localSubs = n.apply k.localSubs := by
  cases h with
  | subscribed t hop halive hnew hsubs =>
    refine ⟨fun id' hin => ?_, localSubs_insert hnew hsubs⟩
    rw [localSubs, Set.mem_ofPred_eq, hnew] at hin
    cases hin
  | unsubscribed t old hop halive hold hsubs => exact ⟨hold, localSubs_erase hold hsubs⟩

theorem localSubs_kept (h : SubscriptionCase tx id alive k k' o none) : k'.localSubs = k.localSubs := by
  cases h with
  | kept hlookup htopics =>
    ext x
    rw [localSubs, localSubs, Set.mem_ofPred_eq, Set.mem_ofPred_eq, hlookup]

/-- The operation is applied to the topics while the switch is there. -/
theorem localTopics_eq (h : SubscriptionCase tx id alive k k' o n) (halive : alive = true) :
    k'.localTopics = o.apply k.localTopics := by
  cases h with
  | kept hlookup htopics => exact htopics halive
  | subscribed t hop _ hnew hsubs =>
    ext t'
    simp only [localTopics, hsubs, HandlerOp.apply, hop, ProxiedSubscriptionNotification.apply,
      Set.mem_ofPred_eq, Set.mem_insert_iff, HashMap.lookup_insert_if]
    by_cases ht : t' = t <;> simp [ht]
  | unsubscribed t old hop _ hold hsubs =>
    ext t'
    simp only [localTopics, hsubs, HandlerOp.apply, hop, ProxiedSubscriptionNotification.apply,
      Set.mem_ofPred_eq, Set.mem_sdiff, Set.mem_singleton_iff, HashMap.lookup_erase_if]
    by_cases ht : t' = t <;> simp [ht]

end SubscriptionCase

end Subscription

theorem step_subscriptions {k k' : Conn} {a : ConnAct} (h : k.step a = some k')
    (ha : ∀ id alive, a ≠ .subscription id alive) :
    k'.subscriptions = k.subscriptions ∧ k'.handled = k.handled := by
  cases step_cases h with
  | notified id alive o rest subscriptions hpolls hq => exact absurd rfl (ha id alive)
  | _ => exact ⟨rfl, rfl⟩

end Conn

/-! ## The switch's map -/

namespace EventSwitch
variable {χ : Type}

/-- The entries with the sender `c`. -/
def ofSender (sw : EventSwitch χ) (c : χ) : Subscriptions := {x | sw.find x.1 x.2 = some c}

/-- A notification from the connection of `c` itself. -/
theorem ofSender_onNotification_own (sw : EventSwitch χ) (c : χ) (n : SubscriptionNotification χ)
    (hn : ∀ t id tx, n = .subscribe t id tx → tx = c) :
    (sw.onNotification n).ofSender c = n.apply (sw.ofSender c) := by
  ext ⟨t', id'⟩
  cases n with
  | subscribe t id tx =>
    have htx := hn t id tx rfl
    simp only [ofSender, find_subscribe, SubscriptionNotification.apply, Set.mem_ofPred_eq,
      Set.mem_insert_iff, Prod.mk.injEq]
    by_cases hx : t' = t ∧ id' = id <;> simp [hx, htx]
  | unsubscribe t id =>
    simp only [ofSender, find_unsubscribe, SubscriptionNotification.apply, Set.mem_ofPred_eq, Set.mem_sdiff,
      Set.mem_singleton_iff, Prod.mk.injEq]
    by_cases hx : t' = t ∧ id' = id <;> simp [hx]

/-- A notification from another connection, under an id `c` does not have. -/
theorem ofSender_onNotification_other (sw : EventSwitch χ) (c : χ) (n : SubscriptionNotification χ)
    (hn : ∀ t id tx, n = .subscribe t id tx → tx ≠ c) (hid : ∀ t, (t, n.id) ∉ sw.ofSender c) :
    (sw.onNotification n).ofSender c = sw.ofSender c := by
  ext ⟨t', id'⟩
  cases n with
  | subscribe t id tx =>
    have htx := hn t id tx rfl
    simp only [ofSender, find_subscribe, Set.mem_ofPred_eq]
    split
    next hx =>
      obtain ⟨rfl, rfl⟩ := hx
      rw [Option.some.injEq]
      exact iff_of_false htx (hid t')
    next => rfl
  | unsubscribe t id =>
    simp only [ofSender, find_unsubscribe, Set.mem_ofPred_eq]
    split
    next hx =>
      obtain ⟨rfl, rfl⟩ := hx
      exact iff_of_false (by simp) (hid t')
    next => rfl

/-- Routing an event prunes no entry of a sender whose receiver is there. -/
theorem ofSender_onEvent {failed : SubscriptionID → χ → Bool} (sw : EventSwitch χ) (e : Event) {c : χ}
    (halive : ∀ id, failed id c = false) : (sw.onEvent failed e).1.ofSender c = sw.ofSender c := by
  ext ⟨t, id⟩
  simp only [ofSender, Set.mem_ofPred_eq, find_onEvent, halive, Bool.false_eq_true, and_false,
    not_false_eq_true, and_true]

theorem find_onEvent_subset {failed : SubscriptionID → χ → Bool} {sw : EventSwitch χ} {e : Event} {t : Topic}
    {id : SubscriptionID} {c : χ} (h : (sw.onEvent failed e).1.find t id = some c) :
    sw.find t id = some c :=
  ((find_onEvent failed sw e t id c).mp h).1

end EventSwitch

end HardLight
