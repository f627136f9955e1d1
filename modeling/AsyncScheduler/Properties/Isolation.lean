import AsyncScheduler.Platform.BaseRegistry
import Mathlib.Data.List.Induction

/-!
# Isolation of tenants

The registry's keys are not injective in the pair of ids: a colon inside an id moves the boundary,
and the index of a tenant has the key of an item of the tenant `index`.
-/

namespace AsyncScheduler
open Keyspace

inductive RegistryEvent where
  | set (tenantId itemId : String) (value : Stored)
  | delete (tenantId itemId : String)
  | pass (t : ℚ)

namespace RegistryEvent

def item : RegistryEvent → Option (String × String)
  | .set t i _ | .delete t i => some (t, i)
  | .pass _ => none

def keptFor (t : String) (e : RegistryEvent) : Bool := e.item.all (·.1 = t)

def Within (U : Set (String × String)) (e : RegistryEvent) : Prop := ∀ p, e.item = some p → p ∈ U

end RegistryEvent

namespace BaseRegistry
variable (reg : BaseRegistry)
variable {w : ControlWorld}

def perform : RegistryEvent → Control (Option Bool)
  | .set t i v => do
    let done ← reg.set t i v
    pure (some done)
  | .delete t i => reg.delete t i
  | .pass t => atOnce (.advance t) fun _ => none

/-- What an event answers. A failed `set` raises, a failed `delete` answers `None`. -/
def outcome (e : RegistryEvent) (w : ControlWorld) : Except PyErr (Option Bool) :=
  ((reg.perform e).runWith ControlCommand.apply .ok w).1

def next (w : ControlWorld) (e : RegistryEvent) : ControlWorld :=
  ((reg.perform e).runWith ControlCommand.apply .ok w).2

def after (es : List RegistryEvent) : ControlWorld := es.foldl reg.next .empty

def seen (q : String × String) (w : ControlWorld) : Except PyErr (Option Stored) × Except PyErr (Option (List String)) :=
  (((reg.get q.1 q.2).runWith ControlCommand.apply .ok w).1, ((reg.list q.1).runWith ControlCommand.apply .ok w).1)

structure Isolated (U : Set (String × String)) : Prop where
  unchanged : ∀ es : List RegistryEvent, (∀ x ∈ es, x.Within U) → ∀ e p, e.item = some p → p ∈ U →
    ∀ q ∈ U, q.1 ≠ p.1 → reg.seen q (reg.after (es ++ [e])) = reg.seen q (reg.after es)
  /-- Whether an event fails does not depend on what the others did. -/
  unfailing : ∀ es : List RegistryEvent, (∀ x ∈ es, x.Within U) → ∀ e p, e.item = some p → p ∈ U →
    reg.outcome e (reg.after es) = reg.outcome e (reg.after (es.filter (·.keptFor p.1)))

variable {reg}

theorem seen_eq (q : String × String) (w : ControlWorld) :
    reg.seen q w =
      (.ok ((w.redis.get (reg.makeKey q.1 q.2)).bind (Option.bind · jsonLoads)),
        .ok (w.redis.smembers (reg.indexKey q.1))) := by
  rw [seen, runWith_get, runWith_list]

theorem run_perform_set (t i : String) (v : Stored) (hw : w.redis.smembers reg.tenantsKey ≠ none) :
    (reg.perform (.set t i v)).runWith ControlCommand.apply .ok w =
      let r := w.redis.touch (reg.makeKey t i) fun _ => reg.entry v w.redis.clock
      if r.smembers (reg.indexKey t) = none then (.error failure, { w with redis := r })
      else (.ok (some true),
        { w with redis := (r.touch (reg.indexKey t) (Keyspace.added i)).touch reg.tenantsKey (Keyspace.added t) }) := by
  rw [perform, Prog.bind_eq, Prog.runWith_bind, runWith_set]
  extract_lets r r'
  have hr' : r'.smembers reg.tenantsKey ≠ none := by
    rw [smembers_touch _ _ _ (reg.indexKey_ne_tenantsKey t).symm,
      smembers_touch _ _ _ (reg.makeKey_ne_tenantsKey t i).symm]
    exact hw
  rw [if_neg hr']
  by_cases hi : r.smembers (reg.indexKey t) = none
  · rw [if_pos hi]
    exact (if_pos hi).symm
  · rw [if_neg hi]
    exact (if_neg hi).symm

theorem next_sameOn {e : RegistryEvent} {p : String × String} (he : e.item = some p)
    (hw : w.redis.smembers reg.tenantsKey ≠ none) :
    Keyspace.SameOn (fun k => k ≠ reg.makeKey p.1 p.2 ∧ k ≠ reg.indexKey p.1 ∧ k ≠ reg.tenantsKey)
      (reg.next w e).redis w.redis := by
  cases e with
  | pass t => cases he
  | set t i v =>
    cases he
    rw [next, run_perform_set t i v hw]
    have hi := (Keyspace.SameOn.refl (fun k => k ≠ reg.makeKey t i ∧ k ≠ reg.indexKey t ∧ k ≠ reg.tenantsKey)
      w.redis).touch_left (k := reg.makeKey t i) (by simp) fun _ => reg.entry v w.redis.clock
    dsimp only
    split
    · exact hi
    · exact (hi.touch_left (by simp) _).touch_left (by simp) _
  | delete t i =>
    cases he
    rw [next, perform, runWith_delete]
    have hi := (Keyspace.SameOn.refl (fun k => k ≠ reg.makeKey t i ∧ k ≠ reg.indexKey t ∧ k ≠ reg.tenantsKey)
      w.redis).touch_left (k := reg.makeKey t i) (by simp) fun _ => none
    dsimp only
    split
    · exact hi
    · split
      · exact hi
      · exact hi.touch_left (by simp) _

theorem next_tenants (e : RegistryEvent) (hw : w.redis.smembers reg.tenantsKey ≠ none) :
    (reg.next w e).redis.smembers reg.tenantsKey ≠ none := by
  cases e with
  | pass t =>
    change (if w.redis.clock < t then w.onRedis (·.advance t) else w).redis.smembers _ ≠ none
    split
    · exact smembers_advance _ _ _ hw
    · exact hw
  | set t i v =>
    have hi : (w.redis.touch (reg.makeKey t i) fun _ => reg.entry v w.redis.clock).smembers reg.tenantsKey ≠ none := by
      rwa [smembers_touch _ _ _ (reg.makeKey_ne_tenantsKey t i).symm]
    rw [next, run_perform_set t i v hw]
    dsimp only
    split
    · exact hi
    · refine smembers_touch_added _ _ _ ?_
      rwa [smembers_touch _ _ _ (reg.indexKey_ne_tenantsKey t).symm]
  | delete t i =>
    have hi : (w.redis.touch (reg.makeKey t i) fun _ => none).smembers reg.tenantsKey ≠ none := by
      rwa [smembers_touch _ _ _ (reg.makeKey_ne_tenantsKey t i).symm]
    rw [next, perform, runWith_delete]
    dsimp only
    split
    · exact hi
    · split
      · exact hi
      · rwa [smembers_touch _ _ _ (reg.indexKey_ne_tenantsKey t).symm]

variable (reg) in
def Observed (U : Set (String × String)) (t k : String) : Prop :=
  k = reg.indexKey t ∨ ∃ i, (t, i) ∈ U ∧ k = reg.makeKey t i

def Apart (U : Set (String × String)) : Prop :=
  ∀ p ∈ U, ∀ q ∈ U, p.1 ≠ q.1 →
    p.1 ++ ":" ++ p.2 ≠ q.1 ++ ":" ++ q.2 ∧ p.1 ++ ":" ++ p.2 ≠ "index:" ++ q.1

section
variable {U : Set (String × String)} {w w' : ControlWorld} {e : RegistryEvent} {t : String} {p : String × String}
variable {q : String × String}

theorem not_observed (hU : Apart U) (hp : p ∈ U) (hq : q ∈ U) (hne : q.1 ≠ p.1) {k : String}
    (hk : reg.Observed U q.1 k) : k ≠ reg.makeKey p.1 p.2 ∧ k ≠ reg.indexKey p.1 ∧ k ≠ reg.tenantsKey := by
  rcases hk with rfl | ⟨i, hi, rfl⟩
  · refine ⟨fun h => ?_, fun h => hne (reg.indexKey_inj h), reg.indexKey_ne_tenantsKey _⟩
    exact (hU p hp q hq hne.symm).2 (reg.makeKey_eq_indexKey.mp h.symm)
  · refine ⟨fun h => ?_, fun h => ?_, reg.makeKey_ne_tenantsKey _ _⟩
    · exact (hU _ hi p hp hne).1 (reg.makeKey_eq_makeKey.mp h)
    · exact (hU _ hi p hp hne).2 (reg.makeKey_eq_indexKey.mp h)

theorem next_foreign (hU : Apart U) (he : e.item = some p) (hp : p ∈ U) (hq : q ∈ U)
    (hne : q.1 ≠ p.1) (hw : w.redis.smembers reg.tenantsKey ≠ none) :
    Keyspace.SameOn (reg.Observed U q.1) (reg.next w e).redis w.redis :=
  (next_sameOn he hw).mono fun _ hk => not_observed hU hp hq hne hk

/-- What a tenant sees of its own event depends on its own keys. -/
theorem own_event (hk : e.keptFor t = true) (hin : e.Within U)
    (hw : w.redis.smembers reg.tenantsKey ≠ none) (hw' : w'.redis.smembers reg.tenantsKey ≠ none)
    (hs : Keyspace.SameOn (reg.Observed U t) w.redis w'.redis) :
    reg.outcome e w = reg.outcome e w' ∧
      Keyspace.SameOn (reg.Observed U t) (reg.next w e).redis (reg.next w' e).redis := by
  cases e with
  | pass b =>
    refine ⟨rfl, ?_⟩
    change Keyspace.SameOn _ (if w.redis.clock < b then w.onRedis (·.advance b) else w).redis
      (if w'.redis.clock < b then w'.onRedis (·.advance b) else w').redis
    rw [← hs.clock]
    split
    · exact hs.advance b
    · exact hs
  | set t' i v =>
    obtain rfl : t' = t := by simpa [RegistryEvent.keptFor, RegistryEvent.item] using hk
    rw [outcome, outcome, next, next, run_perform_set t' i v hw, run_perform_set t' i v hw', hs.clock]
    have hi := hs.touch (k := reg.makeKey t' i) fun _ => reg.entry v w'.redis.clock
    have hind := hi.smembers (.inl rfl)
    dsimp only
    rw [hind]
    split
    · exact ⟨rfl, hi⟩
    · exact ⟨rfl, (hi.touch _).touch _⟩
  | delete t' i =>
    obtain rfl : t' = t := by simpa [RegistryEvent.keptFor, RegistryEvent.item] using hk
    rw [outcome, outcome, next, next, perform, runWith_delete, runWith_delete]
    have hi := hs.touch (k := reg.makeKey t' i) fun _ => none
    have hind := hi.smembers (.inl rfl)
    have he := hs.existsKey (.inr ⟨i, hin _ rfl, rfl⟩)
    dsimp only
    rw [hind, he]
    split
    · exact ⟨rfl, hi⟩
    · split
      · exact ⟨rfl, hi⟩
      · exact ⟨rfl, hi.touch _⟩

theorem after_append (es : List RegistryEvent) (e : RegistryEvent) :
    reg.after (es ++ [e]) = reg.next (reg.after es) e := by
  rw [after, List.foldl_append]
  rfl

theorem after_tenants (es : List RegistryEvent) : (reg.after es).redis.smembers reg.tenantsKey ≠ none := by
  induction es using List.reverseRecOn with
  | nil => exact Option.some_ne_none _
  | append_singleton es e ih =>
    rw [after_append]
    exact next_tenants e ih

theorem after_filter (hU : Apart U) (hq : q ∈ U) (es : List RegistryEvent) (hes : ∀ x ∈ es, x.Within U) :
    Keyspace.SameOn (reg.Observed U q.1) (reg.after es).redis (reg.after (es.filter (·.keptFor q.1))).redis := by
  induction es using List.reverseRecOn with
  | nil => exact .refl _ _
  | append_singleton es e ih =>
    have ih := ih fun x hx => hes x (List.mem_append_left _ hx)
    have hin : e.Within U := hes e (by simp)
    rw [List.filter_append, after_append]
    by_cases hk : e.keptFor q.1 = true
    · rw [List.filter_cons_of_pos hk, List.filter_nil, after_append]
      exact (own_event hk hin (after_tenants es) (after_tenants _) ih).2
    · rw [List.filter_cons_of_neg hk, List.filter_nil, List.append_nil]
      -- only an event on another tenant's item is left out
      obtain ⟨p, hp, hne⟩ : ∃ p, e.item = some p ∧ p.1 ≠ q.1 := by
        cases e <;> simp_all [RegistryEvent.keptFor, RegistryEvent.item]
      exact (next_foreign hU hp (hin p hp) hq hne.symm (after_tenants es)).trans ih

theorem seen_congr (hq : q ∈ U)
    (hs : Keyspace.SameOn (reg.Observed U q.1) w.redis w'.redis) : reg.seen q w = reg.seen q w' := by
  rw [seen_eq, seen_eq, hs.smembers (.inl rfl), hs.get (.inr ⟨q.2, hq, rfl⟩)]

theorem Apart.isolated (hU : Apart U) : reg.Isolated U where
  unchanged es _ e p he hp q hq hne := by
    rw [after_append]
    exact seen_congr hq (next_foreign hU he hp hq hne (after_tenants es))
  unfailing es hes e p he hp := by
    have hk : e.keptFor p.1 = true := by simp [RegistryEvent.keptFor, he]
    have hin : e.Within U := fun p' hp' => (Option.some.inj (he.symm.trans hp')) ▸ hp
    exact (own_event hk hin (after_tenants es) (after_tenants _) (after_filter hU hp es hes)).1

theorem next_set_entry (t i : String) (v : Stored) (hw : w.redis.smembers reg.tenantsKey ≠ none) :
    (reg.next w (.set t i v)).redis.entries (reg.makeKey t i) = reg.entry v w.redis.clock := by
  rw [next, run_perform_set t i v hw]
  dsimp only
  split
  · rw [entries_touch, if_pos rfl]
  · next hi =>
    -- the index is no string, so it is not the item itself
    have hne : reg.makeKey t i ≠ reg.indexKey t := by
      intro heq
      apply hi
      rw [← heq, Keyspace.smembers, entries_touch, if_pos rfl]
      rfl
    rw [entries_touch, if_neg (reg.makeKey_ne_tenantsKey t i), entries_touch, if_neg hne,
      entries_touch, if_pos rfl]

theorem Isolated.apart (h : reg.Isolated U) : Apart U := by
  intro p hp q hq hne
  have hs := h.unchanged [] (by simp) (.set p.1 p.2 (.dict [])) p rfl hp q hq hne.symm
  have he : (reg.after [.set p.1 p.2 (.dict [])]).redis.entries (reg.makeKey p.1 p.2) = _ :=
    next_set_entry p.1 p.2 (.dict []) (after_tenants [])
  rw [List.nil_append, seen_eq, seen_eq, Prod.mk.injEq] at hs
  refine ⟨fun hit => ?_, fun hi => ?_⟩
  · -- the other tenant reads this item as its own
    have hget := hs.1
    rw [← reg.makeKey_eq_makeKey.mpr hit, Keyspace.get, he] at hget
    cases hget
  · -- the item has replaced the other tenant's index
    have hl := hs.2
    rw [← reg.makeKey_eq_indexKey.mpr hi, Keyspace.smembers, he] at hl
    cases hl

end

end BaseRegistry

open BaseRegistry in
/-- Tenants are isolated if and only if no item in use has the key of an item or of the index of
another tenant. -/
theorem isolated_iff_apart (reg : BaseRegistry) (U : Set (String × String)) :
    reg.Isolated U ↔ ∀ p ∈ U, ∀ q ∈ U, p.1 ≠ q.1 →
      p.1 ++ ":" ++ p.2 ≠ q.1 ++ ":" ++ q.2 ∧ p.1 ++ ":" ++ p.2 ≠ "index:" ++ q.1 :=
  ⟨Isolated.apart, Apart.isolated⟩

/-- The tenant `index` stores an item named like the tenant `acme`: the list of `acme` is lost,
and `acme` can store nothing more. -/
theorem index_tenant_breaks_acme :
    let reg : BaseRegistry := { keyPrefix := "schedules" }
    ¬ reg.Isolated { p | p.1 ≠ "" ∧ p.2 ≠ "" } ∧
      let before := reg.after [.set "acme" "a1" (.dict [])]
      let after := reg.after [.set "acme" "a1" (.dict []), .set "index" "acme" (.dict [])]
      reg.seen ("acme", "a1") before = (.ok (some (.dict [])), .ok (some ["a1"])) ∧
      reg.seen ("acme", "a1") after = (.ok (some (.dict [])), .ok none) ∧
      reg.outcome (.set "acme" "a2" (.dict [])) before = .ok (some true) ∧
      reg.outcome (.set "acme" "a2" (.dict [])) after = .error BaseRegistry.failure := by
  refine ⟨fun h => ?_, by decide +kernel, by decide +kernel, by decide +kernel, by decide +kernel⟩
  have ha := h.apart ("index", "acme") ⟨by decide, by decide⟩ ("acme", "a1") ⟨by decide, by decide⟩ (by decide)
  exact ha.2 (by decide)

end AsyncScheduler
