import AsyncScheduler.Platform.StoreEffects

/-!
# Queue operations, undisturbed

What an enqueue or a dequeue does when it runs alone and no call fails. The circuit breaker in front
of them changes only its own keys.
-/

namespace AsyncScheduler
open Redis Prog

def QueueManager.Admits (q : QueueManager) (capability : String) (r : Store) : Prop :=
  ∀ cb, q.cb = some cb → ∃ state, (luaCheckState capability cb.halfOpenMax r).1 = .ok state ∧
    (state = .closed ∨ state = .halfOpen)

/-- The answer of `allow_request`. -/
def QueueManager.allows (q : QueueManager) (capability : String) (r : Store) : Bool :=
  match q.cb with
  | none => true
  | some cb =>
    match (luaCheckState capability cb.halfOpenMax r).1 with
    | .ok state => state = .closed ∨ state = .halfOpen
    | .error _ => false

theorem QueueManager.allows_iff {q : QueueManager} {capability : String} {r : Store} :
    q.allows capability r = true ↔ q.Admits capability r := by
  unfold allows Admits
  cases q.cb with
  | none => simp
  | some cb => cases h : (luaCheckState capability cb.halfOpenMax r).1 <;> simp [h]

instance (q : QueueManager) (capability : String) (r : Store) : Decidable (q.Admits capability r) :=
  decidable_of_iff _ QueueManager.allows_iff

theorem luaCheckState_reply {capability : String} {halfOpenMax : Int} {r r' : Store}
    (hs : r'.strings (breakerStateKey capability) = r.strings (breakerStateKey capability))
    (hp : r'.strings (breakerHalfOpenKey capability) = r.strings (breakerHalfOpenKey capability)) :
    (luaCheckState capability halfOpenMax r').1 = (luaCheckState capability halfOpenMax r).1 := by
  have hi : (incr r' (breakerHalfOpenKey capability)).isSome =
      (incr r (breakerHalfOpenKey capability)).isSome := by
    unfold incr
    rw [hp]
    split <;> rfl
  have ho (n : Int) :
      (luaCheckState.probe halfOpenMax r' (breakerHalfOpenKey capability) n).1 =
        (luaCheckState.probe halfOpenMax r (breakerHalfOpenKey capability) n).1 := by
    unfold luaCheckState.probe
    split
    · rfl
    · revert hi
      cases incr r' (breakerHalfOpenKey capability) <;> cases incr r (breakerHalfOpenKey capability) <;> simp
  simp only [luaCheckState, breakerState, Redis.get, hs, hp]
  split
  · rfl
  · rfl
  · split
    · exact ho _
    · exact ho _
    · rfl

theorem admits_set {q : QueueManager} {capability k : String} {r : Store} (v : Blob) (ex : Option ℚ)
    (hk : k ∉ [breakerStateKey capability, breakerCountKey capability, breakerHalfOpenKey capability]) :
    q.Admits capability (r.set k v ex) ↔ q.Admits capability r := by
  simp only [List.mem_cons, List.not_mem_nil, or_false, not_or] at hk
  have hr (n : Int) : (luaCheckState capability n (r.set k v ex)).1 = (luaCheckState capability n r).1 :=
    luaCheckState_reply (strings_set_of_ne _ _ _ _ _ (Ne.symm hk.1))
      (strings_set_of_ne _ _ _ _ _ (Ne.symm hk.2.2))
  simp only [QueueManager.Admits, hr]

namespace QueueManager
variable (q : QueueManager) (capability taskId : String) (priority : Int) (after : ℚ) (w : World)

theorem refused_eq_false_iff :
    (∃ w', (q.refused capability).runWith Command.apply .ok w = (.ok false, w')) ↔
      q.Admits capability w.redis := by
  unfold refused Admits
  cases q.cb with
  | none => simp
  | some cb =>
    simp only [CircuitBreaker.allowRequest, CircuitBreaker.getState, bind_eq, pure_eq,
      runWith_bind, runWith_await]
    cases hr : (luaCheckState capability cb.halfOpenMax w.redis).1 with
    | error e => simp [hr]
    | ok state => cases state <;> simp [hr]

theorem enqueue_returns_iff :
    (∃ result w', (q.enqueue capability taskId priority after).runWith Command.apply .ok w =
      (.ok result, w')) ↔ q.Admits capability w.redis := by
  rw [← refused_eq_false_iff]
  unfold enqueue
  constructor
  · rintro ⟨result, w', h⟩
    obtain ⟨refused, w₁, hr, hre⟩ := runWith_bind_eq_ok.mp h
    cases refused with
    | true => cases hre
    | false => exact ⟨w₁, hr⟩
  · rintro ⟨w₁, hr⟩
    rw [bind_eq, runWith_bind_ok hr]
    simp only [Bool.false_eq_true, if_false, bind_eq, runWith_bind, runWith_time, runWith_await]
    split
    · exact ⟨_, _, rfl⟩
    · exact ⟨_, _, runWith_bind_ok (runWith_perform _ _) _⟩

end QueueManager

theorem Edits.hashes {ks : List String} {r r' : Store} (h : Edits ks r r') : r'.hashes = r.hashes := by
  induction h with
  | refl => rfl
  | setText s ex hk _ ih => exact ih
  | del hk _ ih => exact ih
  | @expire r' k seconds hk _ ih =>
    rw [← ih]
    unfold Redis.expire
    split
    · rfl
    · split <;> rfl
  | incr hk hi _ ih =>
    rw [← ih]
    unfold AsyncScheduler.incr at hi
    split at hi <;> cases hi <;> rfl

namespace QueueManager

def probed (q : QueueManager) (capability : String) (r : Store) : Store :=
  match q.cb with
  | none => r
  | some cb => (luaCheckState capability cb.halfOpenMax r).2

section
variable (q : QueueManager) (capability : String)

theorem edits_probed (r : Store) :
    Edits [breakerStateKey capability, breakerCountKey capability, breakerHalfOpenKey capability] r
      (q.probed capability r) := by
  unfold probed
  split
  · exact .refl
  · rename_i cb _
    exact Edits.breakerOp (.checkState capability cb.halfOpenMax) r

theorem sorted_probed (r : Store) : (q.probed capability r).sorted = r.sorted :=
  (q.edits_probed capability r).sorted

theorem hashes_probed (r : Store) : (q.probed capability r).hashes = r.hashes :=
  (q.edits_probed capability r).hashes

theorem world_refused (w : World) :
    ((q.refused capability).runWith Command.apply .ok w).2 = w.onRedis (q.probed capability) := by
  unfold refused probed
  cases q.cb with
  | none => rfl
  | some cb =>
    simp only [CircuitBreaker.allowRequest, CircuitBreaker.getState, bind_eq, pure_eq,
      runWith_bind, runWith_await]
    cases (luaCheckState capability cb.halfOpenMax w.redis).1 <;> rfl

theorem runWith_refused_of_admits {w : World} (h : q.Admits capability w.redis) :
    (q.refused capability).runWith Command.apply .ok w = (.ok false, w.onRedis (q.probed capability)) := by
  obtain ⟨w', hw'⟩ := (refused_eq_false_iff q capability w).mpr h
  have hw := q.world_refused capability w
  rw [hw'] at hw ⊢
  exact Prod.ext rfl hw

theorem runWith_enqueue_refused (taskId : String) (priority : Int) (after : ℚ) {w : World}
    (h : ¬ q.Admits capability w.redis) :
    ∃ e, (q.enqueue capability taskId priority after).runWith Command.apply .ok w =
      (.error e, w.onRedis (q.probed capability)) := by
  have hw := q.world_refused capability w
  unfold enqueue
  rw [bind_eq, runWith_bind]
  rcases hr : (q.refused capability).runWith Command.apply .ok w with ⟨outcome, w'⟩
  rw [hr] at hw
  subst hw
  match outcome with
  | .error e => exact ⟨e, rfl⟩
  | .ok true => exact ⟨_, rfl⟩
  | .ok false => exact absurd ((refused_eq_false_iff q capability w).mp ⟨_, hr⟩) h

theorem runWith_dequeueReady {w : World} (h : q.Admits capability w.redis) :
    (q.dequeueReady capability).runWith Command.apply .ok w =
      (.ok (luaDequeueReady capability q.defaultMc (toMs w.redis.clock) q.scanLimit
        (q.probed capability w.redis)).1,
        w.onRedis fun r => (luaDequeueReady capability q.defaultMc (toMs w.redis.clock) q.scanLimit
          (q.probed capability r)).2) := by
  have hc : (w.onRedis (q.probed capability)).redis.clock = w.redis.clock :=
    clock_of_sorted (q.sorted_probed capability w.redis)
  unfold dequeueReady
  rw [bind_eq, runWith_bind_ok (q.runWith_refused_of_admits capability h)]
  simp only [Bool.false_eq_true, if_false, bind_eq, runWith_bind, runWith_time, runWith_await, hc]
  rfl

theorem dequeueReady_eq_some {w w' : World} {x : String}
    (h : (q.dequeueReady capability).runWith Command.apply .ok w = (.ok (some x), w')) :
    (luaDequeueReady capability q.defaultMc (toMs w.redis.clock) q.scanLimit
      (q.probed capability w.redis)).1 = some x := by
  obtain ⟨refused, w₁, hre, hr⟩ := runWith_bind_eq_ok.mp h
  have hw : w₁ = w.onRedis (q.probed capability) := by
    rw [← q.world_refused capability w, hre]
  cases refused with
  | true => cases hr
  | false =>
    have hc : w₁.redis.clock = w.redis.clock := by
      rw [hw]
      exact clock_of_sorted (q.sorted_probed capability w.redis)
    simp only [Bool.false_eq_true, if_false, bind_eq, runWith_bind, runWith_time, runWith_await,
      Prod.mk.injEq, Except.ok.injEq] at hr
    rw [← hr.1, hc, hw]
    rfl

end

def HasSlot (q : QueueManager) (capability : String) (r : Store) : Prop :=
  r.zcard (QueueKeys.running capability) <
    effectiveLimit (r.hget (QueueKeys.config capability) "max_concurrent") q.defaultMc

instance (q : QueueManager) (capability : String) (r : Store) : Decidable (q.HasSlot capability r) :=
  inferInstanceAs (Decidable (_ < _))

theorem firstReady_only {r : Store} {c x : String} {score : ℚ} {nowMs limit : Int}
    (ho : ∀ e ∈ (r.zsets (QueueKeys.pending c)).entries, e = (x, score))
    (hx : x ∈ r.zsets (QueueKeys.pending c)) (hre : scoreTime score ≤ nowMs) (hl : limit ≠ 0) :
    firstReady c nowMs limit r = some x := by
  obtain ⟨score', hent⟩ := (SortedSet.mem_iff _ _).mp hx
  obtain ⟨e, rest, hen⟩ := List.exists_cons_of_ne_nil (List.ne_nil_of_mem hent)
  have he : e = (x, score) := ho e (hen ▸ List.mem_cons_self)
  have hr : ∃ rest', r.zrangeAll (QueueKeys.pending c) limit = (x, score) :: rest' := by
    unfold Redis.zrangeAll
    rw [hen, he]
    split
    · exact ⟨rest, rfl⟩
    · obtain ⟨n, hn⟩ : ∃ n, limit.toNat = n + 1 := ⟨limit.toNat - 1, by omega⟩
      rw [hn]
      exact ⟨rest.take n, rfl⟩
  obtain ⟨rest', hr⟩ := hr
  simp [firstReady, hr, hre]

theorem dequeueReady_of_slot (q : QueueManager) {capability x : String} {w : World}
    (ha : q.Admits capability w.redis) (hs : q.HasSlot capability w.redis)
    (hf : firstReady capability (toMs w.redis.clock) q.scanLimit w.redis = some x) :
    ((q.dequeueReady capability).runWith Command.apply .ok w).1 = .ok (some x) := by
  have hz := zsets_of_sorted (q.sorted_probed capability w.redis)
  have hs' : q.HasSlot capability (q.probed capability w.redis) := by
    unfold HasSlot Redis.hget Redis.zcard
    rw [q.hashes_probed capability w.redis, hz]
    exact hs
  have hf' : firstReady capability (toMs w.redis.clock) q.scanLimit (q.probed capability w.redis) = some x := by
    unfold firstReady Redis.zrangeAll at hf ⊢
    rwa [hz]
  rw [q.runWith_dequeueReady capability ha]
  unfold luaDequeueReady
  dsimp only
  rw [if_neg (not_le.mpr hs'), hf']

def Full (q : QueueManager) (capability : String) (r : Store) : Prop :=
  effectiveLimit (r.hget (QueueKeys.config capability) "max_queue_depth") q.defaultDepth ≤
    r.zcard (QueueKeys.pending capability)

instance (q : QueueManager) (capability : String) (r : Store) : Decidable (q.Full capability r) :=
  inferInstanceAs (Decidable (_ ≤ _))

def enqueued (q : QueueManager) (capability taskId : String) (score : ℚ) (r : Store) : Store :=
  let r₁ := q.probed capability r
  if q.Full capability r then r₁
  else (luaEnqueue capability taskId score q.defaultDepth q.ttl r₁).2.sadd capabilitiesKey capability

section
variable (q : QueueManager) (capability taskId : String)

theorem full_of_same {r r' : Store} (hh : r'.hashes = r.hashes)
    (hz : r'.zsets (QueueKeys.pending capability) = r.zsets (QueueKeys.pending capability)) :
    q.Full capability r' ↔ q.Full capability r := by
  unfold Full Redis.hget Redis.zcard
  rw [hh, hz]

theorem full_probed (r : Store) : q.Full capability (q.probed capability r) ↔ q.Full capability r :=
  q.full_of_same capability (q.hashes_probed capability r)
    (congrFun (zsets_of_sorted (q.sorted_probed capability r)) _)

theorem luaEnqueue_of_full (score : ℚ) {r : Store} (h : q.Full capability r) :
    luaEnqueue capability taskId score q.defaultDepth q.ttl r =
      ((-1, r.zcard (QueueKeys.pending capability)), r) := by
  unfold luaEnqueue
  exact if_pos h

theorem luaEnqueue_of_not_full (score : ℚ) {r : Store} (h : ¬ q.Full capability r) :
    (luaEnqueue capability taskId score q.defaultDepth q.ttl r).1.1 ≠ -1 := by
  rcases luaEnqueue_cases r capability taskId score q.defaultDepth q.ttl with ⟨hr, _⟩ | ⟨ha, _⟩
  · unfold luaEnqueue at hr
    dsimp only at hr
    rw [if_neg (show ¬ (_ ≤ _) from h)] at hr
    exfalso
    simp only at hr
    omega
  · exact ha

theorem enqueued_of_full {r : Store} (score : ℚ) (h : q.Full capability r) :
    q.enqueued capability taskId score r = q.probed capability r := if_pos h

theorem enqueued_of_not_full {r : Store} (score : ℚ) (h : ¬ q.Full capability r) :
    q.enqueued capability taskId score r =
      ((QueueOp.enqueue capability taskId score q.defaultDepth q.ttl).exec (q.probed capability r)).sadd
        capabilitiesKey capability := if_neg h

section
variable (score : ℚ) (r : Store)

theorem clock_enqueued : (q.enqueued capability taskId score r).clock = r.clock := by
  have hp := clock_of_sorted (q.sorted_probed capability r)
  by_cases hf : q.Full capability r
  · rw [enqueued_of_full _ _ _ _ hf, hp]
  · rw [enqueued_of_not_full _ _ _ _ hf]
    exact (clock_queueOp _ _).trans hp

theorem strings_enqueued :
    (q.enqueued capability taskId score r).strings = (q.probed capability r).strings := by
  by_cases hf : q.Full capability r
  · rw [enqueued_of_full _ _ _ _ hf]
  · rw [enqueued_of_not_full _ _ _ _ hf]
    exact strings_queueOp _ _

theorem noNewDocs_enqueued : NoNewDocs r (q.enqueued capability taskId score r) :=
  (NoNewDocs.of_edits (q.edits_probed capability r)).trans
    (NoNewDocs.of_strings (q.strings_enqueued capability taskId score r))

theorem zsets_enqueued_of_ne {k : String} (hk : k ≠ QueueKeys.pending capability) :
    (q.enqueued capability taskId score r).zsets k = r.zsets k := by
  have hp := zsets_of_sorted (q.sorted_probed capability r)
  by_cases hf : q.Full capability r
  · rw [enqueued_of_full _ _ _ _ hf, hp]
  · rw [enqueued_of_not_full _ _ _ _ hf]
    exact (zsets_luaEnqueue_of_ne _ _ _ _ _ _ _ hk).trans (congrFun hp k)

end

section
variable {q : QueueManager} (httl : 0 < q.ttl) (score : ℚ) (r : Store)
include httl

/-- An enqueue adds one entry to its own pending set, unless that is full. -/
theorem zsets_enqueued (k : String) :
    (q.enqueued capability taskId score r).zsets k =
      if k = QueueKeys.pending capability ∧ ¬ q.Full capability r then (r.zsets k).add taskId score
      else r.zsets k := by
  by_cases hk : k = QueueKeys.pending capability
  · subst hk
    have hp := zsets_of_sorted (q.sorted_probed capability r)
    by_cases hf : q.Full capability r
    · rw [enqueued_of_full _ _ _ _ hf, hp]
      simp [hf]
    · have ha := q.luaEnqueue_of_not_full capability taskId score
        (mt (q.full_probed capability r).mp hf)
      rw [enqueued_of_not_full _ _ _ _ hf, if_pos ⟨rfl, hf⟩]
      rcases luaEnqueue_cases (q.probed capability r) capability taskId score q.defaultDepth q.ttl with
        ⟨hre, _⟩ | ⟨_, hr⟩
      · exact absurd hre ha
      · change (luaEnqueue capability taskId score q.defaultDepth q.ttl (q.probed capability r)).2.zsets _ = _
        rw [hr, zsets_of_sorted (sorted_refreshHash ..), zsets_of_sorted (sorted_refreshHash ..)]
        rcases zsets_refreshZset (((q.probed capability r).zadd (QueueKeys.pending capability) score taskId).hincrby
          (QueueKeys.stats capability) "total_enqueued" 1) (QueueKeys.pending capability)
          (QueueKeys.pending capability) q.ttl with hz | ⟨_, hn, _⟩
        · rw [hz, zsets_hincrby, zsets_zadd, if_pos rfl, hp]
        · omega
  · rw [zsets_enqueued_of_ne _ _ _ _ _ hk, if_neg fun h => hk h.1]

theorem mem_enqueued (c m : String) :
    m ∈ (q.enqueued capability taskId score r).zsets (QueueKeys.pending c) ↔
      m ∈ r.zsets (QueueKeys.pending c) ∨ (c = capability ∧ m = taskId ∧ ¬ q.Full capability r) := by
  rw [zsets_enqueued _ _ httl]
  simp only [pending_eq_pending]
  split
  · rw [SortedSet.mem_add]
    tauto
  · tauto

theorem zcard_enqueued (c : String) :
    (q.enqueued capability taskId score r).zcard (QueueKeys.pending c) =
      r.zcard (QueueKeys.pending c) +
        if c = capability ∧ ¬ q.Full capability r ∧ taskId ∉ r.zsets (QueueKeys.pending c) then 1 else 0 := by
  unfold Redis.zcard
  rw [zsets_enqueued _ _ httl]
  simp only [pending_eq_pending]
  by_cases ha : c = capability ∧ ¬ q.Full capability r
  · obtain ⟨rfl, hf⟩ := ha
    rw [if_pos ⟨rfl, hf⟩, SortedSet.card_add]
    by_cases hm : taskId ∈ r.zsets (QueueKeys.pending c) <;> simp [hf, hm]
  · rw [if_neg ha, if_neg fun h => ha ⟨h.1, h.2.1⟩]
    rfl

theorem hget_config_enqueued (c f : String) :
    (q.enqueued capability taskId score r).hget (QueueKeys.config c) f = r.hget (QueueKeys.config c) f := by
  have hp := q.hashes_probed capability r
  unfold Redis.hget
  by_cases hf : q.Full capability r
  · rw [enqueued_of_full _ _ _ _ hf, hp]
  · rw [enqueued_of_not_full _ _ _ _ hf]
    change List.lookup f ((luaEnqueue capability taskId score q.defaultDepth q.ttl (q.probed capability r)).2.hashes _) = _
    rcases luaEnqueue_cases (q.probed capability r) capability taskId score q.defaultDepth q.ttl with
      ⟨_, hr⟩ | ⟨_, hr⟩
    · rw [hr, hp]
    · -- only the statistics change
      rw [hr, hashes_refreshHash _ _ httl, hashes_refreshHash _ _ httl, hashes_refreshZset]
      refine congrArg (List.lookup f) ?_
      exact (Function.update_of_ne (config_ne_stats c capability) _ _).trans (congrFun hp _)

theorem zscore_enqueued_of_ne (c : String) {m : String} (hm : m ≠ taskId) :
    (q.enqueued capability taskId score r).zscore (QueueKeys.pending c) m = r.zscore (QueueKeys.pending c) m := by
  unfold Redis.zscore
  rw [zsets_enqueued _ _ httl]
  split
  · rw [SortedSet.score_add, if_neg hm]
  · rfl

end

theorem zscore_enqueued {score score' : ℚ} {r : Store} {c m : String}
    (h : (q.enqueued capability taskId score r).zscore (QueueKeys.pending c) m = some score') :
    r.zscore (QueueKeys.pending c) m = some score' ∨ (c = capability ∧ m = taskId ∧ score' = score) := by
  have hp := zsets_of_sorted (q.sorted_probed capability r)
  by_cases hf : q.Full capability r
  · rw [enqueued_of_full _ _ _ _ hf, Redis.zscore, hp] at h
    exact .inl h
  · rw [enqueued_of_not_full _ _ _ _ hf] at h
    have he := zscore_pending_exec (w := { World.empty with redis := q.probed capability r })
      (show ((World.exec _ (.queue (.enqueue capability taskId score q.defaultDepth q.ttl))).redis.zscore _ m = _) from h)
    rcases he with hold | ⟨depth, ttl, heq⟩ | heq
    · rw [Redis.zscore, hp] at hold
      exact .inl hold
    · cases heq
      exact .inr ⟨rfl, rfl, rfl⟩
    · cases heq

theorem runWith_enqueue (priority : Int) (after : ℚ) {w : World} (h : q.Admits capability w.redis) :
    ∃ result, (q.enqueue capability taskId priority after).runWith Command.apply .ok w =
      (.ok result, w.onRedis (q.enqueued capability taskId (score priority after (toMs w.redis.clock)))) := by
  have hc : (w.onRedis (q.probed capability)).redis.clock = w.redis.clock :=
    clock_of_sorted (q.sorted_probed capability w.redis)
  unfold enqueue
  rw [bind_eq, runWith_bind_ok (q.runWith_refused_of_admits capability h)]
  simp only [Bool.false_eq_true, if_false, bind_eq, runWith_bind, runWith_time, runWith_await, hc]
  have hp : (w.onRedis (q.probed capability)).redis = q.probed capability w.redis := rfl
  rw [hp]
  by_cases hf : q.Full capability w.redis
  · have hs := q.luaEnqueue_of_full capability taskId (score priority after (toMs w.redis.clock))
      ((q.full_probed capability w.redis).mpr hf)
    refine ⟨⟨false, -1, (q.probed capability w.redis).zcard (QueueKeys.pending capability)⟩, ?_⟩
    rw [hs, if_pos rfl]
    refine Prod.ext rfl (congrArg (World.mk · _ _ _) ?_)
    rw [enqueued, if_pos hf]
    exact congrArg Prod.snd hs
  · have hs := q.luaEnqueue_of_not_full capability taskId (score priority after (toMs w.redis.clock))
      (mt (q.full_probed capability w.redis).mp hf)
    rw [if_neg hs, runWith_bind_ok (runWith_perform _ _)]
    refine ⟨_, Prod.ext rfl (congrArg (World.mk · _ _ _) ?_)⟩
    rw [enqueued, if_neg hf]
    rfl

end

end QueueManager

end AsyncScheduler
