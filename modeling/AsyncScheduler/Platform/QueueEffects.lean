import AsyncScheduler.Platform.QueueManager

/-!
# What commands do to the waiting and the running sets

One lemma per script, then two inversion lemmas over all commands: an id enters a pending set only
through an accepted enqueue or the rebuild, and a running set only through a hand-out.
-/

namespace AsyncScheduler
open QueueKeys Redis SortedSet List

namespace World

def pending (w : World) (c : String) : ZSet := w.redis.zsets (QueueKeys.pending c)

def running (w : World) (c : String) : ZSet := w.redis.zsets (QueueKeys.running c)

end World

namespace Command

def accepts (w : World) : Command → Option (String × String)
  | .queue (.enqueue c x sc depth ttl) =>
    if (luaEnqueue c x sc depth ttl w.redis).1.1 = -1 then none else some (c, x)
  | _ => none

def handsOut (w : World) : Command → Option (String × String)
  | .queue (.dequeueReady c mc nowMs limit) =>
    (luaDequeueReady c mc nowMs limit w.redis).1.map fun x => (c, x)
  | _ => none

def restores : Command → Option (String × String)
  | .queue (.restore c x _) => some (c, x)
  | _ => none

/-- A command that takes an id out of a running set; a cancel looks at the waiting
ids first. -/
def frees (w : World) (c x : String) : Command → Bool
  | .queue (.cancel c' x') => c' = c ∧ x' = x ∧ x ∉ w.pending c
  | .queue (.complete c' x' _) | .queue (.releaseRunning c' x') => c' = c ∧ x' = x
  | .queue (.removeStale c' xs) => c' = c ∧ x ∈ xs
  | _ => false

def expires (w : World) (k : String) : Command → Bool
  | .advance t => w.redis.clock < t ∧ ¬live t (w.redis.zexpire k)
  | _ => false

end Command

theorem handsOut_eq_some {w : World} {cmd : Command} {c x : String}
    (h : cmd.handsOut w = some (c, x)) : ∃ mc nowMs limit, cmd = .queue (.dequeueReady c mc nowMs limit) ∧
        (luaDequeueReady c mc nowMs limit w.redis).1 = some x := by
  unfold Command.handsOut at h
  split at h
  · rename_i c' mc nowMs limit
    obtain ⟨y, hy, heq⟩ := Option.map_eq_some_iff.mp h
    cases heq
    exact ⟨mc, nowMs, limit, rfl, hy⟩
  · cases h

section Scripts
variable (r : Store) (c x m k : String)

theorem sorted_refreshHash (ttl : Int) : (refreshHash k ttl r).sorted = r.sorted := by
  unfold refreshHash
  split
  · exact sorted_hexpireIn ..
  · rfl

theorem zsets_refreshZset (k' : String) (ttl : Int) : (refreshZset k ttl r).zsets k' = r.zsets k' ∨
      (k' = k ∧ ttl ≤ 0 ∧ (refreshZset k ttl r).zsets k' = ∅) := by
  unfold refreshZset
  split
  · rw [zsets_zexpireIn]
    split
    · rename_i h
      exact .inr ⟨h.1, by exact_mod_cast h.2, rfl⟩
    · exact .inl rfl
  · exact .inl rfl

theorem hashes_refreshHash {ttl : Int} (h : 0 < ttl) : (refreshHash k ttl r).hashes = r.hashes := by
  unfold refreshHash
  split
  · exact hashes_hexpireIn _ _ (by exact_mod_cast h)
  · rfl

theorem hashes_refreshZset (ttl : Int) : (refreshZset k ttl r).hashes = r.hashes := by
  unfold refreshZset
  split
  · exact hashes_zexpireIn ..
  · rfl

theorem luaEnqueue_cases (sc : ℚ) (depth ttl : Int) :
    ((luaEnqueue c x sc depth ttl r).1.1 = -1 ∧ (luaEnqueue c x sc depth ttl r).2 = r) ∨
      ((luaEnqueue c x sc depth ttl r).1.1 ≠ -1 ∧ (luaEnqueue c x sc depth ttl r).2 =
          refreshHash (config c) ttl (refreshHash (stats c) ttl (refreshZset (pending c) ttl
            ((r.zadd (pending c) sc x).hincrby (stats c) "total_enqueued" 1)))) := by
  unfold luaEnqueue
  dsimp only
  split
  · exact .inl ⟨rfl, rfl⟩
  · refine .inr ⟨?_, rfl⟩
    dsimp only
    omega

theorem zsets_luaEnqueue (sc : ℚ) (depth ttl : Int) : (luaEnqueue c x sc depth ttl r).2.zsets k = r.zsets k ∨
      (k = pending c ∧ (luaEnqueue c x sc depth ttl r).1.1 ≠ -1 ∧
        ((luaEnqueue c x sc depth ttl r).2.zsets k = (r.zsets k).add x sc ∨
          (luaEnqueue c x sc depth ttl r).2.zsets k = ∅)) := by
  rcases luaEnqueue_cases r c x sc depth ttl with ⟨_, hr⟩ | ⟨ha, hr⟩
  · exact .inl (by rw [hr])
  · rw [hr, zsets_of_sorted (sorted_refreshHash ..), zsets_of_sorted (sorted_refreshHash ..)]
    rcases zsets_refreshZset ((r.zadd (pending c) sc x).hincrby (stats c) "total_enqueued" 1)
      (pending c) k ttl with hz | ⟨hk, _, hz⟩
    · rw [hz, zsets_hincrby, zsets_zadd]
      by_cases hk : k = pending c
      · exact .inr ⟨hk, ha, .inl (by simp [hk])⟩
      · exact .inl (if_neg hk)
    · exact .inr ⟨hk, ha, .inr hz⟩

theorem mem_luaEnqueue {sc : ℚ} {depth ttl : Int} (h : m ∈ (luaEnqueue c x sc depth ttl r).2.zsets k) :
    m ∈ r.zsets k ∨ (k = pending c ∧ m = x ∧ (luaEnqueue c x sc depth ttl r).1.1 ≠ -1) := by
  rcases zsets_luaEnqueue r c x k sc depth ttl with hz | ⟨hk, ha, hz | hz⟩ <;> rw [hz] at h
  · exact .inl h
  · exact ((mem_add _ _ _ _).mp h).symm.imp_right fun hm => ⟨hk, hm, ha⟩
  · exact absurd h (mem_empty m)

theorem zsets_luaEnqueue_of_ne (sc : ℚ) (depth ttl : Int) (hk : k ≠ pending c) :
    (luaEnqueue c x sc depth ttl r).2.zsets k = r.zsets k :=
  (zsets_luaEnqueue r c x k sc depth ttl).resolve_right fun h => hk h.1

theorem deadline_luaEnqueue_of_ne (sc : ℚ) (depth ttl : Int) (hk : k ≠ pending c) :
    (luaEnqueue c x sc depth ttl r).2.deadline k = r.deadline k := by
  rcases luaEnqueue_cases r c x sc depth ttl with ⟨_, hr⟩ | ⟨_, hr⟩
  · rw [hr]
  · rw [hr, deadline_of_sorted (sorted_refreshHash ..), deadline_of_sorted (sorted_refreshHash ..)]
    have hz : ((r.zadd (pending c) sc x).hincrby (stats c) "total_enqueued" 1).deadline k =
        r.deadline k := (deadline_of_sorted (sorted_hincrby ..) k).trans (deadline_zadd ..)
    unfold refreshZset
    split
    · rw [deadline_zexpireIn_of_ne _ _ _ _ hk, hz]
    · exact hz

theorem score_firstReady {r : Store} {c x : String} {nowMs limit : Int} (h : firstReady c nowMs limit r = some x) :
    ∃ score, r.zscore (pending c) x = some score ∧ scoreTime score ≤ nowMs := by
  obtain ⟨e, he, rfl⟩ := Option.map_eq_some_iff.mp h
  have hen := mem_of_mem_zrangeAll (mem_of_find?_eq_some he)
  exact ⟨e.2, (score_eq_some_iff _ _ _).mpr hen, by simpa using List.find?_some he⟩

theorem mem_firstReady {nowMs limit : Int} (h : firstReady c nowMs limit r = some x) : x ∈ r.zsets (pending c) := by
  obtain ⟨score, hs, _⟩ := score_firstReady h
  exact mem_of_score hs

theorem firstReady_of_dequeue {r : Store} {c x : String} {mc nowMs limit : Int}
    (h : (luaDequeueReady c mc nowMs limit r).1 = some x) : firstReady c nowMs limit r = some x := by
  unfold luaDequeueReady at h
  dsimp only at h
  split at h
  · cases h
  · split at h
    · cases h
    · rename_i y hy
      rw [hy]
      exact h

theorem luaDequeueReady_cases (mc nowMs limit : Int) :
    ((luaDequeueReady c mc nowMs limit r).1 = none ∧ (luaDequeueReady c mc nowMs limit r).2 = r) ∨
      ∃ x, (luaDequeueReady c mc nowMs limit r).1 = some x ∧ x ∈ r.zsets (pending c) ∧
        (luaDequeueReady c mc nowMs limit r).2 =
          ((r.zrem (pending c) x).zadd (running c) nowMs x).hincrby (stats c) "total_dequeued" 1 := by
  unfold luaDequeueReady
  dsimp only
  split
  · exact .inl ⟨rfl, rfl⟩
  · split
    · exact .inl ⟨rfl, rfl⟩
    · rename_i x hx
      exact .inr ⟨x, rfl, mem_firstReady r c x hx, rfl⟩

theorem zsets_handOut (nowMs : Int) :
    (((r.zrem (pending c) x).zadd (running c) nowMs x).hincrby (stats c) "total_dequeued" 1).zsets k =
      if k = running c then (r.zsets (running c)).add x nowMs
      else if k = pending c then (r.zsets (pending c)).remove x else r.zsets k := by
  rw [zsets_hincrby, zsets_zadd]
  split
  · rw [zsets_zrem, if_neg (pending_ne_running c c).symm]
  · rw [zsets_zrem]

end Scripts

theorem sorted_incr {r r' : Store} {k : String} {n : Int} (h : incr r k = some (n, r')) : r'.sorted = r.sorted := by
  unfold incr at h
  split at h <;> cases h <;> rfl

theorem sorted_keyOp (k : String) (r : Store) (op : KeyOp) : (op.exec k r).sorted = r.sorted := by
  cases op with
  | set v ex => rfl
  | setNx v ex => exact sorted_setNx ..
  | renew v seconds =>
    simp only [KeyOp.exec, luaRenew]
    split
    · exact sorted_expire ..
    · rfl
  | release v =>
    simp only [KeyOp.exec, luaLockRelease]
    split <;> rfl
  | del => rfl

theorem sorted_runKeys (ops : List (String × KeyOp)) (r : Store) : (World.runKeys r ops).sorted = r.sorted := by
  induction ops generalizing r with
  | nil => rfl
  | cons op ops ih =>
    change (World.runKeys (op.2.exec op.1 r) ops).sorted = _
    rw [ih, sorted_keyOp]

def BreakerOp.keys : BreakerOp → List String
  | .recordFailure c _ _ | .recordSuccess c | .checkState c _ =>
    [breakerStateKey c, breakerCountKey c, breakerHalfOpenKey c]

/-- What a breaker script does to its keys: it writes texts, counts, deletes and sets deadlines. -/
inductive Edits (ks : List String) (r : Store) : Store → Prop
  | refl : Edits ks r r
  | setText {r' : Store} {k : String} (s : String) (ex : Option ℚ) (hk : k ∈ ks) :
    Edits ks r r' → Edits ks r (r'.set k (.text s) ex)
  | del {r' : Store} {k : String} (hk : k ∈ ks) : Edits ks r r' → Edits ks r (r'.del k)
  | expire {r' : Store} {k : String} (seconds : ℚ) (hk : k ∈ ks) :
    Edits ks r r' → Edits ks r (r'.expire k seconds)
  | incr {r' r'' : Store} {k : String} {n : Int} (hk : k ∈ ks) (hincr : incr r' k = some (n, r'')) :
    Edits ks r r' → Edits ks r r''

namespace Edits
variable {ks : List String} {r r' : Store}

theorem breakerOp (op : BreakerOp) (r : Store) : Edits op.keys r (op.exec r) := by
  cases op with
  | recordFailure c threshold openTtl =>
    have hs : breakerStateKey c ∈ (BreakerOp.recordFailure c threshold openTtl).keys := mem_cons_self
    have hc : breakerCountKey c ∈ (BreakerOp.recordFailure c threshold openTtl).keys :=
      mem_cons_of_mem _ mem_cons_self
    simp only [BreakerOp.exec, luaRecordFailure]
    split
    · exact .refl
    · split
      · exact .refl
      · rename_i hi
        have hco := Edits.expire (openTtl * 4) hc (.incr hc hi .refl)
        split
        · exact .del hc (.expire _ hs (.setText _ _ hs hco))
        · exact hco
  | recordSuccess c =>
    have hs : breakerStateKey c ∈ (BreakerOp.recordSuccess c).keys := mem_cons_self
    have hc : breakerCountKey c ∈ (BreakerOp.recordSuccess c).keys :=
      mem_cons_of_mem _ mem_cons_self
    simp only [BreakerOp.exec, luaRecordSuccess]
    split
    · exact .del hc (.setText _ _ hs .refl)
    · exact .del hc .refl
  | checkState c halfOpenMax =>
    have hp (n : Int) : Edits (BreakerOp.checkState c halfOpenMax).keys r
        (luaCheckState.probe halfOpenMax r (breakerHalfOpenKey c) n).2 := by
      have ha : breakerHalfOpenKey c ∈ (BreakerOp.checkState c halfOpenMax).keys :=
        mem_cons_of_mem _ (mem_cons_of_mem _ mem_cons_self)
      unfold luaCheckState.probe
      split
      · exact .refl
      · split
        · exact .refl
        · rename_i hi
          exact .expire _ ha (.incr ha hi .refl)
    simp only [BreakerOp.exec, luaCheckState]
    split
    · exact .refl
    · exact .refl
    · split
      · exact hp _
      · exact hp _
      · exact .refl

theorem sorted (h : Edits ks r r') : r'.sorted = r.sorted := by
  induction h with
  | refl => rfl
  | setText s ex hk _ ih => exact (sorted_set ..).trans ih
  | del hk _ ih => exact (sorted_del ..).trans ih
  | expire seconds hk _ ih => exact (sorted_expire ..).trans ih
  | incr hk hi _ ih => exact (sorted_incr hi).trans ih

end Edits

theorem clock_queueOp (r : Store) (op : QueueOp) : (op.exec r).clock = r.clock := by
  have hh (k : String) (ttl : Int) (r : Store) : (refreshHash k ttl r).clock = r.clock :=
    clock_of_sorted (sorted_refreshHash r k ttl)
  have hz (k : String) (ttl : Int) (r : Store) : (refreshZset k ttl r).clock = r.clock := by
    unfold refreshZset
    split
    · exact clock_zexpireIn ..
    · rfl
  cases op with
  | enqueue c x sc depth ttl =>
    rcases luaEnqueue_cases r c x sc depth ttl with ⟨_, hr⟩ | ⟨_, hr⟩
    · exact congrArg Redis.clock hr
    · rw [QueueOp.exec, hr, hh, hh, hz]
      rfl
  | dequeueReady c mc nowMs limit =>
    rcases luaDequeueReady_cases r c mc nowMs limit with ⟨_, hr⟩ | ⟨x, _, _, hr⟩
    · exact congrArg Redis.clock hr
    · rw [QueueOp.exec, hr]
      rfl
  | cancel c x =>
    simp only [QueueOp.exec, luaCancel]
    split <;> rfl
  | _ => rfl

theorem redis_commit (w : World) (writes : List DbWrite) : (w.exec (.commit writes)).redis = w.redis := by
  cases h : w.db.commit w.redis.clock writes <;> simp [World.exec, h]

theorem redis_memory (w : World) (op : MemoryOp) : (w.exec (.memory op)).redis = w.redis := by
  cases op with
  | acquirePermit n =>
    simp only [World.exec]
    split <;> rfl
  | _ => rfl

theorem zset_callbackOp (r : Store) (op : CallbackOp) {k : String} (hk : k ∉ QueueKeys.callbackSets) :
    (op.exec r).zsets k = r.zsets k ∧ (op.exec r).zexpire k = r.zexpire k := by
  have hr : k ≠ QueueKeys.callbackRetry := fun h => hk (h ▸ mem_cons_self)
  have hd : k ≠ QueueKeys.callbackDlq := fun h => hk (h ▸ mem_cons_of_mem _ mem_cons_self)
  cases op with
  | claim m =>
    rw [CallbackOp.exec, zsets_zrem, if_neg hr, zrem, zexpire_putZset, if_neg hr]
    exact ⟨rfl, rfl⟩
  | deadLetter m score =>
    rw [CallbackOp.exec, zsets_zadd, if_neg hd, zadd, zexpire_putZset, if_neg hd]
    exact ⟨rfl, rfl⟩
  | keepDeadLetters seconds =>
    simp only [CallbackOp.exec, zexpireIn]
    split
    · exact ⟨rfl, rfl⟩
    · split
      · rw [zsets_putZset, if_neg hd, zexpire_putZset, if_neg hd]
        exact ⟨rfl, rfl⟩
      · exact ⟨rfl, Function.update_of_ne hd ..⟩

theorem clock_callbackOp (r : Store) (op : CallbackOp) : (op.exec r).clock = r.clock := by
  cases op with
  | keepDeadLetters seconds =>
    simp only [CallbackOp.exec, zexpireIn]
    split
    · rfl
    · split <;> rfl
  | _ => rfl

theorem exec_of_not_queue (w : World) (cmd : Command) (k : String)
    (hk : k ∉ QueueKeys.callbackSets) (hq : ∀ op, cmd ≠ .queue op) :
    ((w.exec cmd).redis.zsets k = w.redis.zsets k ∧ (w.exec cmd).redis.zexpire k = w.redis.zexpire k) ∨
      ∃ t, cmd = .advance t ∧ w.redis.clock < t ∧ (w.exec cmd).redis = w.redis.advance t := by
  have hs {r : Store} (h : r.sorted = w.redis.sorted) :
      r.zsets k = w.redis.zsets k ∧ r.zexpire k = w.redis.zexpire k :=
    ⟨congrFun (zsets_of_sorted h) k, congrFun (zexpire_of_sorted h) k⟩
  have hr : k ≠ QueueKeys.callbackRetry := fun h => hk (h ▸ mem_cons_self)
  cases cmd with
  | read => exact .inl (hs rfl)
  | keys ops => exact .inl (hs (sorted_runKeys ops _))
  | queue op => exact absurd rfl (hq op)
  | breaker op => exact .inl (hs (Edits.breakerOp op _).sorted)
  | callbackRetry member score ops =>
    refine .inl ?_
    have ho := sorted_runKeys ops (w.redis.zadd QueueKeys.callbackRetry score member)
    change (World.runKeys _ ops).zsets k = _ ∧ (World.runKeys _ ops).zexpire k = _
    rw [zsets_of_sorted ho, zexpire_of_sorted ho, zsets_zadd, if_neg hr, zadd, zexpire_putZset, if_neg hr]
    exact ⟨rfl, rfl⟩
  | callbacks op => exact .inl (zset_callbackOp w.redis op hk)
  | post request => exact .inl (hs rfl)
  | commit writes =>
    refine .inl ?_
    simp only [World.exec]
    split <;> exact hs rfl
  | memory op =>
    refine .inl (hs ?_)
    rw [redis_memory]
  | mark m => exact .inl (hs rfl)
  | advance t =>
    by_cases ht : w.redis.clock < t
    · exact .inr ⟨t, rfl, ht, by simp [World.exec, ht, World.onRedis]⟩
    · refine .inl ?_
      rw [World.exec, if_neg ht]
      exact hs rfl

theorem clock_exec (w : World) (cmd : Command) : (w.exec cmd).redis.clock = w.redis.clock ∨
      ∃ t, cmd = .advance t ∧ w.redis.clock < t ∧ (w.exec cmd).redis = w.redis.advance t := by
  cases cmd with
  | read => exact .inl rfl
  | keys ops => exact .inl (clock_of_sorted (sorted_runKeys ops w.redis))
  | queue op => exact .inl (clock_queueOp w.redis op)
  | breaker op => exact .inl (clock_of_sorted (Edits.breakerOp op w.redis).sorted)
  | callbackRetry member score ops =>
    have hk := clock_of_sorted (sorted_runKeys ops (w.redis.zadd QueueKeys.callbackRetry score member))
    exact .inl hk
  | callbacks op => exact .inl (clock_callbackOp w.redis op)
  | post request => exact .inl rfl
  | commit writes =>
    simp only [World.exec]
    split <;> exact .inl rfl
  | memory op => exact .inl (congrArg Redis.clock (redis_memory w op))
  | mark m => exact .inl rfl
  | advance t =>
    by_cases ht : w.redis.clock < t
    · exact .inr ⟨t, rfl, ht, by simp [World.exec, ht, World.onRedis]⟩
    · exact .inl (by simp [World.exec, ht])

theorem clock_le_exec (w : World) (cmd : Command) : w.redis.clock ≤ (w.exec cmd).redis.clock := by
  rcases clock_exec w cmd with hs | ⟨t, _, ht, ha⟩
  · exact hs.ge
  · rw [ha]
    exact ht.le

section Inversion
variable {w : World} {cmd : Command} {c m : String}

theorem mem_of_not_queue {k : String} (hk : k ∉ QueueKeys.callbackSets) (hq : ∀ op, cmd ≠ .queue op) :
    m ∈ (w.exec cmd).redis.zsets k ↔ m ∈ w.redis.zsets k ∧ cmd.expires w k = false := by
  rcases exec_of_not_queue w cmd k hk hq with ⟨heq, he⟩ | ⟨t, rfl, ht, heq⟩
  · rw [heq]
    refine ⟨fun h => ⟨h, ?_⟩, fun h => h.1⟩
    cases cmd with
    | advance t =>
      by_contra hne
      simp only [Command.expires, decide_eq_false_iff_not, not_not] at hne
      simp only [World.exec, hne.1, if_true, World.onRedis, zsets_advance, hne.2] at heq
      rw [← heq] at h
      exact absurd h (mem_empty m)
    | _ => rfl
  · rw [heq, zsets_advance]
    by_cases hl : live t (w.redis.zexpire k) <;> simp [Command.expires, ht, hl]

theorem zscore_zrem_eq_some {r : Store} {k k' y : String} {sc : ℚ}
    (h : (r.zrem k' y).zscore k m = some sc) : r.zscore k m = some sc := by
  rw [zscore, zsets_zrem] at h
  split at h
  · rename_i hk
    rw [zscore, hk]
    exact score_of_filter h
  · exact h

/-- A score in a pending set was there, or comes from an enqueue or the rebuild. -/
theorem zscore_pending_exec {sc : ℚ} (h : (w.exec cmd).redis.zscore (QueueKeys.pending c) m = some sc) :
    w.redis.zscore (QueueKeys.pending c) m = some sc ∨
      (∃ depth ttl, cmd = .queue (.enqueue c m sc depth ttl)) ∨ cmd = .queue (.restore c m sc) := by
  have ha {r : Store} {c' x : String} {sc' : ℚ}
      (h : (r.zadd (QueueKeys.pending c') sc' x).zscore (QueueKeys.pending c) m = some sc) :
      r.zscore (QueueKeys.pending c) m = some sc ∨ (c = c' ∧ m = x ∧ sc' = sc) := by
    rw [zscore_zadd] at h
    split at h
    · rename_i hs
      exact .inr ⟨pending_eq_pending.mp hs.1, hs.2, Option.some.inj h⟩
    · exact .inl h
  by_cases hq : ∀ op, cmd ≠ .queue op
  · rcases exec_of_not_queue w cmd _ (pending_notMem_callbackSets c) hq with ⟨hs, _⟩ | ⟨t, _, _, had⟩
    · rw [zscore, hs] at h
      exact .inl h
    · rw [had, zscore, zsets_advance] at h
      split at h
      · exact .inl h
      · cases h
  · obtain ⟨op, rfl⟩ := not_forall_not.mp hq
    change (op.exec w.redis).zscore (QueueKeys.pending c) m = some sc at h
    cases op with
    | enqueue c' x sc' depth ttl =>
      rcases zsets_luaEnqueue w.redis c' x (QueueKeys.pending c) sc' depth ttl with hz | ⟨hk, -, hz | hz⟩
      · rw [QueueOp.exec, zscore, hz] at h
        exact .inl h
      · obtain rfl := pending_eq_pending.mp hk
        rw [QueueOp.exec, zscore, hz, score_add] at h
        split at h
        · rename_i hm
          exact .inr (.inl ⟨depth, ttl, by rw [hm, Option.some.inj h]⟩)
        · exact .inl h
      · rw [QueueOp.exec, zscore, hz] at h
        cases h
    | dequeueReady c' mc nowMs limit =>
      rcases luaDequeueReady_cases w.redis c' mc nowMs limit with ⟨_, hr⟩ | ⟨x, _, _, hr⟩
      · rw [QueueOp.exec, hr] at h
        exact .inl h
      · rw [QueueOp.exec, hr] at h
        change ((w.redis.zrem (QueueKeys.pending c') x).zadd (QueueKeys.running c') nowMs x).zscore _ m = _ at h
        rw [zscore_zadd, if_neg fun hs => pending_ne_running c c' hs.1] at h
        exact .inl (zscore_zrem_eq_some h)
    | cancel c' x =>
      simp only [QueueOp.exec, luaCancel] at h
      split at h
      · exact .inl (zscore_zrem_eq_some h)
      · exact .inl (zscore_zrem_eq_some h)
    | complete c' x counter | releaseRunning c' x => exact .inl (zscore_zrem_eq_some h)
    | removeStale c' xs =>
      rw [QueueOp.exec, zscore, zsets_zremAll, if_neg (pending_ne_running c c')] at h
      exact .inl h
    | register c' => exact .inl h
    | restore c' x sc' =>
      rcases ha h with hold | ⟨rfl, rfl, rfl⟩
      · exact .inl hold
      · exact .inr (.inr rfl)

theorem mem_pending_exec (h : m ∈ (w.exec cmd).pending c) :
    m ∈ w.pending c ∨ cmd.accepts w = some (c, m) ∨ cmd.restores = some (c, m) := by
  obtain ⟨sc, he⟩ := (mem_iff _ _).mp h
  rcases zscore_pending_exec ((score_eq_some_iff _ _ _).mpr he) with hold | ⟨depth, ttl, rfl⟩ | rfl
  · exact .inl (mem_of_score hold)
  · -- an entry of a rejected enqueue was there before
    rcases mem_luaEnqueue _ _ _ _ _ h with hm | ⟨_, _, ha⟩
    · exact .inl hm
    · exact .inr (.inl (by simp [Command.accepts, ha]))
  · exact .inr (.inr rfl)

theorem mem_zrem_running (r : Store) (c' x : String) :
    m ∈ (r.zrem (QueueKeys.running c') x).zsets (QueueKeys.running c) ↔
      m ∈ r.zsets (QueueKeys.running c) ∧ ¬ (c' = c ∧ x = m) := by
  rw [zsets_zrem]
  by_cases hc : c = c'
  · subst hc
    simp [eq_comm]
  · simp [hc, Ne.symm hc]

theorem mem_running_dequeueReady (c' : String) (mc nowMs limit : Int) :
    m ∈ ((QueueOp.dequeueReady c' mc nowMs limit).exec w.redis).zsets (QueueKeys.running c) ↔
      (Command.queue (.dequeueReady c' mc nowMs limit)).handsOut w = some (c, m) ∨ m ∈ w.running c := by
  have hrp : QueueKeys.running c ≠ QueueKeys.pending c' := (pending_ne_running c' c).symm
  rcases luaDequeueReady_cases w.redis c' mc nowMs limit with ⟨hn, hr⟩ | ⟨x, hs, _, hr⟩
  · rw [QueueOp.exec, hr]
    simp [Command.handsOut, World.running, hn]
  · rw [QueueOp.exec, hr, zsets_handOut, if_neg hrp]
    simp only [Command.handsOut, hs, Option.map_some, Option.some.injEq, Prod.mk.injEq, World.running]
    by_cases hc : c = c'
    · subst hc
      simp [eq_comm]
    · simp [hc, Ne.symm hc]

theorem mem_running_cancel (c' x : String) :
    m ∈ ((QueueOp.cancel c' x).exec w.redis).zsets (QueueKeys.running c) ↔
      m ∈ w.running c ∧ (Command.queue (.cancel c' x)).frees w c m = false := by
  simp only [QueueOp.exec, luaCancel, Command.frees, World.running, decide_eq_false_iff_not]
  split
  · rename_i hx
    rw [zsets_zrem, if_neg (pending_ne_running c' c).symm]
    refine ⟨fun h => ⟨h, ?_⟩, fun h => h.1⟩
    rintro ⟨rfl, rfl, hp⟩
    exact hp hx
  · rename_i hx
    rw [mem_zrem_running]
    refine and_congr_right fun _ => not_congr ⟨?_, fun h => ⟨h.1, h.2.1⟩⟩
    rintro ⟨rfl, rfl⟩
    exact ⟨rfl, rfl, hx⟩

theorem mem_running_exec_iff : m ∈ (w.exec cmd).running c ↔ cmd.handsOut w = some (c, m) ∨
      (m ∈ w.running c ∧ cmd.frees w c m = false ∧ cmd.expires w (QueueKeys.running c) = false) := by
  by_cases hq : ∀ op, cmd ≠ .queue op
  · have hh : cmd.handsOut w ≠ some (c, m) ∧ cmd.frees w c m = false := by
      cases cmd with
      | queue op => exact absurd rfl (hq op)
      | _ => exact ⟨by simp [Command.handsOut], rfl⟩
    rw [World.running, mem_of_not_queue (running_notMem_callbackSets c) hq]
    simp [hh.1, hh.2, World.running]
  · obtain ⟨op, rfl⟩ := not_forall_not.mp hq
    change m ∈ (op.exec w.redis).zsets (QueueKeys.running c) ↔ _
    have hrp (c' : String) : QueueKeys.running c ≠ QueueKeys.pending c' := (pending_ne_running c' c).symm
    cases op with
    | enqueue c' x sc depth ttl =>
      rw [QueueOp.exec, zsets_luaEnqueue_of_ne _ _ _ _ _ _ _ (hrp c')]
      simp [Command.handsOut, Command.frees, Command.expires, World.running]
    | dequeueReady c' mc nowMs limit =>
      rw [mem_running_dequeueReady]
      simp [Command.frees, Command.expires]
    | cancel c' x =>
      rw [mem_running_cancel]
      simp [Command.handsOut, Command.expires]
    | complete c' x counter =>
      rw [QueueOp.exec, luaComplete, zsets_hincrby, mem_zrem_running]
      simp [Command.handsOut, Command.frees, Command.expires, World.running]
    | releaseRunning c' x =>
      rw [QueueOp.exec, mem_zrem_running]
      simp [Command.handsOut, Command.frees, Command.expires, World.running]
    | removeStale c' xs =>
      rw [QueueOp.exec, zsets_zremAll]
      by_cases hc : c = c'
      · subst hc
        simp [Command.handsOut, Command.frees, Command.expires, World.running]
      · simp [Command.handsOut, Command.frees, Command.expires, World.running, hc, Ne.symm hc]
    | register c' =>
      simp [Command.handsOut, Command.frees, Command.expires, World.running, QueueOp.exec, sadd]
    | restore c' x sc =>
      rw [QueueOp.exec, zsets_zadd, if_neg (hrp c')]
      simp [Command.handsOut, Command.frees, Command.expires, World.running]

end Inversion

abbrev Step := Transition Command Fault World

namespace Step

def post (t : Step) : World := t.cmd.apply t.input t.pre

def applied (t : Step) : Bool := t.input.applied || !t.cmd.awaited

def accepted (t : Step) : Option (String × String) := if t.applied then t.cmd.accepts t.pre else none

def handedOut (t : Step) : Option (String × String) := if t.applied then t.cmd.handsOut t.pre else none

theorem post_eq (t : Step) : t.post = if t.applied then t.pre.exec t.cmd else t.pre := rfl

theorem mem_pending_post {t : Step} {c x : String} (h : x ∈ t.post.pending c) :
    x ∈ t.pre.pending c ∨ t.accepted = some (c, x) ∨ (t.applied ∧ t.cmd.restores = some (c, x)) := by
  rw [post_eq] at h
  by_cases ha : t.applied
  · rw [if_pos ha] at h
    rcases mem_pending_exec h with h | h | h
    · exact .inl h
    · exact .inr (.inl (by rw [accepted, if_pos ha, h]))
    · exact .inr (.inr ⟨ha, h⟩)
  · rw [if_neg ha] at h
    exact .inl h

theorem mem_running_post {t : Step} {c x : String} (h : x ∈ t.post.running c) :
    x ∈ t.pre.running c ∨ t.handedOut = some (c, x) := by
  rw [post_eq] at h
  by_cases ha : t.applied
  · rw [if_pos ha] at h
    rcases mem_running_exec_iff.mp h with h | h
    · exact .inr (by rw [handedOut, if_pos ha, h])
    · exact .inl h.1
  · rw [if_neg ha] at h
    exact .inl h

theorem handedOut_moves {t : Step} {c x : String} (h : t.handedOut = some (c, x)) :
    x ∈ t.pre.pending c ∧ x ∈ t.post.running c ∧ x ∉ t.post.pending c := by
  unfold handedOut at h
  split at h
  · rename_i ha
    obtain ⟨mc, nowMs, limit, hc, hx⟩ := handsOut_eq_some h
    rw [post_eq, if_pos ha, hc]
    rcases luaDequeueReady_cases t.pre.redis c mc nowMs limit with ⟨hn, _⟩ | ⟨y, hy, hm, hr⟩
    · rw [hn] at hx
      cases hx
    · cases hy.symm.trans hx
      simp only [World.exec, World.onRedis, World.pending, World.running, QueueOp.exec, hr, zsets_handOut]
      refine ⟨hm, ?_, ?_⟩
      · simp
      · simp [pending_ne_running]
  · cases h

end Step

/-- Whatever happens to a call and around it: an id that `dequeue_ready` returns is the one its last step hands out. -/
theorem QueueManager.handedOut_of_returned {q : QueueManager} {c x : String} {steps : List Step}
    (h : Steps (q.dequeueReady c) steps (.ret (some x))) :
    ∃ first t, steps = first ++ [t] ∧ Step.handedOut t = some (c, x) := by
  obtain ⟨refused, first, rest, -, hr, rfl⟩ := Steps.bind_ret h
  cases refused with
  | true => cases hr
  | false =>
    obtain ⟨t, read, last, -, hl, rfl⟩ := Steps.bind_ret hr
    obtain ⟨w, rfl, hx⟩ := steps_await_ret hl
    refine ⟨first ++ read, _, (append_assoc ..).symm, ?_⟩
    simp only [Step.handedOut, Step.applied, Fault.applied, Bool.true_or, if_true, Command.handsOut, Except.ok.inj hx,
      Option.map_some]

end AsyncScheduler
