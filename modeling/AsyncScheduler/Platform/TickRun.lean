import AsyncScheduler.Platform.RebuildRun
import AsyncScheduler.Platform.StuckRun

/-!
# A tick, undisturbed

The three phases run together, but phase 2 neither reads nor writes what the other two write: the
callback and the transaction keys.
-/

namespace AsyncScheduler
open String Redis Prog

def isBookkeeping (k : String) : Bool :=
  "callback:".toList.isPrefixOf k.toList || "tx:".toList.isPrefixOf k.toList

section
variable (x c : String)

theorem bookkeeping_callback : isBookkeeping ("callback:" ++ x) = true := by
  simp [isBookkeeping, toList_append]

theorem bookkeeping_callbackRetry : isBookkeeping QueueKeys.callbackRetry = true :=
  bookkeeping_callback "retry:pending"

theorem bookkeeping_retryPayloadKey : isBookkeeping (retryPayloadKey x) = true := by
  have hk : retryPayloadKey x = "callback:" ++ ("retry:payload:" ++ x) := by
    rw [← append_assoc]
    rfl
  rw [hk]
  exact bookkeeping_callback _

theorem bookkeeping_txKey : isBookkeeping (txKey x) = true := by
  simp [isBookkeeping, txKey, toList_append, List.isPrefixOf]

theorem shown_taskKey : isBookkeeping (taskKey x) = false := by
  simp [isBookkeeping, taskKey, toList_append, List.isPrefixOf]

theorem shown_lockKey : isBookkeeping (lockKey x) = false := by
  simp [isBookkeeping, lockKey, toList_append, List.isPrefixOf]

theorem shown_dedupKey : isBookkeeping (requeueDedupKey x) = false := by
  simp [isBookkeeping, requeueDedupKey, toList_append, List.isPrefixOf]

theorem shown_breaker : isBookkeeping (breakerPrefix ++ x) = false := by
  simp [isBookkeeping, breakerPrefix, toList_append, List.isPrefixOf]

theorem shown_pending : isBookkeeping (QueueKeys.pending c) = false := by
  simp [isBookkeeping, QueueKeys.pending, toList_append, List.isPrefixOf]

end

section Scripts
variable (r : Store) (c x : String)

theorem incr_hide {k : String} (hk : isBookkeeping k = false) :
    incr (r.hide isBookkeeping) k = (incr r k).map fun e => (e.1, e.2.hide isBookkeeping) := by
  unfold incr
  rw [strings_hide _ r hk]
  split
  · rw [← hide_set _ r hk]
    rfl
  · simp only [Option.map_some, Redis.hide, update_hide _ _ _ _ hk]
  · rfl

theorem luaCheckState_hide (halfOpenMax : Int) : luaCheckState c halfOpenMax (r.hide isBookkeeping) =
      ((luaCheckState c halfOpenMax r).1, (luaCheckState c halfOpenMax r).2.hide isBookkeeping) := by
  have hs : isBookkeeping (breakerStateKey c) = false := by
    rw [breakerStateKey, append_assoc, append_assoc]
    exact shown_breaker _
  have ha : isBookkeeping (breakerHalfOpenKey c) = false := by
    rw [breakerHalfOpenKey, append_assoc, append_assoc]
    exact shown_breaker _
  have hp (n : Int) : luaCheckState.probe halfOpenMax (r.hide isBookkeeping) (breakerHalfOpenKey c) n =
      ((luaCheckState.probe halfOpenMax r (breakerHalfOpenKey c) n).1,
        (luaCheckState.probe halfOpenMax r (breakerHalfOpenKey c) n).2.hide isBookkeeping) := by
    unfold luaCheckState.probe
    rw [incr_hide r ha]
    split
    · rfl
    · cases incr r (breakerHalfOpenKey c) with
      | none => rfl
      | some e => exact Prod.ext rfl (hide_expire _ e.2 ha 120).symm
  have hb : breakerState c (r.hide isBookkeeping) = breakerState c r := by
    unfold breakerState
    rw [get_hide _ r hs]
  unfold luaCheckState
  dsimp only
  rw [hb, get_hide _ r ha]
  split
  · rfl
  · rfl
  · split
    · exact hp _
    · exact hp _
    · rfl

theorem luaEnqueue_hide (score : ℚ) (depth ttl : Int) :
    luaEnqueue c x score depth ttl (r.hide isBookkeeping) =
      ((luaEnqueue c x score depth ttl r).1, (luaEnqueue c x score depth ttl r).2.hide isBookkeeping) := by
  have hp := shown_pending c
  have hz (r : Store) : refreshZset (QueueKeys.pending c) ttl (r.hide isBookkeeping) =
      (refreshZset (QueueKeys.pending c) ttl r).hide isBookkeeping := by
    unfold refreshZset
    rw [zttl_hide _ r hp]
    split
    · exact (hide_zexpireIn _ r hp _).symm
    · rfl
  have hh (k : String) (r : Store) : refreshHash k ttl (r.hide isBookkeeping) =
      (refreshHash k ttl r).hide isBookkeeping := by
    have hr : (r.hide isBookkeeping).httl k = r.httl k := rfl
    unfold refreshHash
    rw [hr]
    split
    · exact (hide_hexpireIn _ r k _).symm
    · rfl
  have ha : ((r.hide isBookkeeping).zadd (QueueKeys.pending c) score x).hincrby
        (QueueKeys.stats c) "total_enqueued" 1 =
      ((r.zadd (QueueKeys.pending c) score x).hincrby (QueueKeys.stats c) "total_enqueued" 1).hide isBookkeeping := by
    rw [← hide_zadd _ r hp]
    rfl
  have hget (k f : String) : (r.hide isBookkeeping).hget k f = r.hget k f := rfl
  unfold luaEnqueue
  dsimp only
  rw [hget, zcard_hide _ r hp, ha]
  split
  · rfl
  · rw [hz, hh, hh, zcard_hide _ _ hp]

theorem hide_keyOp {k : String} (hk : isBookkeeping k = false) (op : KeyOp) :
    (op.exec k r).hide isBookkeeping = op.exec k (r.hide isBookkeeping) := by
  cases op with
  | set v ex => exact hide_set _ r hk v ex
  | setNx v ex =>
    simp only [KeyOp.exec, Redis.setNx, existsKey_hide _ r hk]
    split
    · rfl
    · exact hide_set _ r hk v _
  | renew v seconds =>
    simp only [KeyOp.exec, luaRenew, get_hide _ r hk]
    split
    · exact hide_expire _ r hk seconds
    · rfl
  | release v =>
    simp only [KeyOp.exec, luaLockRelease, get_hide _ r hk]
    split
    · exact hide_del _ r hk
    · rfl
  | del => exact hide_del _ r hk

theorem hide_keyOp_hidden {k : String} (hk : isBookkeeping k = true) (op : KeyOp) :
    (op.exec k r).hide isBookkeeping = r.hide isBookkeeping := by
  cases op with
  | set v ex => exact hide_set_hidden _ r hk v ex
  | setNx v ex =>
    simp only [KeyOp.exec, Redis.setNx]
    split
    · rfl
    · exact hide_set_hidden _ r hk v _
  | renew v seconds =>
    simp only [KeyOp.exec, luaRenew]
    split
    · exact hide_expire_hidden _ r hk seconds
    · rfl
  | release v =>
    simp only [KeyOp.exec, luaLockRelease]
    split
    · exact hide_del_hidden _ r hk
    · rfl
  | del => exact hide_del_hidden _ r hk

theorem hide_runKeys {ops : List (String × KeyOp)} (ho : ∀ op ∈ ops, isBookkeeping op.1 = false) :
    (World.runKeys r ops).hide isBookkeeping = World.runKeys (r.hide isBookkeeping) ops := by
  induction ops generalizing r with
  | nil => rfl
  | cons op ops ih =>
    have hh := hide_keyOp r (ho op List.mem_cons_self) op.2
    change (World.runKeys (op.2.exec op.1 r) ops).hide isBookkeeping =
      World.runKeys (op.2.exec op.1 (r.hide isBookkeeping)) ops
    rw [← hh]
    exact ih _ fun op' hop' => ho op' (List.mem_cons_of_mem _ hop')

end Scripts

def World.shown (w : World) : World := w.onRedis (Redis.hide isBookkeeping)

abbrev OnShown {α : Type} (p : Py α) : Prop := Confined Command.apply .ok World.shown p

section
variable {α : Type}

theorem onShown_await {c : Command} {reply : World → Except PyErr α} (hr : ∀ w : World, reply w.shown = reply w)
    (he : ∀ w : World, (w.exec c).shown = w.shown.exec c) : OnShown (await c reply) := by
  intro w
  refine ⟨?_, he w, ?_⟩
  · simp only [hr]
  · dsimp only
    split <;> trivial

theorem onShown_query {f : World → α} (hf : ∀ w : World, f w.shown = f w) : OnShown (query f) :=
  onShown_await (fun w => congrArg Except.ok (hf w)) fun _ => rfl

theorem onShown_perform {c : Command} (he : ∀ w : World, (w.exec c).shown = w.shown.exec c) :
    OnShown (perform c) := onShown_await (fun _ => rfl) he

theorem onShown_time : OnShown time := fun _ => ⟨rfl, rfl, trivial⟩

theorem onShown_exceptException {p : Py α} {h : PyErr → Py α} (hp : OnShown p) (hh : ∀ e, OnShown (h e)) :
    OnShown (exceptException p h) := by
  refine hp.handle fun e => ?_
  split
  · exact hh e
  · trivial

theorem onShown_session {body : Py α} (hb : OnShown body) : OnShown (session body) := by
  have hp : OnShown (query fun _ => ()) := onShown_query fun _ => rfl
  refine Confined.ensure (onShown_exceptException ?_ fun e => ?_) fun _ => hp
  · exact hb.bind fun a => hp.bind fun _ => trivial
  · exact hp.bind fun _ => trivial

theorem shown_commit (w : World) (writes : List DbWrite) :
    (w.exec (.commit writes)).shown = w.shown.exec (.commit writes) := by
  have hc : w.shown.db.commit w.shown.redis.clock writes = w.db.commit w.redis.clock writes := rfl
  simp only [World.exec, hc]
  cases w.db.commit w.redis.clock writes <;> rfl

theorem shown_keys (w : World) {ops : List (String × KeyOp)} (ho : ∀ op ∈ ops, isBookkeeping op.1 = false) :
    (w.exec (.keys ops)).shown = w.shown.exec (.keys ops) :=
  congrArg (World.mk · w.db w.activeTasks w.permits) (hide_runKeys w.redis ho)

end

namespace QueueManager
variable (q : QueueManager) (c x : String)

theorem onShown_refused : OnShown (q.refused c) := by
  unfold refused
  split
  · trivial
  · rename_i cb _
    refine Confined.bind (Confined.bind (onShown_await ?_ ?_) fun _ => trivial) fun _ => trivial
    · intro w
      have hr := congrArg Prod.fst (luaCheckState_hide w.redis c cb.halfOpenMax)
      exact hr
    · intro w
      exact congrArg (World.mk · w.db w.activeTasks w.permits)
        (congrArg Prod.snd (luaCheckState_hide w.redis c cb.halfOpenMax)).symm

theorem onShown_enqueue (priority : Int) (after : ℚ) : OnShown (q.enqueue c x priority after) := by
  unfold enqueue
  refine (q.onShown_refused c).bind fun refused => ?_
  split
  · trivial
  · refine onShown_time.bind fun t => ?_
    refine Confined.bind (onShown_await ?_ ?_) fun reply => ?_
    · intro w
      exact congrArg (fun e => Except.ok e.1) (luaEnqueue_hide w.redis c x _ q.defaultDepth q.ttl)
    · intro w
      exact congrArg (World.mk · w.db w.activeTasks w.permits)
        (congrArg Prod.snd (luaEnqueue_hide w.redis c x _ q.defaultDepth q.ttl)).symm
    · dsimp only
      split
      · trivial
      · exact (onShown_perform fun _ => rfl).bind fun _ => trivial

end QueueManager

namespace TaskReconciler
variable (rc : TaskReconciler)

theorem onShown_selectStuck (now : ℚ) (locked : List (TaskDoc × Bool)) (n : Nat) (requeue : List RequeueInfo)
    (fail : List String) : OnShown (rc.selectStuck now locked n requeue fail) := by
  induction locked generalizing n requeue fail with
  | nil => trivial
  | cons e rest ih =>
    obtain ⟨t, lockExists⟩ := e
    unfold selectStuck
    split
    · trivial
    split
    · exact ih _ _ _
    refine Confined.bind (onShown_await ?_ fun w => shown_keys w ?_) fun fresh => ?_
    · intro w
      exact congrArg (fun b => Except.ok !b) (existsKey_hide _ w.redis (shown_dedupKey t.idText))
    · intro op hop
      obtain rfl := List.mem_singleton.mp hop
      exact shown_dedupKey _
    · split
      · exact ih _ _ _
      · split <;> exact ih _ _ _

theorem onShown_bumpAttempts (requeue : List RequeueInfo) : OnShown (rc.bumpAttempts requeue) := by
  unfold bumpAttempts
  split
  · refine onShown_exceptException (onShown_session ?_) fun _ => trivial
    exact (onShown_query fun _ => rfl).bind fun _ => onShown_await (fun _ => rfl) fun w => shown_commit w _
  · trivial

theorem onShown_requeueOne (q : QueueManager) (nowMs : Int) (info : RequeueInfo) :
    OnShown (requeueOne q nowMs info) := by
  unfold requeueOne
  split
  · trivial
  · exact (q.onShown_enqueue _ _ _ _).bind fun _ => trivial

theorem onShown_failTasks (fail : List String) : OnShown (failTasks fail) := by
  unfold failTasks
  split
  · trivial
  · refine Confined.bind (onShown_query fun w => ?_) fun raws => onShown_perform fun w => shown_keys w fun op hop => ?_
    · refine List.map_congr_left fun id _ => ?_
      exact congrArg (fun v => (id, Option.bind v Blob.taskDoc)) (get_hide _ w.redis (shown_taskKey id))
    · obtain ⟨e, _, he⟩ := List.mem_filterMap.mp hop
      obtain ⟨t, _, rfl⟩ := Option.map_eq_some_iff.mp he
      exact shown_taskKey _

theorem onShown_recover (requeue : List RequeueInfo) (fail : List String) : OnShown (rc.recover requeue fail) := by
  refine (rc.onShown_bumpAttempts requeue).bind fun _ => onShown_time.bind fun t => ?_
  split
  · exact (Confined.forEach (onShown_requeueOne _ _) requeue).bind fun _ => onShown_failTasks fail
  · exact onShown_failTasks fail

theorem onShown_phase2 (batch : List TaskDoc) : OnShown (rc.phase2StuckRecovery batch) := by
  rw [phase2_eq]
  split
  · trivial
  · refine onShown_time.bind fun now => Confined.bind (onShown_query fun w => ?_) fun locked =>
      (rc.onShown_selectStuck now locked 0 [] []).bind fun decision => rc.onShown_recover _ _
    refine List.map_congr_left fun t _ => ?_
    exact congrArg (Prod.mk t) (existsKey_hide _ w.redis (shown_lockKey t.idText))

theorem exec_phase1 (w : World) (ts : List TaskDoc) :
    w.exec (.commit (ts.map fun t => .insertTask (phase1Record t))) = w := by
  cases ts with
  | nil => rfl
  | cons t ts => rfl

theorem sideScope_invisible : SideScope (Invisible Command.apply .ok World.shown) where
  read := fun _ => rfl
  repair := fun ts w => congrArg World.shown (exec_phase1 w ts)
  transaction := fun id op _ w => congrArg (World.mk · w.db w.activeTasks w.permits)
    (hide_keyOp_hidden w.redis (bookkeeping_txKey id) op)
  callback := by
    intro id score event w
    refine congrArg (World.mk · w.db w.activeTasks w.permits) ?_
    exact (hide_set_hidden _ _ (bookkeeping_retryPayloadKey id) _ _).trans
      (hide_zadd_hidden _ _ bookkeeping_callbackRetry _ _)

theorem shown_phases (batch : List TaskDoc) (schedule : List Nat) (w : World) :
    ((Prog.gather Fault.interrupt schedule
      [rc.phase1DoubleWrite batch, rc.phase2StuckRecovery batch, phase3LostCallback batch]).runWith
        Command.apply .ok w).2.shown = (rc.repaired batch w).shown := by
  rw [← world_phase2]
  refine Confined.gather rfl (k := 1) rfl (rc.onShown_phase2 batch) ?_ schedule w
  intro j p hj hp
  match j, hp with
  | 0, hp =>
    cases hp
    exact issues_phase1DoubleWrite sideScope_invisible batch
  | 2, hp =>
    cases hp
    exact issues_phase3LostCallback sideScope_invisible batch

def Leads (r : Store) : Prop :=
  r.existsKey reconcileLeaderKey = false ∨ r.get reconcileLeaderKey = some (.text rc.instanceId)

instance (r : Store) : Decidable (rc.Leads r) := inferInstanceAs (Decidable (_ ∨ _))

def elected (r : Store) : Store :=
  if r.existsKey reconcileLeaderKey then (luaRenew reconcileLeaderKey (.text rc.instanceId) rc.leaderTtl r).2
  else r.set reconcileLeaderKey (.text rc.instanceId) (some rc.leaderTtl)

theorem edits_elected (r : Store) : Edits [reconcileLeaderKey] r (rc.elected r) := by
  unfold elected luaRenew
  split
  · split
    · exact .expire _ List.mem_cons_self .refl
    · exact .refl
  · exact .setText _ _ List.mem_cons_self .refl

theorem runWith_tryBecomeLeader (w : World) :
    rc.tryBecomeLeader.runWith Command.apply .ok w = (.ok (decide (rc.Leads w.redis)), w.onRedis rc.elected) := by
  unfold tryBecomeLeader elected Leads World.onRedis
  rw [bind_eq, runWith_bind, runWith_await, exec_setNx]
  by_cases hf : w.redis.existsKey reconcileLeaderKey = true
  · simp only [hf, Bool.not_true, if_true, Bool.false_eq_true, if_false, runWith_await, Bool.true_eq_false,
      false_or, luaRenew]
    by_cases hown : w.redis.get reconcileLeaderKey = some (.text rc.instanceId)
    · simp [hown, World.exec, World.onRedis, World.runKeys, KeyOp.exec, luaRenew]
    · simp [hown, World.exec, World.onRedis, World.runKeys, KeyOp.exec, luaRenew]
  · simp [hf, World.onRedis]

/-- The state in which a leader scans: elected, and rebuilt from the database. -/
def prepared (w : World) : World :=
  if rc.hasDb then w.onRedis fun r => w.db.tasks.rows.foldl rebuilt (rc.elected r) else w.onRedis rc.elected

def scannedBatch (scanned : List String) (r : Store) : List TaskDoc :=
  scanned.filterMap fun id => (r.get (taskKey id)).bind Blob.taskDoc

theorem runWith_scanTaskBatch (scanned : List String) (w : World) :
    (scanTaskBatch scanned).runWith Command.apply .ok w = (.ok (scannedBatch scanned w.redis), w) := by
  have hk : (exceptException (query fun _ => scanned) fun _ => pure []).runWith Command.apply .ok w =
      (.ok scanned, w) := by
    rw [runWith_exceptException, runWith_query]
  unfold scanTaskBatch
  rw [bind_eq, runWith_bind_ok hk]
  split
  · rename_i he
    rw [he]
    rfl
  · exact runWith_query w _

theorem repaired_nil (w : World) : rc.repaired [] w = w := repaired_of_no_candidate rfl w

theorem shown_tick (scanned : List String) (schedule : List Nat) (w : World) :
    ((rc.tick scanned schedule).runWith Command.apply .ok w).2.shown =
      if rc.Leads w.redis then
        (rc.repaired (scannedBatch scanned (rc.prepared w).redis) (rc.prepared w)).shown
      else (w.onRedis rc.elected).shown := by
  have hp : rc.rebuildRedisFromMysql.runWith Command.apply .ok (w.onRedis rc.elected) =
      (.ok (), rc.prepared w) := by
    rw [runWith_rebuild]
    unfold prepared
    split <;> rfl
  unfold tick
  rw [bind_eq, runWith_bind_ok (rc.runWith_tryBecomeLeader w)]
  by_cases hl : rc.Leads w.redis
  · rw [if_pos hl, decide_eq_true hl, if_pos rfl, bind_eq, runWith_bind_ok hp, bind_eq,
      runWith_bind_ok (runWith_scanTaskBatch scanned _)]
    split
    · rename_i he
      rw [he, repaired_nil]
      rfl
    · rw [← rc.shown_phases _ schedule, runWith_void]
  · rw [if_neg hl, decide_eq_false hl]
    rfl

end TaskReconciler

section
variable {w w' : World} (h : w.shown = w'.shown)
include h

theorem get_of_shown {k : String} (hk : isBookkeeping k = false) : w.redis.get k = w'.redis.get k := by
  have hget := congrArg (fun v : World => v.redis.get k) h
  rwa [show w.shown.redis.get k = w.redis.get k from get_hide _ _ hk,
    show w'.shown.redis.get k = w'.redis.get k from get_hide _ _ hk] at hget

theorem db_of_shown : w.db = w'.db := by
  have hdb := congrArg (fun v : World => v.db) h
  exact hdb

theorem zscore_of_shown (c x : String) :
    w.redis.zscore (QueueKeys.pending c) x = w'.redis.zscore (QueueKeys.pending c) x := by
  have hz := congrArg (fun v : World => v.redis.zsets (QueueKeys.pending c)) h
  rw [show w.shown.redis.zsets _ = w.redis.zsets _ from zsets_hide _ _ (shown_pending c),
    show w'.shown.redis.zsets _ = w'.redis.zsets _ from zsets_hide _ _ (shown_pending c)] at hz
  exact congrArg (SortedSet.score · x) hz

end

def World.Keyed (w : World) : Prop := ∀ x d, w.redis.get (taskKey x) = some (.task d) → d.idText = x

theorem World.Keyed.set {w : World} (h : w.Keyed) {x : String} {d : TaskDoc} (hn : d.idText = x) (ex : Option ℚ) :
    (w.onRedis (·.set (taskKey x) (.task d) ex)).Keyed := by
  intro y e hy
  unfold World.onRedis Redis.get at hy
  rw [Redis.strings_set] at hy
  by_cases hk : taskKey y = taskKey x
  · rw [if_pos hk] at hy
    cases hy
    rw [hn, taskKey_eq_taskKey.mp hk]
  · rw [if_neg hk] at hy
    exact h y e hy

def World.cachedStatus (w : World) (x : String) : Option String :=
  ((w.redis.get (taskKey x)).bind Blob.taskDoc).bind TaskDoc.status

theorem taskDoc_eq_some {v : Option Blob} {d : TaskDoc} : v.bind Blob.taskDoc = some d ↔ v = some (.task d) := by
  constructor
  · intro h
    obtain ⟨b, rfl, hb⟩ := Option.bind_eq_some_iff.mp h
    cases b with
    | task doc =>
      cases hb
      rfl
    | _ => cases hb
  · rintro rfl
    rfl

namespace TaskReconciler

section
variable (rc : TaskReconciler) (w : World)

theorem db_prepared : (rc.prepared w).db = w.db := by
  unfold prepared
  split <;> rfl

theorem clock_prepared : (rc.prepared w).redis.clock = w.redis.clock := by
  have he := Redis.clock_of_sorted (rc.edits_elected w.redis).sorted
  unfold prepared
  split
  · exact (clock_foldl_rebuilt _ _).trans he
  · exact he

theorem strings_prepared_of_ne {k : String} (hk : ∀ x, k ≠ taskKey x) (hl : k ≠ reconcileLeaderKey) :
    (rc.prepared w).redis.strings k = w.redis.strings k := by
  have he : (rc.elected w.redis).strings k = w.redis.strings k :=
    (rc.edits_elected w.redis).strings (by simpa using hl)
  unfold prepared
  split
  · exact (strings_foldl_of_ne _ _ fun x _ => hk x).trans he
  · exact he

variable {w}

theorem get_elected (x : String) : (rc.elected w.redis).get (taskKey x) = w.redis.get (taskKey x) := by
  unfold Redis.get
  rw [(rc.edits_elected w.redis).strings (by simpa using taskKey_ne_leaderKey x)]

theorem get_prepared_of_truthy {x : String} (h : Blob.truthy (w.redis.get (taskKey x)) = true) :
    (rc.prepared w).redis.get (taskKey x) = w.redis.get (taskKey x) := by
  have he := rc.get_elected (w := w) x
  unfold prepared
  split
  · refine (congrArg (Option.map Prod.fst) (strings_foldl_of_truthy _ (rc.elected w.redis) ?_)).trans he
    rwa [he]
  · exact he

theorem get_prepared_of_missing {x : String} {row : TaskRecord} (hdb : rc.hasDb = true) (hx : x ≠ "")
    (hr : w.db.tasks.find x = some row) (h : Blob.truthy (w.redis.get (taskKey x)) = false) :
    (rc.prepared w).redis.get (taskKey x) = some (.task row.payload) := by
  have hf : w.db.tasks.rows.find? (fun r => decide (r.taskId = x)) = some row := hr
  have hs := strings_foldl_of_missing w.db.tasks.rows (rc.elected w.redis) hx (by rwa [rc.get_elected x])
  rw [hf] at hs
  unfold prepared
  rw [if_pos hdb]
  exact congrArg (Option.map Prod.fst) hs

theorem get_prepared_eq_task {x : String} {d : TaskDoc} (h : (rc.prepared w).redis.get (taskKey x) = some (.task d)) :
    w.redis.get (taskKey x) = some (.task d) ∨ d.idText = x := by
  rw [← rc.get_elected x]
  unfold prepared at h
  split at h
  · exact get_foldl_rebuilt _ _ h
  · exact .inl h

theorem get_prepared_empty : (rc.prepared w).redis.get (taskKey "") = w.redis.get (taskKey "") := by
  have he := rc.get_elected (w := w) ""
  unfold prepared
  split
  · refine (congrArg (Option.map Prod.fst) (strings_foldl_of_ne _ (rc.elected w.redis) ?_)).trans he
    exact fun x hx hk => hx (append_right_inj hk).symm
  · exact he

theorem eligible_prepared {t : TaskDoc} : rc.Eligible (rc.prepared w).redis t ↔ rc.Eligible w.redis t := by
  have hl : (rc.prepared w).redis.existsKey (lockKey t.idText) = w.redis.existsKey (lockKey t.idText) := by
    unfold Redis.existsKey
    rw [rc.strings_prepared_of_ne w (foreign_lockKey t.idText).task (foreign_lockKey t.idText).leader]
  have hm : (rc.prepared w).redis.existsKey (requeueDedupKey t.idText) =
      w.redis.existsKey (requeueDedupKey t.idText) := by
    unfold Redis.existsKey
    rw [rc.strings_prepared_of_ne w (fun x => (taskKey_ne_dedupKey x t.idText).symm)
      (append_ne (q := reconcileLeaderKey) 3 (by decide) (by decide) (by decide) t.idText "")]
  simp only [eligible_iff, Skips, hl, hm, rc.clock_prepared w]

theorem zscore_prepared_of_mem {c x : String} (hx : x ∈ w.pending c) :
    (rc.prepared w).redis.zscore (QueueKeys.pending c) x = w.redis.zscore (QueueKeys.pending c) x := by
  have he : (rc.elected w.redis).zscore (QueueKeys.pending c) x = w.redis.zscore (QueueKeys.pending c) x := by
    unfold Redis.zscore
    rw [Redis.zsets_of_sorted (rc.edits_elected w.redis).sorted]
  unfold prepared
  split
  · refine (zscore_foldl_rebuilt _ _ c x).trans ?_
    rw [if_neg, he]
    rintro ⟨_, ha, _⟩
    rw [he] at ha
    exact (SortedSet.score_eq_none_iff _ _).mp ha hx
  · exact he

end

def ticked (rc : TaskReconciler) (scanned : List String) (schedule : List Nat) (w : World) : World :=
  ((rc.tick scanned schedule).runWith Command.apply .ok w).2

def tickTaken (rc : TaskReconciler) (scanned : List String) (w : World) : List TaskDoc :=
  rc.taken (scannedBatch scanned (rc.prepared w).redis) (rc.prepared w).redis

def TickAdmitted (rc : TaskReconciler) (scanned : List String) (w : World) : Prop :=
  AllAdmitted rc (scannedBatch scanned (rc.prepared w).redis) (rc.prepared w)

instance (rc : TaskReconciler) (scanned : List String) (w : World) : Decidable (rc.TickAdmitted scanned w) :=
  inferInstanceAs (Decidable (AllAdmitted _ _ _))

variable {rc : TaskReconciler} {w : World} {scanned : List String} {x : String}

theorem keyed_prepared (h : w.Keyed) : (rc.prepared w).Keyed := by
  intro x d hd
  rcases rc.get_prepared_eq_task hd with hold | hn
  · exact h x d hold
  · exact hn

theorem get_of_mem_tickTaken {t : TaskDoc} (hk : w.Keyed) (h : t ∈ rc.tickTaken scanned w) :
    (rc.prepared w).redis.get (taskKey t.idText) = some (.task t) ∧ rc.Eligible w.redis t := by
  obtain ⟨hb, he⟩ := eligible_of_mem_taken h
  obtain ⟨id, _, hd⟩ := List.mem_filterMap.mp hb
  have hget := taskDoc_eq_some.mp hd
  rw [keyed_prepared hk id t hget]
  exact ⟨hget, rc.eligible_prepared.mp he⟩

theorem tickTaken_singleton {t : TaskDoc} (hget : (rc.prepared w).redis.get (taskKey x) = some (.task t))
    (h : rc.Eligible w.redis t) : rc.tickTaken [x] w = [t] := by
  have hb : scannedBatch [x] (rc.prepared w).redis = [t] := by
    simp [scannedBatch, hget, Blob.taskDoc]
  unfold tickTaken
  rw [hb]
  exact taken_singleton (rc.eligible_prepared.mpr h)

theorem tickAdmitted_of_none (h : ∀ t ∈ rc.tickTaken scanned w, ¬ rc.Requeues t) : rc.TickAdmitted scanned w := by
  have hi : rc.requeueInfos (rc.tickTaken scanned w) = [] := by
    unfold requeueInfos
    rw [List.filter_eq_nil_iff.mpr fun t ht => by simpa using h t ht]
    rfl
  unfold tickTaken at hi
  unfold TickAdmitted AllAdmitted requeuedBy
  rw [hi]
  cases rc.queueManager <;> rfl

section
variable (scanned : List String) (schedule : List Nat) (x : String)

section Leader
variable (hleads : rc.Leads w.redis)
include hleads

theorem shown_ticked : (rc.ticked scanned schedule w).shown =
    (rc.repaired (scannedBatch scanned (rc.prepared w).redis) (rc.prepared w)).shown :=
  (rc.shown_tick scanned schedule w).trans (if_pos hleads)

theorem get_ticked : (rc.ticked scanned schedule w).redis.get (taskKey x) =
      if rc.TickAdmitted scanned w ∧ x ∈ rc.failIds (rc.tickTaken scanned w) then
        failedValue ((rc.prepared w).redis.get (taskKey x))
      else (rc.prepared w).redis.get (taskKey x) := by
  rw [get_of_shown (shown_ticked scanned schedule hleads) (shown_taskKey x), get_repaired]
  rfl

theorem find_ticked : (rc.ticked scanned schedule w).db.tasks.find x =
      if rc.hasDb = true ∧ ∃ t ∈ rc.tickTaken scanned w, rc.Requeues t ∧ t.idText = x then
        (w.db.tasks.find x).map (·.retried w.redis.clock)
      else w.db.tasks.find x := by
  rw [db_of_shown (shown_ticked scanned schedule hleads), find_repaired, rc.db_prepared, rc.clock_prepared]
  rfl

theorem zscore_ticked (httl : ∀ q, rc.queueManager = some q → 0 < q.ttl) {c : String} (hp : x ∈ w.pending c)
    (h : ∀ t ∈ rc.tickTaken scanned w, t.idText ≠ x) :
    (rc.ticked scanned schedule w).redis.zscore (QueueKeys.pending c) x =
      w.redis.zscore (QueueKeys.pending c) x := by
  rw [zscore_of_shown (shown_ticked scanned schedule hleads)]
  exact (zscore_repaired_of_notMem httl c h).trans (rc.zscore_prepared_of_mem hp)

end Leader

section Other
variable (hother : ¬ rc.Leads w.redis)
include hother

theorem shown_ticked_other : (rc.ticked scanned schedule w).shown = (w.onRedis rc.elected).shown :=
  (rc.shown_tick scanned schedule w).trans (if_neg hother)

theorem get_ticked_other : (rc.ticked scanned schedule w).redis.get (taskKey x) = w.redis.get (taskKey x) :=
  (get_of_shown (shown_ticked_other scanned schedule hother) (shown_taskKey x)).trans (rc.get_elected x)

theorem db_ticked_other : (rc.ticked scanned schedule w).db = w.db :=
  (db_of_shown (shown_ticked_other scanned schedule hother)).trans rfl

theorem zscore_ticked_other (c : String) :
    (rc.ticked scanned schedule w).redis.zscore (QueueKeys.pending c) x =
      w.redis.zscore (QueueKeys.pending c) x := by
  rw [zscore_of_shown (shown_ticked_other scanned schedule hother)]
  have hz := Redis.zsets_of_sorted (rc.edits_elected w.redis).sorted
  exact congrArg (SortedSet.score · x) (congrFun hz (QueueKeys.pending c))

end Other

end

end TaskReconciler

def World.at1000 : World := World.empty.onRedis (·.advance 1000)

def World.tickedAt (w : World) (t : ℚ) (scanned : List String) : World :=
  ((TaskReconciler.plain.tick scanned []).runWith Command.apply .ok (w.exec (.advance t))).2

end AsyncScheduler
