import AsyncScheduler.Platform.Slots

/-!
# The keys of a capability

Queue, slots and circuit breaker of a capability live under nine keys.
-/

namespace AsyncScheduler
open List

open QueueKeys Redis

abbrev KeyFormat := String × String

def KeyFormat.key (f : KeyFormat) (name : String) : String := f.1 ++ name ++ f.2

def KeyFormat.Apart (f g : KeyFormat) : Prop :=
  ¬ (f.1.toList <+: g.1.toList ∨ g.1.toList <+: f.1.toList) ∨ ¬ (f.2.toList <:+ g.2.toList ∨ g.2.toList <:+ f.2.toList)

instance (f g : KeyFormat) : Decidable (f.Apart g) := by
  unfold KeyFormat.Apart
  infer_instance

theorem KeyFormat.Apart.ne {f g : KeyFormat} (h : f.Apart g) (a b : String) : f.key a ≠ g.key b := by
  intro heq
  have hl : f.1.toList ++ a.toList ++ f.2.toList = g.1.toList ++ b.toList ++ g.2.toList := by
    simpa only [KeyFormat.key, String.toList_append] using congrArg String.toList heq
  rcases h with hb | ha
  · have hf : f.1.toList <+: f.1.toList ++ a.toList ++ f.2.toList := ⟨a.toList ++ f.2.toList, (append_assoc ..).symm⟩
    have hg : g.1.toList <+: f.1.toList ++ a.toList ++ f.2.toList :=
      ⟨b.toList ++ g.2.toList, by rw [hl, append_assoc]⟩
    exact hb ( prefix_or_prefix_of_prefix hf hg)
  · have hf : f.2.toList <:+ f.1.toList ++ a.toList ++ f.2.toList := suffix_append ..
    have hg : g.2.toList <:+ f.1.toList ++ a.toList ++ f.2.toList := by
      rw [hl]
      exact suffix_append ..
    exact ha (suffix_or_suffix_of_suffix hf hg)

theorem KeyFormat.key_inj (f : KeyFormat) {a b : String} (h : f.key a = f.key b) : a = b := by
  apply String.toList_inj.mp
  have hl : f.1.toList ++ a.toList ++ f.2.toList = f.1.toList ++ b.toList ++ f.2.toList := by
    simpa only [KeyFormat.key, String.toList_append] using congrArg String.toList h
  exact append_cancel_left (append_cancel_right hl)

def capabilityFormats : List KeyFormat :=
  [("\x7bqueue:", "\x7d:pending"), ("\x7bqueue:", "\x7d:running"), ("\x7bqueue:", "\x7d:stats"),
    ("\x7bqueue:", "\x7d:config"), ("\x7bslot:", "\x7d:running"), ("\x7bslot:", "\x7d:config"),
    ("queue:cb:", ":cb:state"), ("queue:cb:", ":cb:failures"), ("queue:cb:", ":cb:half_open")]

def capabilityKeys (c : String) : List String :=
  [pending c, running c, stats c, config c, slotRunning c, slotConfig c, breakerStateKey c, breakerCountKey c,
    breakerHalfOpenKey c]

theorem capabilityKeys_eq (c : String) : capabilityKeys c = capabilityFormats.map (·.key c) := rfl

def callbackKeys (taskId : String) : List String := [callbackRetry, callbackDone taskId, callbackDlq]

def sharedFormats : List KeyFormat :=
  [("callback:retry:pending", ""), ("callback:done:", ""), ("callback:dlq", ""), ("queue:capabilities:registry", "")]

theorem apart_capabilityFormats : ∀ f ∈ capabilityFormats, ∀ g ∈ capabilityFormats, f = g ∨ f.Apart g := by
  decide +kernel

theorem apart_sharedFormats : ∀ f ∈ capabilityFormats, ∀ g ∈ sharedFormats, f.Apart g := by
  decide +kernel

theorem nodup_capabilityKeys (c : String) : (capabilityKeys c).Nodup := by
  have hfo : capabilityFormats.Nodup := by decide +kernel
  rw [capabilityKeys_eq]
  refine hfo.map_on fun f hf g hg heq => ?_
  rcases apart_capabilityFormats f hf g hg with hs | ha
  · exact hs
  · exact absurd heq (ha.ne c c)

theorem disjoint_capabilityKeys {c c' : String} (h : c ≠ c') : ∀ k ∈ capabilityKeys c, k ∉ capabilityKeys c' := by
  intro k hk hk'
  rw [capabilityKeys_eq] at hk hk'
  obtain ⟨f, hf, rfl⟩ := mem_map.mp hk
  obtain ⟨g, hg, heq⟩ := mem_map.mp hk'
  rcases apart_capabilityFormats g hg f hf with rfl | ha
  · exact h (KeyFormat.key_inj g heq).symm
  · exact ha.ne c' c heq

theorem shared_notMem_capabilityKeys {g : KeyFormat} (hg : g ∈ sharedFormats) (name c : String) :
    g.key name ∉ capabilityKeys c := by
  intro hk
  rw [capabilityKeys_eq] at hk
  obtain ⟨f, hf, heq⟩ := mem_map.mp hk
  exact (apart_sharedFormats f hf g hg).ne c name heq

theorem capabilitiesKey_notMem (c : String) : capabilitiesKey ∉ capabilityKeys c :=
  shared_notMem_capabilityKeys (g := ("queue:capabilities:registry", "")) (by decide) "" c

theorem callbackKeys_notMem (taskId c : String) : ∀ k ∈ callbackKeys taskId, k ∉ capabilityKeys c := by
  intro k hk
  simp only [callbackKeys, mem_cons, not_mem_nil, or_false] at hk
  rcases hk with rfl | rfl | rfl
  · exact shared_notMem_capabilityKeys (g := ("callback:retry:pending", "")) (by decide) "" c
  · have hke : callbackDone taskId = KeyFormat.key ("callback:done:", "") taskId := by
      simp [callbackDone, KeyFormat.key]
    rw [hke]
    exact shared_notMem_capabilityKeys (by decide) taskId c
  · exact shared_notMem_capabilityKeys (g := ("callback:dlq", "")) (by decide) "" c

theorem nodup_callbackKeys (taskId : String) : (callbackKeys taskId).Nodup := by
  have hr : callbackRetry ≠ callbackDone taskId :=
    (append_ne (q := callbackRetry) 9 (by decide) (by decide) (by decide) taskId "").symm
  have hd : callbackDone taskId ≠ callbackDlq :=
    append_ne (q := callbackDlq) 10 (by decide) (by decide) (by decide) taskId ""
  have hs : callbackRetry ≠ callbackDlq := by decide
  simp [callbackKeys, hr, hd, hs]

theorem nodup_keys (c taskId : String) : (capabilityKeys c ++ callbackKeys taskId).Nodup :=
  nodup_append.mpr ⟨nodup_capabilityKeys c, nodup_callbackKeys taskId, fun _ hk _ hk' heq =>
    callbackKeys_notMem taskId c _ hk' (heq ▸ hk)⟩

def Own (c k : String) : Prop := k ∈ capabilityKeys c

section Scripts
variable {c : String}

theorem own_pending : Own c (pending c) := by simp [Own, capabilityKeys]

theorem own_running : Own c (running c) := by simp [Own, capabilityKeys]

theorem own_stats : Own c (stats c) := by simp [Own, capabilityKeys]

theorem own_config : Own c (config c) := by simp [Own, capabilityKeys]

theorem own_slotRunning : Own c (slotRunning c) := by simp [Own, capabilityKeys]

theorem own_slotConfig : Own c (slotConfig c) := by simp [Own, capabilityKeys]

theorem own_breakerState : Own c (breakerStateKey c) := by simp [Own, capabilityKeys]

theorem own_breakerCount : Own c (breakerCountKey c) := by simp [Own, capabilityKeys]

theorem own_breakerHalfOpen : Own c (breakerHalfOpenKey c) := by simp [Own, capabilityKeys]

theorem actsAt_refreshZset (k : String) (ttl : Int) : ActsAt k (refreshZset k ttl) :=
  ActsAt.ite (c := fun t x => needsRefresh (if x.zset.card = 0 then -2 else ttlReply t x.zexpire) ttl = true)
    (actsAt_zexpireIn k ttl) (actsAt_id k)

theorem actsAt_refreshHash (k : String) (ttl : Int) : ActsAt k (refreshHash k ttl) :=
  ActsAt.ite (c := fun t x => needsRefresh (if x.hash.isEmpty then -2 else ttlReply t x.hexpire) ttl = true)
    (actsAt_hexpireIn k ttl) (actsAt_id k)

theorem keeps_id : Preserves (Own c) (id : Store → Store) := ⟨fun _ _ h => h, fun r => SameAt.refl r⟩

theorem within_luaEnqueue (x : String) (score : ℚ) (depth ttl : Int) :
    Within (Own c) (luaEnqueue c x score depth ttl) := by
  have hl : ∀ r r' : Store, SameAt (Own c) r r' →
      (effectiveLimit (r.hget (config c) "max_queue_depth") depth, r.zcard (pending c)) =
        (effectiveLimit (r'.hget (config c) "max_queue_depth") depth, r'.zcard (pending c)) := by
    intro r r' h
    rw [h.hget own_config, h.zcard own_pending]
  have hc : Preserves (Own c) fun r : Store =>
      (r.zadd (pending c) score x).hincrby (stats c) "total_enqueued" 1 :=
    ((actsAt_hincrby _ _ _).keeps own_stats).comp ((actsAt_zadd _ _ _).keeps own_pending)
  have hr : Preserves (Own c) fun r : Store =>
      refreshHash (config c) ttl (refreshHash (stats c) ttl (refreshZset (pending c) ttl r)) :=
    ((actsAt_refreshHash _ _).keeps own_config).comp
      (((actsAt_refreshHash _ _).keeps own_stats).comp ((actsAt_refreshZset _ _).keeps own_pending))
  refine Within.read _ hl (f := fun p r =>
    if p.1 ≤ p.2 then (((-1 : Int), p.2), r)
    else
      let r₂ := (r.zadd (pending c) score x).hincrby (stats c) "total_enqueued" 1
      (((p.2 + 1 : Int), r₂.zcard (pending c)),
        refreshHash (config c) ttl (refreshHash (stats c) ttl (refreshZset (pending c) ttl r₂)))) fun p => ?_
  by_cases hf : p.1 ≤ p.2
  · simp only [if_pos hf]
    exact Within.answer _
  · simp only [if_neg hf]
    refine Within.reply _ (fun r r' h => ?_) (hr.comp hc)
    rw [(hc.same r r' h).zcard own_pending]

/-- The rest of `dequeue_ready` once the first ready task is known. -/
def handed (c : String) (nowMs : Int) (ready : Option String) (r : Store) : Option String × Store :=
  match ready with
  | none => (none, r)
  | some tid =>
    (some tid, ((r.zrem (pending c) tid).zadd (running c) nowMs tid).hincrby (stats c) "total_dequeued" 1)

theorem within_luaDequeueReady (mc nowMs limit : Int) : Within (Own c) (luaDequeueReady c mc nowMs limit) := by
  have hr : ∀ r r' : Store, SameAt (Own c) r r' →
      (effectiveLimit (r.hget (config c) "max_concurrent") mc, r.zcard (running c), firstReady c nowMs limit r) =
        (effectiveLimit (r'.hget (config c) "max_concurrent") mc, r'.zcard (running c), firstReady c nowMs limit r') := by
    intro r r' h
    rw [h.hget own_config, h.zcard own_running, firstReady, firstReady, h.zrangeAll own_pending]
  refine Within.read _ hr (f := fun p r =>
    if p.1 ≤ p.2.1 then (none, r) else handed c nowMs p.2.2 r) fun p => ?_
  obtain ⟨maxConcurrent, cnt, ready⟩ := p
  by_cases hf : maxConcurrent ≤ cnt
  · simp only [if_pos hf]
    exact Within.answer _
  · simp only [if_neg hf]
    unfold handed
    cases ready with
    | none => exact Within.answer _
    | some tid =>
      exact Within.reply _ (fun _ _ _ => rfl) (((actsAt_hincrby _ _ _).keeps own_stats).comp
        (((actsAt_zadd _ _ _).keeps own_running).comp ((actsAt_zrem _ _).keeps own_pending)))

theorem within_luaCancel (x : String) : Within (Own c) (luaCancel c x) := by
  have hr : ∀ r r' : Store, SameAt (Own c) r r' →
      (decide (x ∈ r.zsets (pending c)), decide (x ∈ r.zsets (running c))) =
        (decide (x ∈ r'.zsets (pending c)), decide (x ∈ r'.zsets (running c))) := by
    intro r r' h
    rw [h.zsets own_pending, h.zsets own_running]
  have hs : luaCancel c x = fun r : Store =>
      let p := (decide (x ∈ r.zsets (pending c)), decide (x ∈ r.zsets (running c)))
      if p.1 = true then (true, r.zrem (pending c) x) else (p.2, r.zrem (running c) x) := by
    funext r
    simp [luaCancel]
  rw [hs]
  refine Within.read _ hr (f := fun p r =>
    if p.1 = true then (true, r.zrem (pending c) x) else (p.2, r.zrem (running c) x)) fun p => ?_
  by_cases hp : p.1 = true
  · simp only [if_pos hp]
    exact Within.reply _ (fun _ _ _ => rfl) ((actsAt_zrem _ _).keeps own_pending)
  · simp only [if_neg hp]
    exact Within.reply _ (fun _ _ _ => rfl) ((actsAt_zrem _ _).keeps own_running)

theorem keeps_luaComplete (x counter : String) : Preserves (Own c) (luaComplete c x counter) :=
  ((actsAt_hincrby _ _ _).keeps own_stats).comp ((actsAt_zrem _ _).keeps own_running)

theorem keeps_hset {k : String} (hk : Own c k) (f : String) (v : HashValue) :
    Preserves (Own c) fun r : Store => r.hset k f v :=
  (actsAt_hset k f (fun _ => v) ⟨fun _ => v, fun _ => rfl⟩).keeps hk

theorem within_luaAdjustConcurrent (slot : Bool) (delta defaultVal : Int) :
    Within (Own c) (luaAdjustConcurrent (adjustedConfig c slot) delta defaultVal) := by
  have hk : Own c (adjustedConfig c slot) := by
    cases slot with
    | true => exact own_slotConfig
    | false => exact own_config
  refine Within.read (fun r : Store => max 1 (numberOr (r.hget (adjustedConfig c slot) "max_concurrent") defaultVal + delta))
    (fun r r' h => ?_) (f := fun v r => (integerReply v, r.hset (adjustedConfig c slot) "max_concurrent" (.num v)))
    fun v => ?_
  · rw [h.hget hk]
  · exact Within.reply _ (fun _ _ _ => rfl) (keeps_hset hk _ _)

theorem within_luaRecoverConcurrent (defaultBaseline : Int) :
    Within (Own c) (luaRecoverConcurrent (config c) defaultBaseline) := by
  have hr : ∀ r r' : Store, SameAt (Own c) r r' →
      (r.hget (config c) "max_concurrent_baseline", r.hget (config c) "max_concurrent") =
        (r'.hget (config c) "max_concurrent_baseline", r'.hget (config c) "max_concurrent") := by
    intro r r' h
    rw [h.hget own_config, h.hget own_config]
  refine Within.read _ hr (f := fun p r =>
    let baseline := numberOr p.1 defaultBaseline
    let cur := numberOr p.2 baseline
    if cur < baseline then
      (integerReply (cur + 1), r.hset (config c) "max_concurrent" (.num (cur + 1)))
    else (integerReply cur, r)) fun p => ?_
  by_cases hl : numberOr p.2 (numberOr p.1 defaultBaseline) < numberOr p.1 defaultBaseline
  · simp only [if_pos hl]
    exact Within.reply _ (fun _ _ _ => rfl) (keeps_hset own_config _ _)
  · simp only [if_neg hl]
    exact Within.answer _

theorem within_luaAcquireSlot (slotId : String) (mc nowTs ttl : Int) :
    Within (Own c) (luaAcquireSlot c slotId mc nowTs ttl) := by
  have ha : Preserves (Own c) fun r : Store => r.zadd (slotRunning c) nowTs slotId :=
    (actsAt_zadd _ _ _).keeps own_slotRunning
  have hre : ∀ r r' : Store, SameAt (Own c) r r' →
      (numberOr (r.hget (slotConfig c) "max_concurrent") mc, r.zcard (slotRunning c),
          (r.zadd (slotRunning c) nowTs slotId).zttl (slotRunning c)) =
        (numberOr (r'.hget (slotConfig c) "max_concurrent") mc, r'.zcard (slotRunning c),
          (r'.zadd (slotRunning c) nowTs slotId).zttl (slotRunning c)) := by
    intro r r' h
    rw [h.hget own_slotConfig, h.zcard own_slotRunning, (ha.same r r' h).zttl own_slotRunning]
  refine Within.read _ hre (f := fun p r =>
    if p.1 ≤ p.2.1 then (-1, r)
    else if needsRefresh p.2.2 ttl then
      (1, ((r.zadd (slotRunning c) nowTs slotId).zexpireIn (slotRunning c) ttl).hexpireIn (slotConfig c) ttl)
    else (1, r.zadd (slotRunning c) nowTs slotId)) fun p => ?_
  by_cases hf : p.1 ≤ p.2.1
  · simp only [if_pos hf]
    exact Within.answer _
  by_cases hr : needsRefresh p.2.2 ttl = true
  · simp only [if_neg hf, if_pos hr]
    exact Within.reply _ (fun _ _ _ => rfl) (((actsAt_hexpireIn _ _).keeps own_slotConfig).comp
      (((actsAt_zexpireIn _ _).keeps own_slotRunning).comp ha))
  · simp only [if_neg hf, if_neg hr]
    exact Within.reply _ (fun _ _ _ => rfl) ha

/-! The counters of the circuit breaker. -/

/-- `INCR` as a script of its own. -/
def tryIncr (k : String) (r : Store) : Option Int × Store :=
  match incr r k with
  | none => (none, r)
  | some (n, r') => (some n, r')

/-- What `INCR` does by what it finds. -/
def increased (k : String) (stored : Option (Blob × Option ℚ)) (r : Store) : Option Int × Store :=
  match stored with
  | none => (some 1, r.set k (.num 1) none)
  | some (.num n, d) => (some (n + 1), { r with strings := Function.update r.strings k (some (.num (n + 1), d)) })
  | some _ => (none, r)

theorem within_tryIncr {k : String} (hk : Own c k) : Within (Own c) (tryIncr k) := by
  have hw (v : Blob) (d : Option ℚ) : ActsAt k fun r : Store =>
      ({ r with strings := Function.update r.strings k (some (v, d)) } : Store) :=
    ⟨fun _ x => { x with string := some (v, d) }, fun r => by simp [put, cell]⟩
  have hs : tryIncr k = fun r : Store => increased k (r.strings k) r := by
    funext r
    unfold tryIncr incr increased
    rcases hst : r.strings k with - | ⟨v, d⟩
    · rfl
    · cases v <;> rfl
  rw [hs]
  refine Within.read (fun r : Store => r.strings k) (fun r r' h => h.strings hk) (f := increased k) fun stored => ?_
  unfold increased
  rcases stored with - | ⟨v, d⟩
  · exact Within.reply _ (fun _ _ _ => rfl) ((actsAt_set _ _ _).keeps hk)
  · cases v with
    | num n => exact Within.reply _ (fun _ _ _ => rfl) ((hw _ _).keeps hk)
    | text s | task doc | tx record | retry event => exact Within.answer _

theorem breakerState_same {r r' : Store} (h : SameAt (Own c) r r') : breakerState c r = breakerState c r' := by
  rw [breakerState, breakerState, h.get own_breakerState]

/-- The rest of `record_failure` once the counter was increased, or could not be. -/
def counted (c : String) (threshold openTtl : Int) (state : BreakerState) (count : Option Int) (r : Store) :
    Except PyErr BreakerState × Store :=
  match count with
  | none => (.error notAnInteger, r)
  | some n =>
    let r₂ := r.expire (breakerCountKey c) (openTtl * 4)
    if threshold ≤ n ∨ state = .halfOpen then
      (.ok .open, ((r₂.set (breakerStateKey c) (.text "open") none).expire (breakerStateKey c) openTtl).del
        (breakerCountKey c))
    else (.ok .closed, r₂)

theorem within_counted (threshold openTtl : Int) (state : BreakerState) (count : Option Int) :
    Within (Own c) (counted c threshold openTtl state count) := by
  have hexpire : Preserves (Own c) fun r : Store => r.expire (breakerCountKey c) (openTtl * 4) :=
    (actsAt_expire _ _).keeps own_breakerCount
  have ht : Preserves (Own c) fun r : Store =>
      ((r.set (breakerStateKey c) (.text "open") none).expire (breakerStateKey c) openTtl).del (breakerCountKey c) :=
    ((actsAt_del _).keeps own_breakerCount).comp
      (((actsAt_expire _ _).keeps own_breakerState).comp ((actsAt_set _ _ _).keeps own_breakerState))
  unfold counted
  cases count with
  | none => exact Within.answer _
  | some n =>
    by_cases ho : threshold ≤ n ∨ state = .halfOpen
    · simp only [if_pos ho]
      exact Within.reply _ (fun _ _ _ => rfl) (ht.comp hexpire)
    · simp only [if_neg ho]
      exact Within.reply _ (fun _ _ _ => rfl) hexpire

theorem luaRecordFailure_eq (threshold openTtl : Int) (r : Store) : luaRecordFailure c threshold openTtl r =
    if breakerState c r = .open then (.ok .open, r)
    else counted c threshold openTtl (breakerState c r) (tryIncr (breakerCountKey c) r).1
      (tryIncr (breakerCountKey c) r).2 := by
  unfold luaRecordFailure tryIncr counted
  dsimp only
  cases incr r (breakerCountKey c) <;> rfl

theorem within_luaRecordFailure (threshold openTtl : Int) : Within (Own c) (luaRecordFailure c threshold openTtl) := by
  rw [funext (luaRecordFailure_eq threshold openTtl)]
  refine Within.read (fun r : Store => breakerState c r) (fun r r' h => breakerState_same h) (f := fun state r =>
    if state = .open then (.ok .open, r)
    else counted c threshold openTtl state (tryIncr (breakerCountKey c) r).1 (tryIncr (breakerCountKey c) r).2)
    fun state => ?_
  by_cases ho : state = .open
  · simp only [if_pos ho]
    exact Within.answer _
  · simp only [if_neg ho]
    exact (within_tryIncr own_breakerCount).bind fun count => within_counted threshold openTtl state count

theorem within_luaRecordSuccess : Within (Own c) (luaRecordSuccess c) := by
  have hr : Preserves (Own c) fun r : Store => r.del (breakerCountKey c) := (actsAt_del _).keeps own_breakerCount
  refine Within.read (fun r : Store => breakerState c r) (fun r r' h => breakerState_same h) (f := fun state r =>
    if state = .halfOpen then
      (.closed, (r.set (breakerStateKey c) (.text "closed") none).del (breakerCountKey c))
    else (state, r.del (breakerCountKey c))) fun state => ?_
  by_cases hh : state = .halfOpen
  · simp only [if_pos hh]
    exact Within.reply _ (fun _ _ _ => rfl) (hr.comp ((actsAt_set _ _ _).keeps own_breakerState))
  · simp only [if_neg hh]
    exact Within.reply _ (fun _ _ _ => rfl) hr

/-- The rest of `check_state` once the attempt was counted, or could not be. -/
def probed (c : String) (count : Option Int) (r : Store) : Except PyErr BreakerState × Store :=
  match count with
  | none => (.error notAnInteger, r)
  | some _ => (.ok .halfOpen, r.expire (breakerHalfOpenKey c) 120)

theorem within_probed (count : Option Int) : Within (Own c) (probed c count) := by
  unfold probed
  cases count with
  | none => exact Within.answer _
  | some n => exact Within.reply _ (fun _ _ _ => rfl) ((actsAt_expire _ _).keeps own_breakerHalfOpen)

theorem probe_eq_probed (halfOpenMax attempts : Int) (r : Store) :
    luaCheckState.probe halfOpenMax r (breakerHalfOpenKey c) attempts =
      if halfOpenMax ≤ attempts then (.ok .open, r)
      else probed c (tryIncr (breakerHalfOpenKey c) r).1 (tryIncr (breakerHalfOpenKey c) r).2 := by
  unfold luaCheckState.probe tryIncr probed
  cases incr r (breakerHalfOpenKey c) <;> rfl

theorem within_probe (halfOpenMax attempts : Int) :
    Within (Own c) fun r => luaCheckState.probe halfOpenMax r (breakerHalfOpenKey c) attempts := by
  rw [funext (probe_eq_probed halfOpenMax attempts)]
  by_cases hu : halfOpenMax ≤ attempts
  · simp only [if_pos hu]
    exact Within.answer _
  · simp only [if_neg hu]
    exact (within_tryIncr own_breakerHalfOpen).bind within_probed

/-- What `check_state` does by the state and the count of attempts that it reads. -/
def checkedState (c : String) (halfOpenMax : Int) (state : BreakerState) (attempts : Option Blob) (r : Store) :
    Except PyErr BreakerState × Store :=
  match state with
  | .closed => (.ok .closed, r)
  | .open => (.ok .open, r)
  | .halfOpen =>
    match attempts with
    | some (.num n) => luaCheckState.probe halfOpenMax r (breakerHalfOpenKey c) n
    | none => luaCheckState.probe halfOpenMax r (breakerHalfOpenKey c) 0
    | some _ => (.error (.responseError "attempt to compare nil with number"), r)

theorem within_luaCheckState (halfOpenMax : Int) : Within (Own c) (luaCheckState c halfOpenMax) := by
  have hr : ∀ r r' : Store, SameAt (Own c) r r' →
      (breakerState c r, r.get (breakerHalfOpenKey c)) = (breakerState c r', r'.get (breakerHalfOpenKey c)) := by
    intro r r' h
    rw [breakerState_same h, h.get own_breakerHalfOpen]
  refine Within.read _ hr (f := fun p => checkedState c halfOpenMax p.1 p.2) fun p => ?_
  obtain ⟨state, attempts⟩ := p
  unfold checkedState
  cases state with
  | closed => exact Within.answer _
  | «open» => exact Within.answer _
  | halfOpen =>
    rcases attempts with - | v
    · exact within_probe halfOpenMax 0
    · cases v with
      | num n => exact within_probe halfOpenMax n
      | text s | task doc | tx record | retry event => exact Within.answer _

end Scripts

def Alike (c : String) (w w' : World) : Prop := SameAt (Own c) w.redis w'.redis

/-- Nothing but the keys of the capability and the registry of names has changed. -/
def ConfinedTo (c : String) (w w' : World) : Prop :=
  SameAt (fun k => ¬ Own c k ∧ k ≠ capabilitiesKey) w.redis w'.redis

section Operations
variable {κ α : Type} {c : String} {apply : κ → Fault → World → World}

theorem local_awaiting {cmd : κ} {reply : World → Except PyErr α} {op : Store → Store} (hop : Preserves (Own c) op)
    (hap : ∀ i w, apply cmd i w = if i.applied then w.onRedis op else w)
    (hr : ∀ w w', Alike c w w' → reply w = reply w') :
    Local apply (Alike c) (ConfinedTo c) (awaiting cmd reply) := by
  refine ⟨fun i w w' h => ⟨?_, ?_⟩, fun i w => ?_, fun i w => ?_⟩
  · rw [hap, hap]
    by_cases ha : i.applied = true
    · rw [if_pos ha, if_pos ha]
      exact hop.same _ _ h
    · rw [if_neg ha, if_neg ha]
      exact h
  · dsimp only
    rw [hr w w' h]
  · rw [hap]
    by_cases ha : i.applied = true
    · rw [if_pos ha]
      exact (hop.frame w.redis).mono fun _ hk => hk.1
    · rw [if_neg ha]
      exact SameAt.refl _
  · cases i with
    | ok =>
      dsimp only
      cases reply w <;> trivial
    | fail _ => trivial
    | cancel _ => trivial

theorem local_script {cmd : κ} {f : Store → α × Store} (hf : Within (Own c) f)
    (ha : ∀ i w, apply cmd i w = if i.applied then w.onRedis (fun r => (f r).2) else w) :
    Local apply (Alike c) (ConfinedTo c) (awaiting cmd fun w => .ok (f w.redis).1) :=
  local_awaiting hf.state ha fun w w' h => by rw [(hf.same _ _ h).1]

theorem local_fallible {cmd : κ} {f : Store → Except PyErr α × Store} (hf : Within (Own c) f)
    (ha : ∀ i w, apply cmd i w = if i.applied then w.onRedis (fun r => (f r).2) else w) :
    Local apply (Alike c) (ConfinedTo c) (awaiting cmd fun w => (f w.redis).1) :=
  local_awaiting hf.state ha fun _ _ h => (hf.same _ _ h).1

theorem local_time : Local Command.apply (Alike c) (ConfinedTo c) time := by
  refine ⟨fun i w w' h => ⟨?_, ?_⟩, fun i w => ?_, fun _ _ => trivial⟩
  · rw [apply_read, apply_read]
    exact h
  · dsimp only
    rw [h.clock]
  · rw [apply_read]
    exact SameAt.refl _

theorem local_query {f : World → α} (hf : ∀ w w', Alike c w w' → f w = f w') :
    Local Command.apply (Alike c) (ConfinedTo c) (query f) := by
  have ha (i : Fault) (w : World) : Command.read.apply i w = if i.applied then w.onRedis id else w := by
    rw [apply_read]
    split <;> rfl
  have hr : ∀ w w', Alike c w w' → (Except.ok (f w) : Except PyErr α) = .ok (f w') := fun w w' h => by rw [hf w w' h]
  have hl := local_awaiting keeps_id ha hr
  exact hl

theorem apply_queue (op : QueueOp) (i : Fault) (w : World) :
    (Command.queue op).apply i w = if i.applied then w.onRedis op.exec else w := by
  simp [Command.apply, Command.awaited, World.exec]

theorem apply_breaker (op : BreakerOp) (i : Fault) (w : World) :
    (Command.breaker op).apply i w = if i.applied then w.onRedis op.exec else w := by
  simp [Command.apply, Command.awaited, World.exec]

theorem local_perform {op : QueueOp} (hop : Preserves (Own c) op.exec) :
    Local Command.apply (Alike c) (ConfinedTo c) (perform (.queue op)) := by
  have hr : ∀ w w', Alike c w w' → (fun _ : World => (Except.ok () : Except PyErr Unit)) w = .ok () := fun _ _ _ => rfl
  have hl := local_awaiting hop (apply_queue op) hr
  exact hl

theorem local_register : Local Command.apply (Alike c) (ConfinedTo c) (perform (.queue (.register c))) := by
  have had : ActsAt capabilitiesKey fun r : Store => r.sadd capabilitiesKey c := actsAt_sadd _ _
  have hap (i : Fault) (w : World) : (Command.queue (.register c)).apply i w =
      if i.applied then w.onRedis (·.sadd capabilitiesKey c) else w := apply_queue (.register c) i w
  refine ⟨fun i w w' h => ⟨?_, rfl⟩, fun i w => ?_, fun i w => by cases i <;> trivial⟩
  · rw [hap, hap]
    by_cases ha : i.applied = true
    · rw [if_pos ha, if_pos ha]
      have hf (r : Store) := had.frame (K := Own c) (capabilitiesKey_notMem c) r
      exact ((hf w.redis).symm.trans h).trans (hf w'.redis)
    · rw [if_neg ha, if_neg ha]
      exact h
  · rw [hap]
    by_cases ha : i.applied = true
    · rw [if_pos ha]
      exact had.frame (fun hk => hk.2 rfl) w.redis
    · rw [if_neg ha]
      exact SameAt.refl _

theorem local_getState (cb : CircuitBreaker) : Local Command.apply (Alike c) (ConfinedTo c) (cb.getState c) :=
  local_fallible (within_luaCheckState cb.halfOpenMax) (apply_breaker _)

theorem local_allowRequest (cb : CircuitBreaker) : Local Command.apply (Alike c) (ConfinedTo c) (cb.allowRequest c) :=
  (local_getState cb).bind fun _ => trivial

theorem local_recordSuccess (cb : CircuitBreaker) : Local Command.apply (Alike c) (ConfinedTo c) (cb.recordSuccess c) :=
  local_script within_luaRecordSuccess (apply_breaker _)

theorem local_recordFailure (cb : CircuitBreaker) : Local Command.apply (Alike c) (ConfinedTo c) (cb.recordFailure c) :=
  local_fallible (within_luaRecordFailure cb.failureThreshold cb.openDurationSeconds) (apply_breaker _)

variable (q : QueueManager)

theorem local_refused : Local Command.apply (Alike c) (ConfinedTo c) (q.refused c) := by
  unfold QueueManager.refused
  cases q.cb with
  | none => trivial
  | some cb => exact (local_allowRequest cb).bind fun _ => trivial

theorem local_enqueue (x : String) (priority : Int) (executeAfterMs : ℚ) :
    Local Command.apply (Alike c) (ConfinedTo c) (q.enqueue c x priority executeAfterMs) := by
  refine (local_refused q).bind fun refused => ?_
  by_cases hr : refused = true
  · rw [if_pos hr]
    trivial
  · rw [if_neg hr]
    refine local_time.bind fun t => ?_
    refine (local_script (within_luaEnqueue x _ q.defaultDepth q.ttl) (apply_queue _)).bind fun reply => ?_
    dsimp only
    by_cases hf : reply.1 = -1
    · rw [if_pos hf]
      trivial
    · rw [if_neg hf]
      exact local_register.bind fun _ => trivial

theorem local_dequeueReady : Local Command.apply (Alike c) (ConfinedTo c) (q.dequeueReady c) := by
  refine (local_refused q).bind fun refused => ?_
  by_cases hr : refused = true
  · rw [if_pos hr]
    trivial
  · rw [if_neg hr]
    refine local_time.bind fun t => ?_
    exact local_script (within_luaDequeueReady q.defaultMc (toMs t) q.scanLimit) (apply_queue _)

theorem local_complete (x : String) : Local Command.apply (Alike c) (ConfinedTo c) (q.complete c x) := by
  refine (local_perform (keeps_luaComplete x _)).bind fun _ => ?_
  cases q.cb with
  | none => trivial
  | some cb => exact (local_recordSuccess cb).bind fun _ => trivial

theorem local_fail (x : String) : Local Command.apply (Alike c) (ConfinedTo c) (q.fail c x) := by
  refine (local_perform (keeps_luaComplete x _)).bind fun _ => ?_
  cases q.cb with
  | none => trivial
  | some cb => exact (local_recordFailure cb).bind fun _ => trivial

theorem local_cleanupStaleRunning (maxAge : ℚ) :
    Local Command.apply (Alike c) (ConfinedTo c) (q.cleanupStaleRunning c maxAge) := by
  refine local_time.bind fun t => ?_
  refine (local_query fun w w' h => ?_).bind fun stale => ?_
  · exact h.zrangeTo own_running _
  · by_cases hn : stale = []
    · rw [if_pos hn]
      trivial
    · rw [if_neg hn]
      exact (local_perform ((actsAt_zremAll _ stale).keeps own_running)).bind fun _ => trivial

theorem local_embed {p : Py α} (hp : Local Command.apply (Alike c) (ConfinedTo c) p) :
    Local SlotCommand.apply (Alike c) (ConfinedTo c) (p.embed .base) := Local.embed (fun _ => rfl) hp

theorem local_acquireConcurrencySlot (slotId : String) (maxConcurrent : Option Int) :
    Local SlotCommand.apply (Alike c) (ConfinedTo c) (q.acquireConcurrencySlot c slotId maxConcurrent) := by
  refine (local_embed local_time).bind fun t => ?_
  exact (local_script (within_luaAcquireSlot slotId _ (toMs t) q.ttl) fun _ _ => rfl).bind fun _ => trivial

theorem local_cleanupStaleSlots (maxAge : ℚ) :
    Local SlotCommand.apply (Alike c) (ConfinedTo c) (q.cleanupStaleSlots c maxAge) := by
  refine (local_embed local_time).bind fun t => ?_
  refine (local_embed (local_query fun w w' h => ?_)).bind fun stale => ?_
  · exact h.zrangeTo own_slotRunning _
  · by_cases hn : stale = []
    · rw [if_pos hn]
      trivial
    · rw [if_neg hn]
      exact local_awaiting ((actsAt_zremAll _ stale).keeps own_slotRunning) (fun _ _ => rfl) fun _ _ _ => rfl

/-- Each operation of a capability reads and writes the keys of that capability. -/
theorem CapabilityOp.local_program (op : CapabilityOp) :
    Local SlotCommand.apply (Alike c) (ConfinedTo c) (op.program c) := by
  cases op with
  | enqueue q x priority executeAfterMs => exact local_embed (local_enqueue q x priority executeAfterMs)
  | dequeueReady q => exact local_embed (local_dequeueReady q)
  | cancel q x => exact local_embed (local_script (within_luaCancel x) (apply_queue _))
  | complete q x => exact local_embed (local_complete q x)
  | fail q x => exact local_embed (local_fail q x)
  | releaseRunningSlot q x =>
    exact local_embed ((local_perform ((actsAt_zrem _ x).keeps own_running)).bind fun _ => trivial)
  | adjustConcurrent q delta slot =>
    exact local_script (within_luaAdjustConcurrent slot delta q.defaultMc) fun _ _ => rfl
  | tryRecoverConcurrent q => exact local_script (within_luaRecoverConcurrent q.defaultMc) fun _ _ => rfl
  | acquireConcurrencySlot q slotId maxConcurrent => exact local_acquireConcurrencySlot q slotId maxConcurrent
  | releaseSlot q slotId =>
    unfold CapabilityOp.program QueueManager.releaseSlot
    exact local_awaiting ((actsAt_zrem _ slotId).keeps own_slotRunning) (fun _ _ => rfl) fun _ _ _ => rfl
  | cleanupStaleRunning q maxAge => exact local_embed (local_cleanupStaleRunning q maxAge)
  | cleanupStaleSlots q maxAge => exact local_cleanupStaleSlots q maxAge
  | recordFailure cb => exact local_embed (local_recordFailure cb)
  | recordSuccess cb => exact local_embed (local_recordSuccess cb)
  | getState cb => exact local_embed (local_getState cb)
  | isOpen cb => exact local_embed ((local_getState cb).bind fun _ => trivial)
  | allowRequest cb => exact local_embed (local_allowRequest cb)

end Operations

def capabilitySystem (c : String) : System SlotCommand Fault World PyErr CapabilityOp ℚ where
  apply := SlotCommand.apply
  program op := (op.program c).void
  ambient t := .base (.advance t)

theorem confined_run (c : String) (w : World) (ms : List (Move CapabilityOp ℚ Fault)) :
    ConfinedTo c ((capabilitySystem c).drift w ms) ((capabilitySystem c).run ⟨w, [], []⟩ ms).world := by
  refine Local.frame_run (S := capabilitySystem c) (R := Alike c) (fun _ _ _ h h' => h.trans h')
    (fun op => op.local_program.void) (fun t i w w' h => ?_) ms w ⟨w, [], []⟩ (SameAt.refl _)
    fun _ hp => absurd hp not_mem_nil
  have ha (w : World) : SlotCommand.apply (.base (.advance t)) i w =
      if w.redis.clock < t then w.onRedis (·.advance t) else w := by
    simp [SlotCommand.apply, Command.apply, Command.awaited, World.exec]
  change ConfinedTo c (SlotCommand.apply (.base (.advance t)) i w) (SlotCommand.apply (.base (.advance t)) i w')
  rw [ha, ha, h.clock]
  by_cases hl : w'.redis.clock < t
  · rw [if_pos hl, if_pos hl]
    exact SameAt.advance h t
  · rw [if_neg hl, if_neg hl]
    exact h

/-- No two of the keys of a capability and the callback keys are the same, and no other capability has
one of them. An operation on the capability cannot tell worlds apart that agree at its keys, and it
changes nothing else but the registry of names. So whatever operations on it run, in any interleaving
and with any faults, the cells of the other capabilities are as if only time had passed. -/
theorem capability_isolated (c : String) : (∀ taskId, (capabilityKeys c ++ callbackKeys taskId).Nodup) ∧
    (∀ c', c ≠ c' → ∀ k ∈ capabilityKeys c, k ∉ capabilityKeys c') ∧
    (∀ (op : CapabilityOp) (faults : List Fault) (w w' : World), SameAt (· ∈ capabilityKeys c) w.redis w'.redis →
      let ran := (op.program c).runOn SlotCommand.apply .ok faults w
      let ran' := (op.program c).runOn SlotCommand.apply .ok faults w'
      ran.outcome = ran'.outcome ∧ SameAt (· ∈ capabilityKeys c) ran.state.redis ran'.state.redis) ∧
    (∀ w ms, ∀ k ∉ capabilityKeys c, k ≠ capabilitiesKey →
      ((capabilitySystem c).run ⟨w, [], []⟩ ms).world.redis.cell k = ((capabilitySystem c).drift w ms).redis.cell k) ∧
    ∀ c', c ≠ c' → ∀ w ms, ∀ k ∈ capabilityKeys c',
      ((capabilitySystem c).run ⟨w, [], []⟩ ms).world.redis.cell k = ((capabilitySystem c).drift w ms).redis.cell k := by
  refine ⟨nodup_keys c, fun c' h => disjoint_capabilityKeys h, ?_, ?_, ?_⟩
  · intro op faults w w' h
    exact op.local_program.runOn h Fault.ok faults
  · intro w ms k hk hn
    exact ((confined_run c w ms).cells k ⟨hk, hn⟩).symm
  · intro c' hne w ms k hk
    have ho : ¬ Own c k := disjoint_capabilityKeys hne.symm k hk
    have hn : k ≠ capabilitiesKey := fun heq => capabilitiesKey_notMem c' (heq ▸ hk)
    exact ((confined_run c w ms).cells k ⟨ho, hn⟩).symm

/-- An enqueue on one capability while another has an entry, and time that passes. -/
theorem capability_isolated_enqueue :
    let w := World.empty.onRedis (·.zadd (pending "asr") 7 "waiting")
    let ms : List (Move CapabilityOp ℚ Fault) :=
      [.start (.enqueue {} "task" 3 0), .step 0 .ok, .step 0 .ok, .env 5 .ok, .step 0 .ok]
    let after := ((capabilitySystem "tts").run ⟨w, [], []⟩ ms).world
    after.redis.zcard (pending "tts") = 1 ∧ after.redis.zcard (pending "asr") = 1 ∧
      after.redis.cell (pending "asr") = ((capabilitySystem "tts").drift w ms).redis.cell (pending "asr") :=
  ⟨by decide +kernel, by decide +kernel, (capability_isolated "tts").2.2.2.2 "asr" (by decide) _ _ _ (by decide)⟩

end AsyncScheduler
