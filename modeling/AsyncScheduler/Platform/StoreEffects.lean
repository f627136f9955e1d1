import AsyncScheduler.Platform.QueueEffects

/-!
# Effects on string keys

Which string keys a command can write, what happens to the others, and which task documents it can
store. Each is proved once for every command.
-/

namespace AsyncScheduler

open Redis

def Command.stringKeys : Command → List String
  | .keys ops | .callbackRetry _ _ ops => ops.map Prod.fst
  | .breaker op => op.keys
  | _ => []

section Strings
variable (r : Store) (k : String)

theorem strings_refreshZset (k' : String) (ttl : Int) : (refreshZset k' ttl r).strings = r.strings := by
  unfold refreshZset
  split
  · exact strings_zexpireIn ..
  · rfl

theorem strings_refreshHash (k' : String) (ttl : Int) : (refreshHash k' ttl r).strings = r.strings := by
  unfold refreshHash
  split
  · exact strings_hexpireIn ..
  · rfl

theorem strings_callbackOp (op : CallbackOp) : (op.exec r).strings = r.strings := by
  cases op with
  | keepDeadLetters seconds => exact strings_zexpireIn ..
  | _ => rfl

theorem strings_queueOp (op : QueueOp) : (op.exec r).strings = r.strings := by
  cases op with
  | enqueue c x sc depth ttl =>
    rcases luaEnqueue_cases r c x sc depth ttl with ⟨_, hr⟩ | ⟨_, hr⟩
    · exact congrArg strings hr
    · refine (congrArg strings hr).trans ?_
      rw [strings_refreshHash, strings_refreshHash, strings_refreshZset]
      rfl
  | dequeueReady c mc nowMs limit =>
    rcases luaDequeueReady_cases r c mc nowMs limit with ⟨_, hr⟩ | ⟨x, _, _, hr⟩
    · exact congrArg strings hr
    · exact (congrArg strings hr).trans rfl
  | cancel c x =>
    simp only [QueueOp.exec, luaCancel]
    split <;> rfl
  | _ => rfl

variable {k}

theorem strings_keyOp_of_ne {k' : String} (op : KeyOp) (hk : k ≠ k') : (op.exec k' r).strings k = r.strings k := by
  cases op with
  | set v ex => exact strings_set_of_ne r k' k v ex hk
  | setNx v ex => exact strings_setNx_of_ne r k' k v ex hk
  | renew v seconds =>
    simp only [KeyOp.exec, luaRenew]
    split
    · exact strings_expire_of_ne r k' k seconds hk
    · rfl
  | release v =>
    simp only [KeyOp.exec, luaLockRelease]
    split
    · exact strings_del_of_ne r k' k hk
    · rfl
  | del => exact strings_del_of_ne r k' k hk

theorem strings_runKeys (ops : List (String × KeyOp)) (hk : k ∉ ops.map Prod.fst) :
    (World.runKeys r ops).strings k = r.strings k := by
  induction ops generalizing r with
  | nil => rfl
  | cons op ops ih =>
    rw [List.map_cons, List.mem_cons, not_or] at hk
    exact (ih _ hk.2).trans (strings_keyOp_of_ne r op.2 hk.1)

theorem strings_incr_of_ne {r r' : Store} {k' : String} {n : Int} (h : incr r k' = some (n, r'))
    (hk : k ≠ k') : r'.strings k = r.strings k := by
  unfold incr at h
  split at h
  · cases h
    exact strings_set_of_ne r k' k _ _ hk
  · cases h
    exact Function.update_of_ne hk ..
  · cases h

theorem Edits.strings {ks : List String} {r r' : Store} (h : Edits ks r r') (hk : k ∉ ks) :
    r'.strings k = r.strings k := by
  have hne {k' : String} (hk' : k' ∈ ks) : k ≠ k' := fun heq => hk (heq ▸ hk')
  induction h with
  | refl => rfl
  | setText s ex hk' _ ih => exact (strings_set_of_ne _ _ _ _ _ (hne hk')).trans ih
  | del hk' _ ih => exact (strings_del_of_ne _ _ _ (hne hk')).trans ih
  | expire seconds hk' _ ih => exact (strings_expire_of_ne _ _ _ _ (hne hk')).trans ih
  | incr hk' hi _ ih => exact (strings_incr_of_ne hi (hne hk')).trans ih

end Strings

/-- A command leaves the keys it does not name as they are, but for the passing of time. -/
theorem strings_exec (w : World) (cmd : Command) (k : String) (hk : k ∉ cmd.stringKeys) :
    (w.exec cmd).redis.strings k = w.redis.strings k ∨
      ∃ t, cmd = .advance t ∧ (w.exec cmd).redis = w.redis.advance t := by
  cases cmd with
  | read => exact .inl rfl
  | keys ops => exact .inl (strings_runKeys _ ops hk)
  | queue op => exact .inl (congrFun (strings_queueOp _ op) k)
  | breaker op => exact .inl ((Edits.breakerOp op _).strings hk)
  | callbackRetry member score ops =>
    exact .inl (strings_runKeys (w.redis.zadd QueueKeys.callbackRetry score member) ops hk)
  | callbacks op => exact .inl (congrFun (strings_callbackOp _ op) k)
  | post request => exact .inl rfl
  | commit writes =>
    refine .inl ?_
    simp only [World.exec]
    split <;> rfl
  | memory op => exact .inl (by rw [redis_memory])
  | mark m => exact .inl rfl
  | advance t =>
    simp only [World.exec]
    split
    · exact .inr ⟨t, rfl, rfl⟩
    · exact .inl rfl

theorem strings_exec_of_clock {w : World} {cmd : Command} {k : String} (hk : k ∉ cmd.stringKeys)
    (hc : (w.exec cmd).redis.clock = w.redis.clock) : (w.exec cmd).redis.strings k = w.redis.strings k := by
  rcases strings_exec w cmd k hk with hs | ⟨t, rfl, _⟩
  · exact hs
  · by_cases ht : w.redis.clock < t
    · have ha : (w.exec (.advance t)).redis.clock = t := by simp [World.exec, ht, World.onRedis, Redis.advance]
      exact absurd (ha.symm.trans hc) ht.ne'
    · simp [World.exec, ht]

def Holds (k : String) (P : Blob → Prop) (w : World) : Prop :=
  ∃ v, w.redis.strings k = some (v, none) ∧ P v

theorem holds_apply {k : String} {P : Blob → Prop} {w : World} {cmd : Command} (i : Fault)
    (hk : k ∉ cmd.stringKeys) (h : Holds k P w) : Holds k P (cmd.apply i w) := by
  obtain ⟨v, hv, hP⟩ := h
  refine ⟨v, ?_, hP⟩
  unfold Command.apply
  split
  · rcases strings_exec w cmd k hk with heq | ⟨t, _, heq⟩
    · rw [heq, hv]
    · rw [heq]
      simp [Redis.advance, hv, Redis.live]
  · exact hv

/-- Every document of the second store is in the first one under the same key. -/
def NoNewDocs (r r' : Store) : Prop := ∀ k d, r'.get k = some (.task d) → r.get k = some (.task d)

namespace NoNewDocs
variable {r r' r'' : Store} {k : String}

theorem refl (r : Store) : NoNewDocs r r := fun _ _ h => h

theorem trans (h : NoNewDocs r r') (h' : NoNewDocs r' r'') : NoNewDocs r r'' :=
  fun k d hd => h k d (h' k d hd)

theorem of_strings (h : r'.strings = r.strings) : NoNewDocs r r' := by
  intro k d hd
  rwa [Redis.get, h] at hd

theorem set {v : Blob} (ex : Option ℚ) (hv : ∀ d, v = .task d → r.get k = some (.task d)) :
    NoNewDocs r (r.set k v ex) := by
  intro k' d hd
  rw [Redis.get, strings_set] at hd
  split at hd
  · rename_i hk
    rw [hk]
    exact hv d (by simpa using hd)
  · exact hd

theorem del : NoNewDocs r (r.del k) := by
  intro k' d hd
  rw [Redis.get, strings_del] at hd
  split at hd
  · cases hd
  · exact hd

theorem expire (seconds : ℚ) : NoNewDocs r (r.expire k seconds) := by
  unfold Redis.expire
  split
  · exact refl r
  · rename_i v e hk
    split
    · exact del
    · refine set _ fun d hd => ?_
      rw [Redis.get, hk, hd]
      rfl

theorem incr {n : Int} (h : incr r k = some (n, r')) : NoNewDocs r r' := by
  unfold AsyncScheduler.incr at h
  split at h
  · cases h
    exact set _ fun d hd => nomatch hd
  · rename_i m e hk
    cases h
    intro k' d hd
    simp only [Redis.get, Function.update_apply] at hd
    split at hd
    · cases hd
    · exact hd
  · cases h

theorem advance (t : ℚ) : NoNewDocs r (r.advance t) := by
  intro k d hd
  simp only [Redis.get, Redis.advance, Option.map_eq_some_iff, Option.filter_eq_some_iff] at hd
  obtain ⟨e, ⟨he, _⟩, hed⟩ := hd
  rw [Redis.get, he, Option.map_some, hed]

theorem of_edits {ks : List String} (h : Edits ks r r') : NoNewDocs r r' := by
  induction h with
  | refl => exact refl r
  | setText s ex hk _ ih => exact ih.trans (set ex fun _ hd => nomatch hd)
  | del hk _ ih => exact ih.trans del
  | expire seconds hk _ ih => exact ih.trans (expire seconds)
  | incr hk hi _ ih => exact ih.trans (incr hi)

end NoNewDocs

def KeyOp.doc : KeyOp → Option TaskDoc
  | .set (.task d) _ | .setNx (.task d) _ => some d
  | _ => none

def Command.docs : Command → List TaskDoc
  | .keys ops | .callbackRetry _ _ ops => ops.filterMap (·.2.doc)
  | _ => []

def World.Docs (D : TaskDoc → Prop) (w : World) : Prop :=
  ∀ k d, w.redis.get k = some (.task d) → D d

section Docs
variable {D : TaskDoc → Prop}

theorem docs_set {r : Store} {k : String} {v : Blob} (ex : Option ℚ) (hv : ∀ d, v = .task d → D d)
    (h : ∀ k d, r.get k = some (.task d) → D d) : ∀ k' d, (r.set k v ex).get k' = some (.task d) → D d := by
  intro k' d hd
  rw [Redis.get, strings_set] at hd
  split at hd
  · exact hv d (by simpa using hd)
  · exact h k' d hd

theorem docs_keyOp {r : Store} {k : String} {op : KeyOp} (hop : ∀ d, op.doc = some d → D d)
    (h : ∀ k d, r.get k = some (.task d) → D d) : ∀ k' d, (op.exec k r).get k' = some (.task d) → D d := by
  have hold {r' : Store} (hr : NoNewDocs r r') : ∀ k' d, r'.get k' = some (.task d) → D d :=
    fun k' d hd => h k' d (hr k' d hd)
  cases op with
  | set v ex =>
    refine docs_set ex (fun d hd => hop d ?_) h
    rw [hd]
    rfl
  | setNx v ex =>
    simp only [KeyOp.exec, Redis.setNx]
    split
    · exact h
    · refine docs_set _ (fun d hd => hop d ?_) h
      rw [hd]
      rfl
  | renew v seconds =>
    simp only [KeyOp.exec, luaRenew]
    split
    · exact hold (.expire _)
    · exact h
  | release v =>
    simp only [KeyOp.exec, luaLockRelease]
    split
    · exact hold .del
    · exact h
  | del => exact hold .del

theorem docs_runKeys {r : Store} {ops : List (String × KeyOp)}
    (hop : ∀ d ∈ ops.filterMap (·.2.doc), D d) (h : ∀ k d, r.get k = some (.task d) → D d) :
    ∀ k d, (World.runKeys r ops).get k = some (.task d) → D d := by
  induction ops generalizing r with
  | nil => exact h
  | cons op ops ih =>
    refine ih (fun d hd => hop d ?_) (docs_keyOp (fun d hd => hop d ?_) h)
    · obtain ⟨o, ho, hdo⟩ := List.mem_filterMap.mp hd
      exact List.mem_filterMap.mpr ⟨o, List.mem_cons_of_mem _ ho, hdo⟩
    · exact List.mem_filterMap.mpr ⟨op, List.mem_cons_self, hd⟩

theorem docs_apply {w : World} {cmd : Command} (i : Fault) (hc : ∀ d ∈ cmd.docs, D d)
    (h : w.Docs D) : (cmd.apply i w).Docs D := by
  have hold {w' : World} (hr : NoNewDocs w.redis w'.redis) : w'.Docs D :=
    fun k d hd => h k d (hr k d hd)
  unfold Command.apply
  split
  · cases cmd with
    | read => exact h
    | keys ops => exact docs_runKeys hc h
    | queue op => exact hold (.of_strings (strings_queueOp _ op))
    | breaker op => exact hold (.of_edits (Edits.breakerOp op _))
    | callbackRetry member score ops =>
      exact docs_runKeys (r := w.redis.zadd QueueKeys.callbackRetry score member) hc h
    | callbacks op => exact hold (.of_strings (strings_callbackOp _ op))
    | post request => exact h
    | commit writes =>
      simp only [World.exec]
      split <;> exact h
    | memory op => exact hold (.of_strings (by rw [redis_memory]))
    | mark m => exact h
    | advance t =>
      simp only [World.exec]
      split
      · exact hold (.advance t)
      · exact h
  · exact h

end Docs

end AsyncScheduler
