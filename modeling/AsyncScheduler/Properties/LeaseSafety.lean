import AsyncScheduler.Agent.Server
import AsyncScheduler.Platform.StoreEffects
import AsyncScheduler.Platform.TaskExecutor
import AsyncScheduler.Platform.TaskReconciler
import AsyncScheduler.Shared.Lease

/-!
# The three leases

The lock of a task, the leader key of the reconcilers and the owner key of a node follow one
protocol.
-/

namespace AsyncScheduler
open List

def World.lease (w : World) (k : String) : Lease.State Blob ℚ := ⟨w.redis.clock, w.redis.strings k⟩

def Command.leaseOp (k : String) : Command → Lease.Op Blob ℚ
  | .keys [(k', .setNx v _)] => if k' = k then .acquire v else .idle
  | .keys [(k', .renew v _)] => if k' = k then .renew v else .idle
  | .keys [(k', .release v)] => if k' = k then .release v else .idle
  | .advance t => .pass t
  | _ => .idle

def Step.leaseOp (k : String) (t : Step) : Lease.Op Blob ℚ := if t.applied then t.cmd.leaseOp k else .idle

/-- A command of a client of the lease, or one that does not write its key. -/
inductive Command.OnLease (k : String) (ttl : Blob → ℚ) : Command → Prop
  | acquire (v : Blob) : OnLease k ttl (.keys [(k, .setNx v (ttl v))])
  | renew (v : Blob) : OnLease k ttl (.keys [(k, .renew v (ttl v))])
  | release (v : Blob) : OnLease k ttl (.keys [(k, .release v)])
  | other {c : Command} (h : k ∉ c.stringKeys) : OnLease k ttl c

section Refinement
variable {k : String} {ttl : Blob → ℚ} {w : World} {c : Command}

theorem leaseOp_of_notMem (hk : k ∉ c.stringKeys) :
    c.leaseOp k = .idle ∨ ∃ t, c = .advance t ∧ c.leaseOp k = .pass t := by
  unfold Command.leaseOp
  split
  · rename_i k' v s
    exact .inl (if_neg fun h => hk (by simp [Command.stringKeys, h]))
  · rename_i k' v s
    exact .inl (if_neg fun h => hk (by simp [Command.stringKeys, h]))
  · rename_i k' v
    exact .inl (if_neg fun h => hk (by simp [Command.stringKeys, h]))
  · exact .inr ⟨_, rfl, rfl⟩
  · exact .inl rfl

theorem lease_advance (t : ℚ) : (w.exec (.advance t)).lease k = Lease.apply ttl (w.lease k) (.pass t) := by
  by_cases ht : w.redis.clock < t
  · have hl : (fun e : Blob × Option ℚ => Redis.live t e.2) = fun e => e.2.all (t < ·) := by
      funext e
      cases e.2 <;> rfl
    simp [World.exec, World.lease, Lease.apply, ht, World.onRedis, Redis.advance, hl]
  · simp [World.exec, World.lease, Lease.apply, ht]

theorem lease_setNx (v : Blob) :
    (w.exec (.keys [(k, .setNx v (ttl v))])).lease k = Lease.apply ttl (w.lease k) (.acquire v) := by
  change (⟨(w.redis.setNx k v (ttl v)).2.clock, (w.redis.setNx k v (ttl v)).2.strings k⟩ : Lease.State Blob ℚ) = _
  by_cases hh : (w.redis.strings k).isSome = true
  · simp [Redis.setNx, Redis.existsKey, Lease.apply, World.lease, hh]
  · simp [Redis.setNx, Redis.existsKey, Lease.apply, World.lease, hh, Redis.set]

theorem lease_renew (v : Blob) :
    (w.exec (.keys [(k, .renew v (ttl v))])).lease k = Lease.apply ttl (w.lease k) (.renew v) := by
  change (⟨(luaRenew k v (ttl v) w.redis).2.clock, (luaRenew k v (ttl v) w.redis).2.strings k⟩ :
    Lease.State Blob ℚ) = _
  by_cases how : w.redis.get k = some v
  · obtain ⟨e, hs, rfl⟩ := Option.map_eq_some_iff.mp how
    have ho : (w.lease k).owner = some e.1 := how
    rw [Lease.apply, if_pos ho]
    by_cases hl : ttl e.1 ≤ 0
    · simp [luaRenew, how, Redis.expire, hs, hl, Redis.del, World.lease]
    · simp [luaRenew, how, Redis.expire, hs, hl, Redis.set, World.lease]
  · have ho : (w.lease k).owner ≠ some v := how
    rw [Lease.apply, if_neg ho]
    simp [luaRenew, how, World.lease]

theorem lease_release (ttl : Blob → ℚ) (v : Blob) :
    (w.exec (.keys [(k, .release v)])).lease k = Lease.apply ttl (w.lease k) (.release v) := by
  change (⟨(luaLockRelease k v w.redis).2.clock, (luaLockRelease k v w.redis).2.strings k⟩ :
    Lease.State Blob ℚ) = _
  by_cases how : w.redis.get k = some v
  · have ho : (w.lease k).owner = some v := how
    rw [Lease.apply, if_pos ho]
    simp [luaLockRelease, how, Redis.del, World.lease]
  · have ho : (w.lease k).owner ≠ some v := how
    rw [Lease.apply, if_neg ho]
    simp [luaLockRelease, how, World.lease]

theorem lease_exec (hc : c.OnLease k ttl) : (w.exec c).lease k = Lease.apply ttl (w.lease k) (c.leaseOp k) := by
  cases hc with
  | acquire v =>
    rw [lease_setNx]
    simp [Command.leaseOp]
  | renew v =>
    rw [lease_renew]
    simp [Command.leaseOp]
  | release v =>
    rw [lease_release ttl]
    simp [Command.leaseOp]
  | other hk =>
    rcases leaseOp_of_notMem hk with hi | ⟨t, rfl, hp⟩
    · rw [hi]
      rcases strings_exec w c k hk with hs | ⟨t, rfl, _⟩
      · rcases clock_exec w c with hcl | ⟨t, rfl, _⟩
        · simp [World.lease, Lease.apply, hs, hcl]
        · cases hi
      · cases hi
    · rw [hp]
      exact lease_advance t

/-- Every step on the key is one of the abstract lease. -/
theorem lease_step (hc : c.OnLease k ttl) (i : Fault) :
    (c.apply i w).lease k = Lease.apply ttl (w.lease k) (Step.leaseOp k ⟨c, i, w⟩) := by
  unfold Command.apply Step.leaseOp Step.applied
  split
  · exact lease_exec hc
  · rfl

end Refinement

inductive LeaseCall where
  | execute (ex : TaskExecutor) (inputs : ExecInputs) (taskId : String)
      (dagDefinition : Option DagDefinition) (context : DispatchArg)
  | elect (rc : TaskReconciler)
  | acquireOwnership (nodeId instanceId : String)
  | renewOwnership (nodeId instanceId : String)
  | releaseOwnership (nodeId instanceId : String)

namespace LeaseCall

def program : LeaseCall → Py Unit
  | .execute ex inputs taskId dagDefinition context => (ex.execute inputs taskId dagDefinition context).void
  | .elect rc => rc.tryBecomeLeader.void
  | .acquireOwnership nodeId instanceId => (NodeAgent.acquireOwnership nodeId instanceId).void
  | .renewOwnership nodeId instanceId => (NodeAgent.renewOwnership nodeId instanceId).void
  | .releaseOwnership nodeId instanceId => (NodeAgent.releaseOwnership nodeId instanceId).void

def key : LeaseCall → String
  | .execute _ _ taskId _ _ => lockKey taskId
  | .elect _ => reconcileLeaderKey
  | .acquireOwnership nodeId _ | .renewOwnership nodeId _ | .releaseOwnership nodeId _ =>
    NodeAgent.ownerKey nodeId

def client : LeaseCall → Blob
  | .execute _ inputs _ _ _ => .text inputs.lockVal.text
  | .elect rc => .text rc.instanceId
  | .acquireOwnership _ instanceId | .renewOwnership _ instanceId | .releaseOwnership _ instanceId =>
    .text instanceId

def ttl : LeaseCall → ℚ
  | .execute ex _ _ _ _ => ex.lockSeconds
  | .elect rc => rc.leaderTtl
  | .acquireOwnership _ _ | .renewOwnership _ _ | .releaseOwnership _ _ => NodeAgent.ownerTtl

end LeaseCall

/-- The clients run at once; the environment lets time pass and does anything else. -/
def leaseSystem : System Command Fault World PyErr LeaseCall Command where
  apply := Command.apply
  program := LeaseCall.program
  ambient c := c

section Issues
variable {k : String} {ttl : Blob → ℚ}

theorem onLease_key {k' : String} {op : KeyOp} (h : k' = k → (Command.keys [(k, op)]).OnLease k ttl) :
    (Command.keys [(k', op)]).OnLease k ttl := by
  by_cases hk : k' = k
  · subst hk
    exact h rfl
  · exact .other (by simpa [Command.stringKeys] using Ne.symm hk)

theorem onLease_quiet {c : Command} (hc : c.stringKeys = []) : c.OnLease k ttl :=
  .other (by simp [hc])

theorem onLease_call (call : LeaseCall) (h : call.key = k → ttl call.client = call.ttl) :
    Issues (fun _ => True) (Command.OnLease k ttl) (fun _ => True) call.program := by
  -- the three commands of the client, on its key
  have ha : (Command.keys [(call.key, .setNx call.client call.ttl)]).OnLease k ttl :=
    onLease_key fun hk => h hk ▸ .acquire call.client
  have hr : (Command.keys [(call.key, .renew call.client call.ttl)]).OnLease k ttl :=
    onLease_key fun hk => h hk ▸ .renew call.client
  have hre : (Command.keys [(call.key, .release call.client)]).OnLease k ttl :=
    onLease_key fun _ => .release call.client
  cases call with
  | execute ex inputs taskId dagDefinition context =>
    refine (ex.issues_execute_of_scope inputs context ha fun _ _ _ => ?_).void
    exact ⟨onLease_quiet rfl, fun _ => onLease_quiet rfl, hr, hre, fun _ => onLease_quiet rfl,
      fun _ _ _ => onLease_quiet rfl, fun _ _ => onLease_quiet rfl⟩
  | elect rc =>
    refine Issues.void (Q := fun _ => True) ?_
    unfold TaskReconciler.tryBecomeLeader
    refine (issues_await (Q := fun _ => True) ha fun _ _ _ _ => trivial).bind fun acquired _ => ?_
    split
    · trivial
    · exact issues_await hr fun _ _ _ _ => trivial
  | acquireOwnership nodeId instanceId =>
    exact Issues.void (Q := fun _ => True) (issues_await ha fun _ _ _ _ => trivial)
  | renewOwnership nodeId instanceId =>
    exact Issues.void (Q := fun _ => True) (issues_await hr fun _ _ _ _ => trivial)
  | releaseOwnership nodeId instanceId =>
    exact Issues.void (Q := fun _ => True) (issues_await hre fun _ _ _ _ => trivial)

end Issues

namespace Step

/-- The client that is told that it holds the key, with its time to live: its `SET NX` found the key
free, or its renewal found its own id. -/
def positive (k : String) (t : Step) : Option (Blob × ℚ) :=
  match t.input, t.cmd with
  | .ok, .keys [(k', .setNx v s)] => if k' = k ∧ t.pre.redis.existsKey k = false then some (v, s) else none
  | .ok, .keys [(k', .renew v s)] => if k' = k ∧ (luaRenew k v s t.pre.redis).1 = true then some (v, s) else none
  | _, _ => none

def renews (k : String) (v : Blob) (t : Step) : Prop := ∃ s, t.cmd = .keys [(k, .renew v s)]

def releases (k : String) (v : Blob) (t : Step) : Prop := t.cmd = .keys [(k, .release v)]

end Step

section Answers
variable {k : String} {ttl : Blob → ℚ} {t : Step} {v : Blob} {s : ℚ}

theorem grants_of_positive (h : t.positive k = some (v, s)) (hc : t.cmd.OnLease k ttl) :
    Lease.grants (t.pre.lease k) (t.leaseOp k) = some v ∧ s = ttl v := by
  obtain ⟨c, i, w⟩ := t
  unfold Step.positive at h
  split at h
  · rename_i k' v' s' hi hcm
    dsimp only at hi hcm hc
    subst hi hcm
    split at h
    · rename_i hf
      obtain ⟨rfl, hf⟩ := hf
      cases h
      have hn : (w.redis.strings k').isSome = false := hf
      refine ⟨?_, ?_⟩
      · simp [Step.leaseOp, Step.applied, Fault.applied, Command.leaseOp, Lease.grants, World.lease, hn]
      · cases hc with
        | acquire v => rfl
        | other hk => exact absurd (by simp [Command.stringKeys]) hk
    · cases h
  · rename_i k' v' s' hi hcm
    dsimp only at hi hcm hc
    subst hi hcm
    split at h
    · rename_i how
      obtain ⟨rfl, how⟩ := how
      cases h
      have ho : (w.lease k').owner = some v := by
        unfold luaRenew at how
        split at how
        · assumption
        · cases how
      refine ⟨?_, ?_⟩
      · simp [Step.leaseOp, Step.applied, Fault.applied, Command.leaseOp, Lease.grants, ho]
      · cases hc with
        | renew v => rfl
        | other hk => exact absurd (by simp [Command.stringKeys]) hk
    · cases h
  · cases h

theorem releases_of_leaseOp (h : t.leaseOp k = .release v) : t.releases k v := by
  unfold Step.leaseOp at h
  split at h
  · unfold Command.leaseOp at h
    unfold Step.releases
    split at h
    · split at h <;> cases h
    · split at h <;> cases h
    · rename_i hc
      split at h
      · rename_i hk
        cases h
        rw [hc, hk]
      · cases h
    · cases h
    · cases h
  · cases h

theorem strings_of_foreign {held : Blob} {d : Option ℚ} (hop : t.renews k v ∨ t.releases k v)
    (hh : t.pre.redis.strings k = some (held, d)) (hne : held ≠ v) :
    t.post.redis.strings k = t.pre.redis.strings k := by
  have hget : t.pre.redis.get k ≠ some v := by
    rw [Redis.get, hh]
    exact fun h => hne (Option.some.inj h)
  obtain ⟨c, i, w⟩ := t
  unfold Step.post Command.apply
  dsimp only at hget ⊢
  rcases hop with ⟨s, hc⟩ | hc
  · dsimp only at hc
    subst hc
    split
    · simp [World.exec, World.onRedis, World.runKeys, KeyOp.exec, luaRenew, hget]
    · rfl
  · simp only [Step.releases] at hc
    subst hc
    split
    · simp [World.exec, World.onRedis, World.runKeys, KeyOp.exec, luaLockRelease, hget]
    · rfl

theorem positive_setNx {w : World} (h : w.redis.existsKey k = false) :
    Step.positive k ⟨.keys [(k, .setNx v s)], .ok, w⟩ = some (v, s) := by
  simp [Step.positive, h]

theorem positive_renew {w : World} (h : (luaRenew k v s w.redis).1 = true) :
    Step.positive k ⟨.keys [(k, .renew v s)], .ok, w⟩ = some (v, s) := by
  simp [Step.positive, h]

theorem positive_of_elected {rc : TaskReconciler} {steps : List Step}
    (h : Steps rc.tryBecomeLeader steps (.ret true)) :
    ∃ t ∈ steps, t.positive reconcileLeaderKey = some (.text rc.instanceId, (rc.leaderTtl : ℚ)) := by
  unfold TaskReconciler.tryBecomeLeader at h
  cases h with
  | cons i w h =>
    cases i with
    | fail _ => cases h
    | cancel _ => cases h
    | ok =>
      by_cases hf : w.redis.existsKey reconcileLeaderKey = false
      · exact ⟨_, mem_cons_self, positive_setNx hf⟩
      · -- the key is taken, so the renewal decides
        simp only [Bool.not_eq_false] at hf
        simp only [hf, Bool.not_true, Prog.bind, Bool.false_eq_true, if_false] at h
        obtain ⟨w', rfl, hr⟩ := steps_await_ret h
        exact ⟨_, mem_cons_of_mem _ mem_cons_self, positive_renew (Except.ok.inj hr)⟩

theorem positive_of_owned {nodeId instanceId : String} {steps : List Step}
    (h : Steps (NodeAgent.acquireOwnership nodeId instanceId) steps (.ret true) ∨
      Steps (NodeAgent.renewOwnership nodeId instanceId) steps (.ret true)) :
    ∃ t ∈ steps, t.positive (NodeAgent.ownerKey nodeId) = some (.text instanceId, NodeAgent.ownerTtl) := by
  rcases h with h | h
  · obtain ⟨w, rfl, hr⟩ := steps_await_ret h
    exact ⟨_, mem_cons_self, positive_setNx (by simpa using Except.ok.inj hr)⟩
  · obtain ⟨w, rfl, hr⟩ := steps_await_ret h
    exact ⟨_, mem_cons_self, positive_renew (Except.ok.inj hr)⟩

end Answers

theorem exists_ttl {k : String} (calls : List LeaseCall)
    (h : ∀ call ∈ calls, ∀ call' ∈ calls, call.key = k → call'.key = k → call.client = call'.client →
      call.ttl = call'.ttl) : ∃ ttl : Blob → ℚ, ∀ call ∈ calls, call.key = k → ttl call.client = call.ttl := by
  refine ⟨fun v => ((calls.find? fun call => call.key = k ∧ call.client = v).map LeaseCall.ttl).getD 0, ?_⟩
  intro call hc hk
  have hf : (calls.find? fun call' => decide (call'.key = k ∧ call'.client = call.client)).isSome = true :=
    List.find?_isSome.mpr ⟨call, hc, by simp [hk]⟩
  obtain ⟨call', hc'⟩ := Option.isSome_iff_exists.mp hf
  have hs := List.find?_some hc'
  simp only [decide_eq_true_eq] at hs
  dsimp only
  rw [hc']
  exact h call' (mem_of_find?_eq_some hc') call hc hs.1 hk hs.2

def Move.started {η ι : Type} : Move LeaseCall η ι → Option LeaseCall
  | .start call => some call
  | _ => none

theorem mem_started {η ι : Type} {ms : List (Move LeaseCall η ι)} {call : LeaseCall} :
    call ∈ ms.filterMap Move.started ↔ Move.start call ∈ ms := by
  rw [mem_filterMap]
  constructor
  · rintro ⟨m, hm, hc⟩
    cases m with
    | start call' =>
      cases hc
      exact hm
    | step j i => cases hc
    | env e i => cases hc
  · intro h
    exact ⟨_, h, rfl⟩

theorem leaseRun_trace {k : String} {ttl : Blob → ℚ} (w : World) {ms : List (Move LeaseCall Command Fault)}
    (hcl : ∀ call, Move.start call ∈ ms → call.key = k → ttl call.client = call.ttl)
    (hw : ∀ c i, Move.env c i ∈ ms → k ∉ c.stringKeys) :
    let sys := leaseSystem.run (Sys.init w) ms
    Lease.Run ttl (w.lease k) (sys.trace.map fun t => (Step.leaseOp k t, t.pre.lease k)) (sys.world.lease k) ∧
      ∀ t ∈ sys.trace, t.cmd.OnLease k ttl := by
  refine (System.run_invariant_of_moves (S := leaseSystem) (I := fun _ => True) (C := Command.OnLease k ttl)
    (J := fun trace w' => Lease.Run ttl (w.lease k) (trace.map fun t => (Step.leaseOp k t, t.pre.lease k))
      (w'.lease k) ∧ ∀ t ∈ trace, t.cmd.OnLease k ttl)
    (fun _ _ _ => trivial) ?_ ?_ ?_ (s := Sys.init w) ?_ ?_).1
  · rintro trace w' c i hc ⟨hr, htr⟩
    refine ⟨?_, forall_mem_cons.mpr ⟨hc, htr⟩⟩
    rw [map_cons]
    change Lease.Run ttl (w.lease k) _ ((c.apply i w').lease k)
    rw [lease_step hc i]
    exact .cons _ hr
  · exact fun call hca => onLease_call call (hcl call hca)
  · exact fun c i hc => .other (hw c i hc)
  · exact fun _ hp => absurd hp not_mem_nil
  · exact ⟨.nil, fun _ ht => absurd ht not_mem_nil⟩

/-- Any number of executions, elections and ownership calls interleave, while nobody else writes the
key and the calls under one id have one time to live. A renewal or a release leaves the key of
another client as it is. A positive answer to one client comes after the time granted to another
before it, if that one has not released the key since. Winning an election and owning a node are
positive answers. -/
theorem lease_periods_disjoint (k : String) (w : World) (ms : List (Move LeaseCall Command Fault))
    (hclients : ∀ call call', Move.start call ∈ ms → Move.start call' ∈ ms → call.key = k → call'.key = k →
      call.client = call'.client → call.ttl = call'.ttl) (hwriters : ∀ c i, Move.env c i ∈ ms → k ∉ c.stringKeys) :
    let trace := (leaseSystem.run (Sys.init w) ms).trace
    (∀ t : Step, t ∈ trace → ∀ v held d, t.renews k v ∨ t.releases k v →
      t.pre.redis.strings k = some (held, d) → held ≠ v → t.post.redis.strings k = t.pre.redis.strings k) ∧
    (∀ (later between earlier : List Step) (a b : Step) va vb sa sb,
      trace = later ++ b :: between ++ a :: earlier →
      a.positive k = some (va, sa) → b.positive k = some (vb, sb) → va ≠ vb →
      (∀ t ∈ between, ¬ t.releases k va) → a.pre.redis.clock + sa ≤ b.pre.redis.clock) ∧
    (∀ (rc : TaskReconciler) (steps : List Step), Steps rc.tryBecomeLeader steps (.ret true) →
      ∃ t ∈ steps, t.positive reconcileLeaderKey = some (.text rc.instanceId, (rc.leaderTtl : ℚ))) ∧
    (∀ nodeId instanceId (steps : List Step),
      Steps (NodeAgent.acquireOwnership nodeId instanceId) steps (.ret true) ∨
        Steps (NodeAgent.renewOwnership nodeId instanceId) steps (.ret true) →
      ∃ t ∈ steps, t.positive (NodeAgent.ownerKey nodeId) = some (.text instanceId, NodeAgent.ownerTtl)) := by
  intro trace
  obtain ⟨ttl, httl⟩ := exists_ttl (k := k) (ms.filterMap Move.started)
    fun call hc call' hca' => hclients call call' (mem_started.mp hc) (mem_started.mp hca')
  obtain ⟨hru, hcm⟩ := leaseRun_trace w (fun call hc => httl call (mem_started.mpr hc)) hwriters
  refine ⟨?_, ?_, fun rc steps h => positive_of_elected h, fun nodeId instanceId steps h => positive_of_owned h⟩
  · intro t _ v held d hop hh hne
    exact strings_of_foreign hop hh hne
  · intro later between earlier a b va vb sa sb htr ha hb hne hk
    have hc' : ∀ t ∈ later ++ b :: between ++ a :: earlier, t.cmd.OnLease k ttl := htr ▸ hcm
    obtain ⟨hg, rfl⟩ := grants_of_positive ha (hc' a (by simp))
    obtain ⟨hgr, _⟩ := grants_of_positive hb (hc' b (by simp))
    change Lease.Run ttl _ (trace.map _) _ at hru
    rw [htr, List.append_assoc, List.map_append] at hru
    obtain ⟨s', hru⟩ := hru.of_append
    rw [List.cons_append, List.map_cons, List.map_append, List.map_cons] at hru
    refine Lease.disjoint hru hg hgr hne ?_
    intro e he hr
    obtain ⟨t, ht, rfl⟩ := List.mem_map.mp he
    exact hk t ht (releases_of_leaseOp hr)

def twoOwners : List (Move LeaseCall Command Fault) :=
  [.start (.acquireOwnership "n" "a"), .step 0 .ok, .env (.advance 30) .ok,
    .start (.acquireOwnership "n" "b"), .step 1 .ok]

theorem lease_periods_disjoint_twoOwners :
    let first : Step := ⟨.keys [(NodeAgent.ownerKey "n", .setNx (.text "a") 30)], .ok, World.empty⟩
    let pass : Step := ⟨.advance 30, .ok, first.post⟩
    let second : Step := ⟨.keys [(NodeAgent.ownerKey "n", .setNx (.text "b") 30)], .ok, pass.post⟩
    (leaseSystem.run (Sys.init World.empty) twoOwners).trace = [second, pass, first] ∧
      first.positive (NodeAgent.ownerKey "n") = some (.text "a", 30) ∧
      second.positive (NodeAgent.ownerKey "n") = some (.text "b", 30) ∧
      first.pre.redis.clock + 30 ≤ second.pre.redis.clock := by
  intro first pass second
  have htr : (leaseSystem.run (Sys.init World.empty) twoOwners).trace = [] ++ second :: [pass] ++ first :: [] := rfl
  have hf : first.positive (NodeAgent.ownerKey "n") = some (.text "a", 30) := by decide +kernel
  have hs : second.positive (NodeAgent.ownerKey "n") = some (.text "b", 30) := by decide +kernel
  refine ⟨htr, hf, hs, ?_⟩
  refine (lease_periods_disjoint (NodeAgent.ownerKey "n") World.empty twoOwners ?_ ?_).2.1 [] [pass] [] first second
    _ _ _ _ htr hf hs (by decide) ?_
  · intro call call' hca hc' _ _ _
    simp only [twoOwners, List.mem_cons, Move.start.injEq, reduceCtorEq, List.not_mem_nil, or_false, false_or] at hca hc'
    rcases hca with rfl | rfl <;> rcases hc' with rfl | rfl <;> rfl
  · intro c i hc
    simp only [twoOwners, List.mem_cons, Move.env.injEq, reduceCtorEq, List.not_mem_nil, or_false, false_or] at hc
    obtain ⟨rfl, _⟩ := hc
    exact List.not_mem_nil
  · intro t ht
    obtain rfl := List.mem_singleton.mp ht
    exact nofun

end AsyncScheduler
