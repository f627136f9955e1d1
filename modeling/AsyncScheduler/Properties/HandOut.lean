import AsyncScheduler.Platform.QueueEffects

/-!
# Exclusive hand-out

Any number of clients call the queue manager while time passes. An id that was handed out waits
again only after another accepted enqueue.
-/

namespace AsyncScheduler

def queueSystem : System Command Fault World PyErr QueueCall ℚ where
  apply := Command.apply
  program := QueueCall.program
  ambient := .advance

/-- Everything but the `ZADD` of the rebuild. -/
def Command.fromManager : Command → Prop
  | .queue op => op.isManagerOp = true
  | _ => True

theorem ambient_fromManager : Ambient Command.fromManager := ⟨trivial, fun _ => trivial, fun _ => rfl⟩

theorem restores_ne_of_fromManager {cmd : Command} {c x : String} (h : cmd.fromManager) :
    cmd.restores ≠ some (c, x) := by
  intro hx
  unfold Command.restores at hx
  split at hx
  · cases h
  · cases hx

section
variable (c x : String)
variable {t : Step} {tr : List Step}

def HeldSince (tr : List Step) : Prop :=
  ∃ later t earlier, tr = later ++ t :: earlier ∧ Step.handedOut t = some (c, x) ∧
    ∀ u ∈ later, Step.accepted u ≠ some (c, x)

def Exclusive (tr : List Step) : Prop :=
  ∀ later t₂ between t₁ earlier, tr = later ++ t₂ :: (between ++ t₁ :: earlier) →
    Step.handedOut t₁ = some (c, x) → Step.handedOut t₂ = some (c, x) →
      ∃ t ∈ between, Step.accepted t = some (c, x)

variable {c x}

theorem HeldSince.cons (h : HeldSince c x (t :: tr)) :
    t.handedOut = some (c, x) ∨ (HeldSince c x tr ∧ t.accepted ≠ some (c, x)) := by
  obtain ⟨later, u, earlier, htr, hu, hl⟩ := h
  cases later with
  | nil =>
    cases htr
    exact .inl hu
  | cons v later =>
    cases htr
    exact .inr ⟨⟨later, u, earlier, rfl, hu, fun y hy => hl y (List.mem_cons_of_mem _ hy)⟩,
      hl _ List.mem_cons_self⟩

theorem not_waiting_step (hm : t.cmd.fromManager)
    (h : HeldSince c x tr → x ∉ t.pre.pending c) (hh : HeldSince c x (t :: tr)) : x ∉ t.post.pending c := by
  rcases hh.cons with ho | ⟨hh, ha⟩
  · exact (Step.handedOut_moves ho).2.2
  · intro hx
    rcases Step.mem_pending_post hx with hx | hx | ⟨_, hx⟩
    · exact h hh hx
    · exact ha hx
    · exact restores_ne_of_fromManager hm hx

/-- A task held since its last hand-out is not pending, so it is not handed out again. -/
theorem exclusive_step (h : HeldSince c x tr → x ∉ t.pre.pending c)
    (he : Exclusive c x tr) : Exclusive c x (t :: tr) := by
  intro later t₂ between t₁ earlier htr h₁ h₂
  cases later with
  | nil =>
    cases htr
    by_contra hn
    refine h ⟨between, t₁, earlier, rfl, h₁, fun u hu ha => hn ⟨u, hu, ha⟩⟩ ?_
    exact (Step.handedOut_moves h₂).1
  | cons u later =>
    cases htr
    exact he later t₂ between t₁ earlier rfl h₁ h₂

end

/-- Between two hand-outs of an id there is an accepted enqueue of it, every hand-out takes an id
from the waiting set to the running set, and a call of `dequeue_ready` that returns an id ends with
the step that hands it out. -/
theorem handOut_exclusive (w : World) (moves : List (Move QueueCall ℚ Fault)) (c x : String) :
    Exclusive c x (queueSystem.run (Sys.init w) moves).trace ∧
      (∀ t ∈ (queueSystem.run (Sys.init w) moves).trace, Step.handedOut t = some (c, x) →
        x ∈ t.pre.pending c ∧ x ∈ (Step.post t).running c ∧ x ∉ (Step.post t).pending c) ∧
      ∀ (q : QueueManager) (steps : List Step), Steps (q.dequeueReady c) steps (.ret (some x)) →
        ∃ first t, steps = first ++ [t] ∧ Step.handedOut t = some (c, x) := by
  refine ⟨?_, fun t _ ht => Step.handedOut_moves ht, fun q steps h => q.handedOut_of_returned h⟩
  refine (System.run_invariant (S := queueSystem) (I := fun _ => True) (C := Command.fromManager)
    (J := fun tr w => (HeldSince c x tr → x ∉ w.pending c) ∧ Exclusive c x tr)
    (fun _ _ _ => trivial) ?_ ?_ (fun _ => trivial) ?_ ?_ moves).2
  · intro tr w cmd i hc ⟨hh, he⟩
    exact ⟨not_waiting_step (t := ⟨cmd, i, w⟩) hc hh, exclusive_step hh he⟩
  · exact fun call => call.issues ambient_fromManager fun op hop => hop
  · exact fun p hp => absurd hp List.not_mem_nil
  · refine ⟨?_, ?_⟩
    · rintro ⟨later, t, earlier, htr, _⟩
      exact absurd htr (by simp [Sys.init])
    · intro later t₂ between t₁ earlier htr
      exact absurd htr (by simp [Sys.init])

/-- Two clients dequeue at the same time, and one of them again after a second enqueue. -/
def twoClients : List (Move QueueCall ℚ Fault) :=
  .start (.enqueue {} "gpu" "t1" 3 0) :: List.replicate 3 (.step 0 .ok) ++
    [.start (.dequeueReady {} "gpu"), .start (.dequeueReady {} "gpu"), .step 1 .ok, .step 2 .ok, .step 2 .ok,
      .step 1 .ok, .start (.enqueue {} "gpu" "t1" 3 0)] ++ List.replicate 3 (.step 3 .ok) ++
    [.start (.dequeueReady {} "gpu"), .step 4 .ok, .step 4 .ok]

theorem handOut_exclusive_twoClients :
    (queueSystem.run (Sys.init World.empty) twoClients).trace.filterMap Step.handedOut =
      [("gpu", "t1"), ("gpu", "t1")] ∧
    Exclusive "gpu" "t1" (queueSystem.run (Sys.init World.empty) twoClients).trace :=
  ⟨by decide +kernel, (handOut_exclusive World.empty twoClients "gpu" "t1").1⟩

section
open QueueKeys Redis

inductive KeyEvent where
  | arrival (t : ℚ) (ttl : Int)
  | clock (t : ℚ)
  deriving DecidableEq, Repr

def KeyEvent.next (d : Option ℚ) : KeyEvent → Option (Option ℚ)
  | .arrival t ttl =>
    if needsRefresh (ttlReply t d) ttl then if 0 < ttl then some (some (t + ttl)) else none
    else some d
  | .clock t => if live t d then some d else none

def replay (d : Option ℚ) (es : List KeyEvent) : Option (Option ℚ) := es.foldlM KeyEvent.next d

theorem replay_concat (d : Option ℚ) (es : List KeyEvent) (e : KeyEvent) :
    replay d (es ++ [e]) = (replay d es).bind (KeyEvent.next · e) := by
  simp [replay, List.foldlM_append]

def Command.keyEvent (c : String) (w : World) : Command → Option KeyEvent
  | .queue (.enqueue c' x sc depth ttl) =>
    if c' = c ∧ (luaEnqueue c' x sc depth ttl w.redis).1.1 ≠ -1 then some (.arrival w.redis.clock ttl)
    else none
  | .advance t => if w.redis.clock < t then some (.clock t) else none
  | _ => none

def Command.cancels (c x : String) : Command → Bool
  | .queue (.cancel c' x') => c' = c ∧ x' = x
  | _ => false

namespace Step

def keyEvent (c : String) (t : Step) : Option KeyEvent :=
  if t.applied then t.cmd.keyEvent c t.pre else none

def cancels (c x : String) (t : Step) : Bool := t.applied && t.cmd.cancels c x

end Step

def Waits (w : World) (c x : String) : Option (Option ℚ) → Prop
  | some d => x ∈ w.pending c ∧ w.redis.deadline (pending c) = d
  | none => x ∉ w.pending c

variable {r : Store} {c x : String}

theorem refresh_pending (ttl : Int) {y : String} (hy : y ∈ r.zsets (pending c)) :
    match KeyEvent.next (r.deadline (pending c)) (.arrival r.clock ttl) with
    | some d => (refreshZset (pending c) ttl r).zsets (pending c) = r.zsets (pending c) ∧
        (refreshZset (pending c) ttl r).deadline (pending c) = d
    | none => (refreshZset (pending c) ttl r).zsets (pending c) = ∅ := by
  have hc : r.zcard (pending c) ≠ 0 := fun h => (SortedSet.card_eq_zero_iff _).mp h y hy
  have httl : r.zttl (pending c) = ttlReply r.clock (r.deadline (pending c)) := by
    rw [zttl, if_neg hc, deadline_of_mem hy]
  unfold refreshZset KeyEvent.next
  rw [httl]
  by_cases hn : needsRefresh (ttlReply r.clock (r.deadline (pending c))) ttl
  · by_cases hpos : 0 < ttl
    · have hp : (0 : ℚ) < ttl := by exact_mod_cast hpos
      simp only [hn, hpos, if_true]
      refine ⟨?_, deadline_zexpireIn _ _ hc hp⟩
      rw [zsets_zexpireIn, if_neg]
      exact fun h => absurd h.2 (not_le.mpr hp)
    · simp only [hn, hpos, if_true, if_false]
      rw [zsets_zexpireIn, if_pos]
      exact ⟨rfl, by exact_mod_cast not_lt.mp hpos⟩
  · simp [hn]

variable {w : World}

section
variable {c' y : String} {sc : ℚ} {depth ttl : Int} {w' : World} {cmd : Command}

theorem waits_enqueue (ha : (luaEnqueue c y sc depth ttl w.redis).1.1 ≠ -1) (hx : x = y ∨ x ∈ w.pending c) :
    Waits (w.exec (.queue (.enqueue c y sc depth ttl))) c x
      (KeyEvent.next (w.redis.deadline (pending c)) (.arrival w.redis.clock ttl)) := by
  rcases luaEnqueue_cases w.redis c y sc depth ttl with ⟨hrej, _⟩ | ⟨_, hr⟩
  · exact absurd hrej ha
  · let r₁ : Store := (w.redis.zadd (pending c) sc y).hincrby (stats c) "total_enqueued" 1
    have hy : y ∈ r₁.zsets (pending c) := by simp [r₁]
    have hd : r₁.deadline (pending c) = w.redis.deadline (pending c) :=
      (deadline_of_sorted (sorted_hincrby ..) _).trans (deadline_zadd ..)
    have hxr : x ∈ r₁.zsets (pending c) := by
      simpa [r₁, World.pending] using hx
    have hc : r₁.clock = w.redis.clock := rfl
    have hs : (w.exec (.queue (.enqueue c y sc depth ttl))).redis.sorted =
        (refreshZset (pending c) ttl r₁).sorted := by
      change ((luaEnqueue c y sc depth ttl w.redis).2).sorted = _
      rw [hr, sorted_refreshHash, sorted_refreshHash]
    have hre := refresh_pending ttl hy
    rw [hd, hc] at hre
    have hz := zsets_of_sorted hs
    have hdl := deadline_of_sorted hs (pending c)
    revert hre
    cases KeyEvent.next (w.redis.deadline (pending c)) (.arrival w.redis.clock ttl) with
    | none =>
      intro he
      rw [Waits, World.pending, hz, he]
      exact SortedSet.mem_empty x
    | some d =>
      rintro ⟨hsa, hn⟩
      refine ⟨?_, hdl.trans hn⟩
      rw [World.pending, hz, hsa]
      exact hxr

theorem waits_advance {t : ℚ} (hx : x ∈ w.pending c) (ht : w.redis.clock < t) :
    Waits (w.exec (.advance t)) c x (KeyEvent.next (w.redis.deadline (pending c)) (.clock t)) := by
  have he : (w.exec (.advance t)).redis = w.redis.advance t := by
    simp [World.exec, ht, World.onRedis]
  have hd := deadline_of_mem hx
  unfold KeyEvent.next
  dsimp only
  rw [hd]
  by_cases hl : live t (w.redis.zexpire (pending c))
  · have hm : x ∈ (w.redis.advance t).zsets (pending c) := by
      rw [zsets_advance, if_pos hl]
      exact hx
    rw [if_pos hl]
    refine ⟨by rw [World.pending, he]; exact hm, ?_⟩
    rw [he, deadline_of_mem hm]
    change (w.redis.zexpire (pending c)).filter (t < ·) = _
    cases hz : w.redis.zexpire (pending c) with
    | none => rfl
    | some d =>
      rw [hz] at hl
      simpa [live] using hl
  · rw [if_neg hl, Waits, World.pending, he, zsets_advance, if_neg hl]
    exact SortedSet.mem_empty x

theorem waits_running_put (hx : x ∈ w.pending c) (z : ZSet)
    (h : w'.redis.sorted = (w.redis.putZset (running c') z).sorted) :
    Waits w' c x (some (w.redis.deadline (pending c))) := by
  refine ⟨?_, ?_⟩
  · rw [World.pending, zsets_of_sorted h, zsets_putZset, if_neg (pending_ne_running c c')]
    exact hx
  · rw [deadline_of_sorted h, deadline_putZset, if_neg (pending_ne_running c c')]

theorem waits_of_redis_eq (hx : x ∈ w.pending c) (h : w'.redis = w.redis) :
    Waits w' c x (some (w.redis.deadline (pending c))) := by
  refine ⟨?_, by rw [h]⟩
  rw [World.pending, h]
  exact hx

theorem waits_zrem (hx : x ∈ w.pending c) (hne : pending c = pending c' → x ≠ y) :
    x ∈ (w.redis.zrem (pending c') y).zsets (pending c) ∧
      (w.redis.zrem (pending c') y).deadline (pending c) = w.redis.deadline (pending c) := by
  refine ⟨?_, deadline_zrem_of_mem _ _ _ _ hx hne⟩
  rw [zsets_zrem]
  split
  · rename_i hk
    exact (SortedSet.mem_remove _ _ _).mpr ⟨hk ▸ hx, hne hk⟩
  · exact hx

theorem waits_not_queue (hq : ∀ op, cmd ≠ .queue op) (hx : x ∈ w.pending c) :
    Waits (w.exec cmd) c x
      (((cmd.keyEvent c w).map (KeyEvent.next (w.redis.deadline (pending c)))).getD
        (some (w.redis.deadline (pending c)))) := by
  rcases exec_of_not_queue w cmd (pending c) (pending_notMem_callbackSets c) hq with
    ⟨hz, he⟩ | ⟨t, rfl, ht, _⟩
  · have hk : Waits (w.exec cmd) c x (some (w.redis.deadline (pending c))) := by
      refine ⟨by rw [World.pending, hz]; exact hx, ?_⟩
      rw [deadline, deadline, hz, he]
    cases cmd with
    | advance t =>
      by_cases ht : w.redis.clock < t
      · simpa [Command.keyEvent, ht] using waits_advance hx ht
      · simpa [Command.keyEvent, ht] using hk
    | queue op => exact absurd rfl (hq op)
    | _ => exact hk
  · simpa [Command.keyEvent, ht] using waits_advance hx ht

theorem waits_enqueue_other (hx : x ∈ w.pending c) (h : (luaEnqueue c' y sc depth ttl w.redis).1.1 = -1 ∨ c' ≠ c) :
    Waits (w.exec (.queue (.enqueue c' y sc depth ttl))) c x (some (w.redis.deadline (pending c))) := by
  rcases h with hre | hc
  · rcases luaEnqueue_cases w.redis c' y sc depth ttl with ⟨_, hr⟩ | ⟨hne, _⟩
    · exact waits_of_redis_eq hx hr
    · exact absurd hre hne
  · have hk : pending c ≠ pending c' := fun h => hc (pending_eq_pending.mp h).symm
    refine ⟨?_, deadline_luaEnqueue_of_ne _ _ _ _ _ _ _ hk⟩
    change x ∈ (luaEnqueue c' y sc depth ttl w.redis).2.zsets (pending c)
    rw [zsets_luaEnqueue_of_ne _ _ _ _ _ _ _ hk]
    exact hx

theorem waits_dequeueReady {mc nowMs limit : Int} (hx : x ∈ w.pending c)
    (ho : (Command.queue (.dequeueReady c' mc nowMs limit)).handsOut w ≠ some (c, x)) :
    Waits (w.exec (.queue (.dequeueReady c' mc nowMs limit))) c x
      (some (w.redis.deadline (pending c))) := by
  rcases luaDequeueReady_cases w.redis c' mc nowMs limit with ⟨_, hr⟩ | ⟨y, hy, _, hr⟩
  · exact waits_of_redis_eq hx hr
  · have hne : pending c = pending c' → x ≠ y := by
      rintro hk rfl
      exact ho (by simp [Command.handsOut, hy, pending_eq_pending.mp hk])
    obtain ⟨hm, hd⟩ := waits_zrem hx hne
    refine ⟨?_, ?_⟩
    · change x ∈ (luaDequeueReady c' mc nowMs limit w.redis).2.zsets (pending c)
      rw [hr, zsets_hincrby, zsets_zadd, if_neg (pending_ne_running c c')]
      exact hm
    · change (luaDequeueReady c' mc nowMs limit w.redis).2.deadline (pending c) = _
      rw [hr, deadline_of_sorted (sorted_hincrby ..), deadline_zadd]
      exact hd

theorem waits_cancel (hx : x ∈ w.pending c) (hc : (Command.queue (.cancel c' y)).cancels c x = false) :
    Waits (w.exec (.queue (.cancel c' y))) c x (some (w.redis.deadline (pending c))) := by
  have hne : pending c = pending c' → x ≠ y := by
    rintro hk rfl
    simp [Command.cancels, pending_eq_pending.mp hk] at hc
  change x ∈ (luaCancel c' y w.redis).2.zsets (pending c) ∧
    (luaCancel c' y w.redis).2.deadline (pending c) = w.redis.deadline (pending c)
  unfold luaCancel
  split
  · exact waits_zrem hx hne
  · rw [zsets_zrem, if_neg (pending_ne_running c c')]
    exact ⟨hx, deadline_zrem_of_mem _ _ _ _ hx fun h => absurd h (pending_ne_running c c')⟩

/-- A task not taken out waits as the deadline of its set says. -/
theorem waits_exec (hx : x ∈ w.pending c) (hou : cmd.handsOut w ≠ some (c, x)) (hc : cmd.cancels c x = false) :
    Waits (w.exec cmd) c x
      (((cmd.keyEvent c w).map (KeyEvent.next (w.redis.deadline (pending c)))).getD
        (some (w.redis.deadline (pending c)))) := by
  by_cases hq : ∀ op, cmd ≠ .queue op
  · exact waits_not_queue hq hx
  · obtain ⟨op, rfl⟩ := not_forall_not.mp hq
    cases op with
    | enqueue c' y sc depth ttl =>
      by_cases ha : c' = c ∧ (luaEnqueue c' y sc depth ttl w.redis).1.1 ≠ -1
      · obtain ⟨rfl, hac⟩ := ha
        simpa [Command.keyEvent, hac] using waits_enqueue hac (.inr hx)
      · have ho : (luaEnqueue c' y sc depth ttl w.redis).1.1 = -1 ∨ c' ≠ c := by tauto
        simpa [Command.keyEvent, ha] using waits_enqueue_other hx ho
    | dequeueReady c' mc nowMs limit => exact waits_dequeueReady hx hou
    | cancel c' y => exact waits_cancel hx hc
    | complete c' y counter | releaseRunning c' y | removeStale c' ys => exact waits_running_put hx _ rfl
    | register c' => exact ⟨hx, rfl⟩
    | restore c' y sc =>
      refine ⟨?_, deadline_zadd ..⟩
      change x ∈ (w.redis.zadd (pending c') sc y).zsets (pending c)
      rw [zsets_zadd]
      split
      · rename_i hk
        exact (SortedSet.mem_add _ _ _ _).mpr (.inr (hk ▸ hx))
      · exact hx

end

def Untouched (c x : String) (later : List Step) : Prop :=
  ∀ u ∈ later, u.handedOut ≠ some (c, x) ∧ u.cancels c x = false ∧ u.accepted ≠ some (c, x)

/-- The deadline replayed from an accepted enqueue over the steps after it, newest first. -/
def lifetime (c : String) (t : Step) (later : List Step) : Option (Option ℚ) :=
  replay (t.pre.redis.deadline (pending c)) ((t :: later.reverse).filterMap (Step.keyEvent c))

variable {t u : Step} {later : List Step}

theorem lifetime_cons :
    lifetime c t (u :: later) =
      match u.keyEvent c with
      | none => lifetime c t later
      | some e => (lifetime c t later).bind (KeyEvent.next · e) := by
  unfold lifetime
  rw [List.reverse_cons, ← List.cons_append, List.filterMap_append]
  cases he : u.keyEvent c with
  | none => simp [he]
  | some e => rw [List.filterMap_cons_some he, List.filterMap_nil, replay_concat]

theorem accepted_eq_some {c x : String} {t : Step} (h : t.accepted = some (c, x)) :
    t.applied ∧ ∃ sc depth ttl, t.cmd = .queue (.enqueue c x sc depth ttl) ∧
      (luaEnqueue c x sc depth ttl t.pre.redis).1.1 ≠ -1 := by
  unfold Step.accepted at h
  split at h
  · rename_i ha
    refine ⟨ha, ?_⟩
    unfold Command.accepts at h
    split at h
    · rename_i c' x' sc depth ttl hc
      split at h
      · cases h
      · rename_i hac
        cases h
        exact ⟨sc, depth, ttl, hc, hac⟩
    · cases h
  · cases h

theorem waits_accepted (h : t.accepted = some (c, x)) : Waits t.post c x (lifetime c t []) := by
  obtain ⟨ha, sc, depth, ttl, hc, hac⟩ := accepted_eq_some h
  have he : t.keyEvent c = some (.arrival t.pre.redis.clock ttl) := by
    simp [Step.keyEvent, ha, hc, Command.keyEvent, hac]
  have hl : lifetime c t [] =
      KeyEvent.next (t.pre.redis.deadline (pending c)) (.arrival t.pre.redis.clock ttl) := by
    simp [lifetime, replay, he]
  rw [hl, Step.post_eq, if_pos ha, hc]
  exact waits_enqueue hac (.inl rfl)

theorem waits_step (hm : u.cmd.fromManager) (hu : Untouched c x [u])
    (h : Waits u.pre c x (lifetime c t later)) : Waits u.post c x (lifetime c t (u :: later)) := by
  obtain ⟨ho, hc, hac⟩ := hu u List.mem_cons_self
  rw [lifetime_cons]
  cases hl : lifetime c t later with
  | none =>
    rw [hl] at h
    have hlo : Waits u.post c x none := by
      intro hx
      rcases Step.mem_pending_post hx with hx | hx | ⟨_, hx⟩
      · exact h hx
      · exact hac hx
      · exact restores_ne_of_fromManager hm hx
    cases u.keyEvent c with
    | none => exact hlo
    | some e => exact hlo
  | some d =>
    rw [hl] at h
    rw [Step.post_eq]
    by_cases ha : u.applied
    · simp only [Step.handedOut, Step.cancels, ha, if_true, Bool.true_and] at ho hc
      have he := waits_exec h.1 ho hc
      rw [h.2] at he
      rw [if_pos ha, Step.keyEvent, if_pos ha]
      cases hev : u.cmd.keyEvent c u.pre with
      | none | some e => simpa [hev] using he
    · rw [if_neg ha, Step.keyEvent, if_neg ha]
      exact h

/-- In every run, an accepted id that was neither handed out nor cancelled nor accepted again
since is waiting exactly if the deadline of its pending key, replayed from that enqueue, was
never reached. -/
theorem waiting_iff_lifetime (w : World) (moves : List (Move QueueCall ℚ Fault)) (c x : String)
    (later earlier : List Step) (t : Step)
    (htrace : (queueSystem.run (Sys.init w) moves).trace = later ++ t :: earlier)
    (haccepted : t.accepted = some (c, x)) (huntouched : Untouched c x later) :
    x ∈ (queueSystem.run (Sys.init w) moves).world.pending c ↔ (lifetime c t later).isSome := by
  have hr := System.run_invariant (S := queueSystem) (I := fun _ => True) (C := Command.fromManager)
    (J := fun tr w => ∀ later t earlier, tr = later ++ t :: earlier →
      Step.accepted t = some (c, x) → Untouched c x later → Waits w c x (lifetime c t later))
    (fun _ _ _ => trivial) ?_ (fun call => call.issues ambient_fromManager fun op hop => hop)
    (fun _ => trivial) (s := Sys.init w) (fun p hp => absurd hp List.not_mem_nil) ?_ moves
  · have hw := hr later t earlier htrace haccepted huntouched
    cases hl : lifetime c t later with
    | none =>
      rw [hl] at hw
      exact ⟨fun hx => absurd hx hw, fun h => absurd h (by simp)⟩
    | some d =>
      rw [hl] at hw
      exact ⟨fun _ => rfl, fun _ => hw.1⟩
  · intro tr w cmd i hc ih later t earlier htr ha hun
    cases later with
    | nil =>
      cases htr
      exact waits_accepted ha
    | cons u later =>
      cases htr
      refine waits_step hc (fun v hv => hun v ?_) (ih later t earlier rfl ha fun v hv => hun v ?_)
      · rw [List.mem_singleton.mp hv]
        exact List.mem_cons_self
      · exact List.mem_cons_of_mem _ hv
  · intro later t earlier htr
    exact absurd htr (by simp [Sys.init])

def delayedEnqueue : List (Move QueueCall ℚ Fault) :=
  [.start (.enqueue {} "gpu" "t1" 3 7200000), .step 0 .ok, .step 0 .ok, .step 0 .ok, .env 3600 .ok]

theorem delayedEnqueue_lost :
    (queueSystem.run (Sys.init World.empty) delayedEnqueue).trace.map Step.accepted =
      [none, none, some ("gpu", "t1"), none] ∧
    (∀ t ∈ (queueSystem.run (Sys.init World.empty) delayedEnqueue).trace,
      Step.handedOut t = none ∧ Step.cancels "gpu" "t1" t = false) ∧
    "t1" ∉ (queueSystem.run (Sys.init World.empty) delayedEnqueue).world.pending "gpu" := by
  decide +kernel

theorem waiting_iff_lifetime_delayedEnqueue : ∃ later t earlier,
    (queueSystem.run (Sys.init World.empty) delayedEnqueue).trace = later ++ t :: earlier ∧
    Step.accepted t = some ("gpu", "t1") ∧
    ("t1" ∈ (queueSystem.run (Sys.init World.empty) delayedEnqueue).world.pending "gpu" ↔
      (lifetime "gpu" t later).isSome) := by
  have hs := eq_around (l := (queueSystem.run (Sys.init World.empty) delayedEnqueue).trace) 2
    (by decide +kernel)
  have ha : Step.accepted ((queueSystem.run (Sys.init World.empty) delayedEnqueue).trace.get
      ⟨2, by decide +kernel⟩) = some ("gpu", "t1") := by decide +kernel
  have hu : Untouched "gpu" "t1"
      ((queueSystem.run (Sys.init World.empty) delayedEnqueue).trace.take 2) := by
    unfold Untouched
    decide +kernel
  exact ⟨_, _, _, hs, ha, waiting_iff_lifetime World.empty delayedEnqueue "gpu" "t1"
    _ _ _ hs ha hu⟩

end

end AsyncScheduler
