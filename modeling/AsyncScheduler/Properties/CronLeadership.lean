import AsyncScheduler.Platform.CronScheduler

/-!
# Leadership of the cron schedulers

An instance that finds its own id in the leader key renews the key with a second command.
-/

namespace AsyncScheduler

abbrev ControlStep := Transition ControlCommand Fault ControlWorld

/-- Programs of the control plane, interleaved with each other and with the passing of time. -/
def controlSystem : System ControlCommand Fault ControlWorld PyErr Empty ℚ where
  apply := ControlCommand.apply
  program := nofun
  ambient := .advance

abbrev ControlMove := Move Empty ℚ Fault

def elections (cs : Nat → CronScheduler) (w : ControlWorld) (calls : List Nat) :
    Sys ControlCommand Fault ControlWorld PyErr :=
  ⟨w, calls.map fun n => (cs n).tryBecomeLeader.void, []⟩

section
variable (cs : Nat → CronScheduler) (w : ControlWorld) (calls : List Nat) (ms : List ControlMove)

def callSteps (j : Nat) : List ControlStep := controlSystem.stepsOf j (elections cs w calls) ms

structure ExclusiveLead : Prop where
  /-- Whoever is told to lead holds the key after its last command. -/
  holds : ∀ j n, calls[j]? = some n → Steps (cs n).tryBecomeLeader (callSteps cs w calls ms j) (.ret true) →
    ∀ t, (callSteps cs w calls ms j).getLast? = some t →
      (t.cmd.apply t.input t.pre).redis.get cronLeaderKey = some (some (.text (cs n).instanceId))
  /-- Nobody extends the key of another. -/
  renews : ∀ j n, calls[j]? = some n → ∀ t ∈ callSteps cs w calls ms j, ∀ seconds v,
    t.cmd = .expire cronLeaderKey seconds → t.input.applied = true →
      t.pre.redis.get cronLeaderKey = some (some v) → v = .text (cs n).instanceId

/-- The key that a call has read as its own does not expire before the call renews it. -/
def Timely : Prop :=
  ∀ j s g e, callSteps cs w calls ms j = [s, g, e] → ∀ deadline, g.pre.redis.deadline cronLeaderKey = some deadline →
    e.pre.redis.clock < deadline

def PausesWithin (δ : ℚ) : Prop :=
  ∀ j s g e, callSteps cs w calls ms j = [s, g, e] → e.pre.redis.clock - g.pre.redis.clock ≤ δ

end

/-- What a call knows: the instance it is of, the deadline of the key it has read as its own, and
whether it renewed the key too late. -/
structure Candidate where
  inst : Nat
  seen : Option (Option ℚ)
  late : Bool

section
variable (cs : Nat → CronScheduler)

def electing (l : Candidate) (t : ControlStep) : Option Candidate :=
  match t.cmd with
  | .set k v nx ex =>
    if k = cronLeaderKey ∧ v = .text (cs l.inst).instanceId ∧ nx = true ∧ ex = some ((cs l.inst).leaderTtl : ℚ) then some l
    else none
  | .read =>
    some (if t.pre.redis.get cronLeaderKey = some (some (.text (cs l.inst).instanceId)) then
      { l with seen := some (t.pre.redis.deadline cronLeaderKey) } else l)
  | .expire k seconds =>
    match l.seen with
    | none => none
    | some deadline =>
      if k = cronLeaderKey ∧ seconds = ((cs l.inst).leaderTtl : ℚ) then
        some ⟨l.inst, none, l.late || !Redis.live t.pre.redis.clock deadline⟩
      else none
  | _ => none

variable {cs} {n : Nat} {w : ControlWorld}

variable (cs n) in
def takes : ControlCommand := .set cronLeaderKey (.text (cs n).instanceId) true (some (cs n).leaderTtl)

variable (cs n) in
def extension : ControlCommand := .expire cronLeaderKey (cs n).leaderTtl

variable (cs n w) in
def Owns : Prop := w.redis.get cronLeaderKey = some (some (.text (cs n).instanceId))

theorem electing_cases {l l' : Candidate} {t : ControlStep} (h : electing cs l t = some l') :
    t.cmd = takes cs l.inst ∧ l' = l ∨
      t.cmd = .read ∧ (l' = l ∨
        Owns cs l.inst t.pre ∧ l' = { l with seen := some (t.pre.redis.deadline cronLeaderKey) }) ∨
      t.cmd = extension cs l.inst ∧ ∃ dl, l.seen = some dl ∧
        l' = ⟨l.inst, none, l.late || !Redis.live t.pre.redis.clock dl⟩ := by
  unfold electing at h
  split at h
  · next hc =>
    split at h
    · next hs =>
      obtain ⟨rfl, rfl, rfl, rfl⟩ := hs
      exact .inl ⟨hc, (Option.some.inj h).symm⟩
    · cases h
  · next hc =>
    refine .inr (.inl ⟨hc, ?_⟩)
    split at h
    · next ho => exact .inr ⟨ho, (Option.some.inj h).symm⟩
    · exact .inl (Option.some.inj h).symm
  · next hc =>
    split at h
    · cases h
    · next dl hse =>
      split at h
      · next hs =>
        obtain ⟨rfl, rfl⟩ := hs
        exact .inr (.inr ⟨hc, dl, hse, (Option.some.inj h).symm⟩)
      · cases h
  · cases h

theorem owns_of_reply {current : Option Stored} (h : orWrongType (w.redis.get cronLeaderKey) = .ok current)
    (ho : current = some (.text (cs n).instanceId)) : Owns cs n w := by
  unfold Owns
  cases hget : w.redis.get cronLeaderKey with
  | none =>
    rw [hget] at h
    cases h
  | some found =>
    rw [hget] at h
    cases h
    rw [ho]

variable (cs) in
theorem follows_tryBecomeLeader (n : Nat) :
    Follows (fun _ => True) (electing cs) (fun _ _ => True) (cs n).tryBecomeLeader ⟨n, none, false⟩ := by
  refine Follows.bind (Q := fun l _ => l = ⟨n, none, false⟩) (follows_awaiting fun i w _ => ⟨_, ?_, rfl⟩) ?_ fun _ _ _ => trivial
  · simp [electing]
  rintro l ok rfl
  split
  · trivial
  refine Follows.bind (Q := fun l r => ∀ c, r = .ok c → c = some (.text (cs n).instanceId) → ∃ dl, l = ⟨n, some dl, false⟩)
    (follows_awaiting fun i w _ => ⟨_, rfl, ?_⟩) ?_ fun _ _ _ => trivial
  · -- the reply that `GET` gives is the one that is remembered
    intro c hc ho
    cases i with
    | ok => exact ⟨_, if_pos (owns_of_reply hc ho)⟩
    | fail applied => cases hc
    | cancel applied => cases hc
  intro l current hcu
  split
  · next ho =>
    obtain ⟨dl, rfl⟩ := hcu _ rfl ho
    refine Follows.bind (Q := fun _ _ => True) (follows_awaiting fun i w _ =>
      ⟨⟨n, none, false || !Redis.live w.redis.clock dl⟩, ?_, trivial⟩) (fun _ _ _ => trivial) fun _ _ _ => trivial
    simp [electing]
  · trivial

end

section
variable (cs : Nat → CronScheduler)
variable {l : Candidate} {n : Nat} {t : ℚ} {j : Nat}

def HeldBy (w : ControlWorld) (n : Nat) (deadline : ℚ) : Prop :=
  w.redis.entries cronLeaderKey = some (.string (.text (cs n).instanceId), some deadline)

def Leased (w : ControlWorld) : Prop :=
  ∀ e, w.redis.entries cronLeaderKey = some e → ∃ n deadline, e = (.string (.text (cs n).instanceId), some deadline) ∧
    w.redis.clock < deadline ∧ deadline ≤ w.redis.clock + (cs n).leaderTtl

variable (n : Nat) (w : ControlWorld) in
def acquired : ControlWorld := w.onRedis (·.set cronLeaderKey (.text (cs n).instanceId) (some (cs n).leaderTtl))

variable (n : Nat) (w : ControlWorld) in
def renewed : ControlWorld := w.onRedis (·.expire cronLeaderKey (cs n).leaderTtl)

def Remembered (st : Nat → Candidate) (w : ControlWorld) : Prop :=
  ∀ j dl, (st j).seen = some dl → ∃ deadline, dl = some deadline ∧
    (w.redis.clock < deadline → ∃ deadline', HeldBy cs w (st j).inst deadline' ∧ deadline ≤ deadline')

variable {cs} {w : ControlWorld} {st : Nat → Candidate}

theorem get_of_heldBy {deadline : ℚ} (h : HeldBy cs w n deadline) : Owns cs n w := by
  rw [Owns, Keyspace.get, h]

theorem heldBy_of_owns (h : Owns cs n w) : ∃ dl, w.redis.entries cronLeaderKey = some (.string (.text (cs n).instanceId), dl) := by
  unfold Owns Keyspace.get at h
  split at h
  · cases h
  · next v dl hk =>
    cases h
    exact ⟨dl, hk⟩
  · cases h

variable (hid : Function.Injective fun n => (cs n).instanceId)

include hid in
theorem Leased.heldBy (hl : Leased cs w)
    {e : Value Stored × Option ℚ} (hk : w.redis.entries cronLeaderKey = some e)
    (he : e.1 = .string (.text (cs n).instanceId)) :
    ∃ deadline, e.2 = some deadline ∧ w.redis.clock < deadline ∧ deadline ≤ w.redis.clock + (cs n).leaderTtl := by
  obtain ⟨n', deadline, rfl, hli, hb⟩ := hl e hk
  have hs : n' = n := by
    apply hid
    simpa using he
  subst hs
  exact ⟨deadline, rfl, hli, hb⟩

theorem leased_acquire (n : Nat) (httl : 0 < (cs n).leaderTtl) :
    Leased cs (acquired cs n w) := by
  intro e he
  rw [acquired, ControlWorld.onRedis, Keyspace.set_eq_touch, Keyspace.entries_touch, if_pos rfl] at he
  cases he
  refine ⟨n, w.redis.clock + (cs n).leaderTtl, rfl, ?_, le_rfl⟩
  have hpos : (0 : ℚ) < (cs n).leaderTtl := by exact_mod_cast httl
  change w.redis.clock < w.redis.clock + (cs n).leaderTtl
  linarith

theorem remembered_acquire (hfree : w.redis.entries cronLeaderKey = none) (hst : Remembered cs st w)
    {w' : ControlWorld} (hc : w'.redis.clock = w.redis.clock) : Remembered cs st w' := by
  intro j dl hs
  obtain ⟨deadline, rfl, hh⟩ := hst j dl hs
  refine ⟨deadline, rfl, fun hl => ?_⟩
  obtain ⟨deadline', hk, -⟩ := hh (hc ▸ hl)
  rw [HeldBy, hfree] at hk
  cases hk

theorem leased_advance (ht : w.redis.clock < t) (hl : Leased cs w) : Leased cs (w.onRedis (·.advance t)) := by
  intro e he
  obtain ⟨hk, hli⟩ := Option.filter_eq_some_iff.mp he
  obtain ⟨n, deadline, rfl, -, hb⟩ := hl e hk
  refine ⟨n, deadline, rfl, ?_, ?_⟩
  · change t < deadline
    simpa [Redis.live] using hli
  · change deadline ≤ t + _
    linarith

theorem remembered_advance (ht : w.redis.clock < t) (hst : Remembered cs st w) :
    Remembered cs st (w.onRedis (·.advance t)) := by
  intro j dl hs
  obtain ⟨deadline, rfl, hh⟩ := hst j dl hs
  refine ⟨deadline, rfl, fun hl => ?_⟩
  have hl : t < deadline := hl
  obtain ⟨deadline', hk, hle⟩ := hh (ht.trans hl)
  refine ⟨deadline', ?_, hle⟩
  refine Option.filter_eq_some_iff.mpr ⟨hk, ?_⟩
  simpa [Redis.live] using hl.trans_le hle

include hid in
theorem leased_renew {deadline : ℚ} (hl : Leased cs w) (hst : Remembered cs st w) (hh : HeldBy cs w n deadline) :
    Leased cs (renewed cs n w) ∧ Remembered cs st (renewed cs n w) ∧
      HeldBy cs (renewed cs n w) n (w.redis.clock + (cs n).leaderTtl) := by
  obtain ⟨_, heq, hli, hb⟩ := hl.heldBy hid hh rfl
  cases heq
  have hpos : ¬ ((cs n).leaderTtl : ℚ) ≤ 0 := by
    intro hle
    linarith
  have hr : renewed cs n w =
      w.onRedis (·.put cronLeaderKey (.string (.text (cs n).instanceId)) (some (w.redis.clock + (cs n).leaderTtl))) := by
    rw [HeldBy] at hh
    simp only [renewed, ControlWorld.onRedis, Keyspace.expire, hh, if_neg hpos]
  have hk : HeldBy cs (renewed cs n w) n (w.redis.clock + (cs n).leaderTtl) := by
    rw [hr]
    simp [HeldBy, ControlWorld.onRedis, Keyspace.put]
  have hc : (renewed cs n w).redis.clock = w.redis.clock := by
    rw [hr]
    rfl
  refine ⟨fun e he => ?_, fun j dl hse => ?_, hk⟩
  · rw [hk] at he
    cases he
    refine ⟨n, _, rfl, ?_, ?_⟩
    · rw [hc]
      linarith
    · rw [hc]
  · obtain ⟨deadline', rfl, hre⟩ := hst j dl hse
    refine ⟨deadline', rfl, fun hl' => ?_⟩
    rw [hc] at hl'
    obtain ⟨deadline'', hk', hle⟩ := hre hl'
    -- the key has one value, so the two instances are one
    rw [HeldBy, hh] at hk'
    simp only [Option.some.injEq, Prod.mk.injEq, Value.string.injEq, Stored.text.injEq] at hk'
    have hs : n = (st j).inst := hid hk'.1
    rw [← hs]
    refine ⟨_, hk, ?_⟩
    linarith [hk'.2]

theorem validEx_ttl : Keyspace.validEx (some ((cs n).leaderTtl : ℚ)) = true ↔ 0 < (cs n).leaderTtl := by
  simp [Keyspace.validEx]

theorem exec_takes (n : Nat) :
    w.exec (takes cs n) = w ∨
      w.redis.entries cronLeaderKey = none ∧ 0 < (cs n).leaderTtl ∧ w.exec (takes cs n) = acquired cs n w := by
  by_cases hs : (!Keyspace.validEx (some ((cs n).leaderTtl : ℚ)) || true && w.redis.existsKey cronLeaderKey) = true
  · exact .inl (if_pos hs)
  · refine .inr ⟨?_, ?_, if_neg hs⟩
    · simp only [Keyspace.existsKey, Bool.true_and, Bool.or_eq_true, not_or, Bool.not_eq_true, Option.isSome_eq_false_iff,
        Option.isNone_iff_eq_none] at hs
      exact hs.2
    · rw [← validEx_ttl]
      by_contra hi
      simp [hi] at hs

theorem exec_takes_of_free (hpos : 0 < (cs n).leaderTtl) (hfree : w.redis.existsKey cronLeaderKey = false) :
    w.exec (takes cs n) = acquired cs n w := by
  simp [takes, acquired, ControlWorld.exec, validEx_ttl.mpr hpos, hfree]

theorem electing_late {l' : Candidate} {t : ControlStep} (h : electing cs l t = some l') (hl : l.late = true) :
    l'.late = true := by
  rcases electing_cases h with ⟨-, rfl⟩ | ⟨-, rfl | ⟨-, rfl⟩⟩ | ⟨-, dl, -, rfl⟩
  · exact hl
  · exact hl
  · exact hl
  · simp [hl]

variable (cs) in
def InOrder (st : Nat → Candidate) (w : ControlWorld) : Prop :=
  (∃ j, (st j).late = true) ∨ Leased cs w ∧ Remembered cs st w

theorem remembered_update (hst : Remembered cs st w) (hi : l.inst = (st j).inst)
    (hl : ∀ dl, l.seen = some dl → ∃ deadline, dl = some deadline ∧
      (w.redis.clock < deadline → ∃ deadline', HeldBy cs w (st j).inst deadline' ∧ deadline ≤ deadline')) :
    Remembered cs (Function.update st j l) w := by
  intro k dl hs
  by_cases hk : k = j
  · subst hk
    rw [Function.update_self] at hs ⊢
    rw [hi]
    exact hl dl hs
  · rw [Function.update_of_ne hk] at hs ⊢
    exact hst k dl hs

theorem apply_of_both {c : ControlCommand} {P : ControlWorld → Prop} (i : Fault) (hw : P w) (he : P (w.exec c)) :
    P (c.apply i w) := by
  unfold ControlCommand.apply
  split <;> try exact he
  split
  · exact he
  · exact hw

include hid in
/-- A step of a candidate keeps the lease in order, as long as none is late. -/
theorem inOrder_step {c : ControlCommand} {i : Fault} (h : InOrder cs st w)
    (hl : electing cs (st j) ⟨c, i, w⟩ = some l) : InOrder cs (Function.update st j l) (c.apply i w) := by
  rcases h with ⟨k, hla⟩ | ⟨hlea, hst⟩
  · refine .inl ⟨k, ?_⟩
    by_cases hk : k = j
    · subst hk
      rw [Function.update_self]
      exact electing_late hl hla
    · rw [Function.update_of_ne hk]
      exact hla
  · rcases electing_cases hl with ⟨hc, rfl⟩ | ⟨hc, hr⟩ | ⟨hc, dl, hse, rfl⟩
    · obtain rfl : c = takes cs (st j).inst := hc
      rw [Function.update_eq_self]
      refine .inr (apply_of_both (P := fun w => Leased cs w ∧ Remembered cs st w) i ⟨hlea, hst⟩ ?_)
      rcases exec_takes (w := w) (st j).inst with hs | ⟨hfree, hpos, hset⟩
      · rw [hs]
        exact ⟨hlea, hst⟩
      · rw [hset]
        exact ⟨leased_acquire _ hpos, remembered_acquire hfree hst rfl⟩
    · obtain rfl : c = .read := hc
      rw [show ControlCommand.read.apply i w = w from apply_of_both (P := (· = w)) i rfl rfl]
      refine .inr ⟨hlea, ?_⟩
      rcases hr with rfl | ⟨ho, rfl⟩
      · rw [Function.update_eq_self]
        exact hst
      · refine remembered_update hst rfl fun dl hdl => ?_
        cases hdl
        obtain ⟨dl, hke⟩ := heldBy_of_owns (w := w) ho
        obtain ⟨deadline, hd, -, -⟩ := hlea.heldBy hid hke rfl
        cases hd
        exact ⟨deadline, by simp [Keyspace.deadline, hke], fun _ => ⟨deadline, hke, le_rfl⟩⟩
    · obtain rfl : c = extension cs (st j).inst := hc
      obtain ⟨deadline, rfl, hh⟩ := hst j dl hse
      by_cases hli : w.redis.clock < deadline
      · obtain ⟨deadline', hke, -⟩ := hh hli
        obtain ⟨hl', hst', -⟩ := leased_renew hid hlea hst hke
        refine .inr (apply_of_both (P := fun w => Leased cs w ∧ Remembered cs _ w) i ⟨hlea, ?_⟩ ⟨hl', ?_⟩)
        · exact remembered_update hst rfl fun dl hdl => absurd hdl (Option.some_ne_none dl).symm
        · exact remembered_update hst' rfl fun dl hdl => absurd hdl (Option.some_ne_none dl).symm
      · refine .inl ⟨j, ?_⟩
        rw [Function.update_self]
        simp [Redis.live, hli]

theorem inOrder_advance (i : Fault) (t : ℚ) (h : InOrder cs st w) :
    InOrder cs st ((ControlCommand.advance t).apply i w) := by
  rcases h with hla | ⟨hl, hst⟩
  · exact .inl hla
  · refine .inr ?_
    change Leased cs (if w.redis.clock < t then _ else w) ∧ Remembered cs st (if w.redis.clock < t then _ else w)
    split
    · next ht => exact ⟨leased_advance ht hl, remembered_advance ht hst⟩
    · exact ⟨hl, hst⟩

end

variable {cs : Nat → CronScheduler} {n : Nat} {steps : List ControlStep}

section
variable {l l' : Candidate} {t : ControlStep}

/-- An election that renews has read its own name before. -/
theorem steps_of_expire {q : Control Bool} (h : Steps (cs n).tryBecomeLeader steps q) (ht : t ∈ steps)
    {k : String} {x : ℚ} (hexpire : t.cmd = .expire k x) :
    ∃ s g, steps = [⟨takes cs n, .ok, s⟩, ⟨.read, .ok, g⟩, t] ∧ t.cmd = extension cs n ∧
      Owns cs n g := by
  rcases h.bind with ⟨p', hset⟩ | ⟨ok, first, rest, hset, hre, rfl⟩
  · rcases steps_awaiting hset with rfl | ⟨i, s, rfl⟩
    · cases ht
    · obtain rfl := List.mem_singleton.mp ht
      cases hexpire
  obtain ⟨s, rfl, -⟩ := steps_awaiting_ret hset
  rcases List.mem_append.mp ht with ht | ht
  · obtain rfl := List.mem_singleton.mp ht
    cases hexpire
  split at hre
  · rw [hre.of_ret] at ht
    cases ht
  rcases hre.bind with ⟨p', hget⟩ | ⟨current, first, rest, hget, hl, rfl⟩
  · rcases steps_awaiting hget with rfl | ⟨i, g, rfl⟩
    · cases ht
    · obtain rfl := List.mem_singleton.mp ht
      cases hexpire
  obtain ⟨g, rfl, hrep⟩ := steps_awaiting_ret hget
  rcases List.mem_append.mp ht with ht | ht
  · obtain rfl := List.mem_singleton.mp ht
    cases hexpire
  split at hl
  · next ho =>
    have hs : rest = [t] ∧ t.cmd = extension cs n := by
      rcases hl.bind with ⟨p', hr⟩ | ⟨_, first, rest, hr, he, rfl⟩
      · rcases steps_awaiting hr with rfl | ⟨i, e, rfl⟩
        · cases ht
        · obtain rfl := List.mem_singleton.mp ht
          exact ⟨rfl, rfl⟩
      · obtain ⟨e, rfl, -⟩ := steps_awaiting_ret hr
        obtain rfl := he.of_ret
        obtain rfl := List.mem_singleton.mp ht
        exact ⟨rfl, rfl⟩
    refine ⟨s, g, ?_, hs.2, owns_of_reply hrep ho⟩
    rw [hs.1]
    rfl
  · rw [hl.of_ret] at ht
    cases ht

theorem steps_of_granted (h : Steps (cs n).tryBecomeLeader steps (.ret true)) :
    (∃ s, steps = [⟨takes cs n, .ok, s⟩] ∧ s.redis.existsKey cronLeaderKey = false ∧ 0 < (cs n).leaderTtl) ∨
      ∃ s g e, steps = [⟨takes cs n, .ok, s⟩, ⟨.read, .ok, g⟩, ⟨extension cs n, .ok, e⟩] := by
  obtain ⟨ok, first, rest, hset, hre, rfl⟩ := h.bind_ret
  obtain ⟨s, rfl, hr⟩ := steps_awaiting_ret hset
  split at hre
  · next hok =>
    obtain rfl := hre.of_ret
    refine .inl ⟨s, rfl, ?_⟩
    rw [hok] at hr
    split at hr
    · next hv => exact ⟨by simpa using hr, by simpa [Keyspace.validEx] using hv⟩
    · cases hr
  · obtain ⟨current, first, rest, hget, hl, rfl⟩ := hre.bind_ret
    obtain ⟨g, rfl, -⟩ := steps_awaiting_ret hget
    split at hl
    · obtain ⟨_, first, rest, hren, he, rfl⟩ := hl.bind_ret
      obtain ⟨e, rfl, -⟩ := steps_awaiting_ret hren
      obtain rfl := he.of_ret
      exact .inr ⟨s, g, e, rfl⟩
    · cases hl

theorem electing_inst (h : electing cs l t = some l') : l'.inst = l.inst := by
  rcases electing_cases h with ⟨-, rfl⟩ | ⟨-, rfl | ⟨-, rfl⟩⟩ | ⟨-, dl, -, rfl⟩ <;> rfl

theorem electing_not_late (h : electing cs l t = some l') (ht : ∀ k x, t.cmd ≠ .expire k x) : l'.late = l.late := by
  rcases electing_cases h with ⟨-, rfl⟩ | ⟨-, rfl | ⟨-, rfl⟩⟩ | ⟨hc, -⟩
  · rfl
  · rfl
  · rfl
  · exact absurd hc (ht _ _)

theorem foldlM_keeps {R : Candidate → Prop} (h : steps.foldlM (electing cs) l = some l') (hl : R l)
    (hs : ∀ t ∈ steps, ∀ l l', electing cs l t = some l' → R l → R l') : R l' := by
  induction steps generalizing l with
  | nil =>
    cases h
    exact hl
  | cons t steps ih =>
    obtain ⟨l₁, hl₁, hr⟩ := Option.bind_eq_some_iff.mp h
    exact ih hr (hs t List.mem_cons_self l l₁ hl₁ hl) fun t ht => hs t (List.mem_cons_of_mem _ ht)

end

variable {w : ControlWorld} {calls : List Nat} {ms : List ControlMove}

section
variable (hid : Function.Injective fun n => (cs n).instanceId) (hfree : w.redis.existsKey cronLeaderKey = false)
include hid hfree

variable {n j : Nat}

theorem run_inOrder (ms : List ControlMove) :
    ∃ st : Nat → Candidate, InOrder cs st (controlSystem.run (elections cs w calls) ms).world ∧
      (∀ j, (callSteps cs w calls ms j).foldlM (electing cs) ⟨calls.getD j 0, none, false⟩ = some (st j)) ∧
      ∀ j, calls.length ≤ j → (st j).late = false := by
  have hno : w.redis.entries cronLeaderKey = none := by simpa [Keyspace.existsKey] using hfree
  have hs : System.Conforms (fun _ => True) (electing cs) (fun _ _ => True) (fun st _ w => InOrder cs st w)
      ⟨0, none, false⟩ (fun j => ⟨calls.getD j 0, none, false⟩) (elections cs w calls) := by
    refine ⟨.inr ⟨fun e he => ?_, fun j dl hdl => absurd hdl (Option.some_ne_none dl).symm⟩, fun j p hp => ?_, fun j hj => ?_⟩
    · have he : w.redis.entries cronLeaderKey = some e := he
      rw [hno] at he
      cases he
    · rw [elections, List.getElem?_map] at hp
      obtain ⟨n, hn, rfl⟩ := Option.map_eq_some_iff.mp hp
      rw [List.getD_eq_getElem?_getD, hn]
      exact (follows_tryBecomeLeader cs n).bind (fun _ _ _ => trivial) fun _ _ _ => trivial
    · rw [elections, List.length_map] at hj
      simp [hj]
  obtain ⟨st, hc, hst⟩ := System.Conforms.run (H := fun _ => True) (S := controlSystem)
    (fun _ _ _ _ _ _ _ => trivial) (fun _ _ _ _ _ _ _ hG _ hl => inOrder_step hid hG hl)
    (fun _ _ _ t i hG _ => inOrder_advance i t hG) ms hs (fun r _ => r.elim) fun _ _ => trivial
  refine ⟨st, hc.holds, hst, fun j hj => ?_⟩
  rw [hc.first j]
  rwa [System.length_procs_run, elections, List.length_map]

omit hid hfree in
theorem steps_callSteps (hj : calls[j]? = some n) :
    ∃ q, Steps (cs n).tryBecomeLeader (callSteps cs w calls ms j) q := by
  obtain ⟨q, -, hs⟩ := System.steps_stepsOf (S := controlSystem) ms (j := j) (s := elections cs w calls)
    (p := (cs n).tryBecomeLeader.void) (by rw [elections, List.getElem?_map, hj]; rfl)
  exact hs.void

omit hid hfree in
theorem late_of_timely (hti : Timely cs w calls ms) (hj : calls[j]? = some n) {l : Candidate}
    (hl : (callSteps cs w calls ms j).foldlM (electing cs) ⟨n, none, false⟩ = some l) : l.late = false := by
  obtain ⟨q, hst⟩ := steps_callSteps (w := w) hj
  by_cases hexpire : ∀ t ∈ callSteps cs w calls ms j, ∀ k x, t.cmd ≠ .expire k x
  · exact foldlM_keeps (R := (·.late = false)) hl rfl fun t ht _ _ h hl => (electing_not_late h (hexpire t ht)).trans hl
  · simp only [not_forall, not_not, ne_eq] at hexpire
    obtain ⟨t, ht, k, x, hc⟩ := hexpire
    obtain ⟨s, g, hs, he, ho⟩ := steps_of_expire hst ht hc
    have hli : Redis.live t.pre.redis.clock (g.redis.deadline cronLeaderKey) = true := by
      cases hd : g.redis.deadline cronLeaderKey with
      | none => rfl
      | some deadline => simpa [Redis.live] using hti j _ _ _ hs deadline hd
    rw [hs] at hl
    rw [Owns] at ho
    simp only [List.foldlM_cons, electing, takes, ho, he, extension, hli, and_self, if_true, List.foldlM_nil,
      Option.bind_eq_bind, Option.bind_some, Bool.not_true, Bool.or_self, Option.pure_def, Option.some.injEq] at hl
    rw [← hl]

theorem not_late (ht : Timely cs w calls ms) {before after : List ControlMove} (hms : ms = before ++ after) :
    ∃ st : Nat → Candidate, (∀ j, (st j).late = false) ∧
      Leased cs (controlSystem.run (elections cs w calls) before).world ∧
      Remembered cs st (controlSystem.run (elections cs w calls) before).world ∧
      ∀ j, (callSteps cs w calls before j).foldlM (electing cs) ⟨calls.getD j 0, none, false⟩ = some (st j) := by
  obtain ⟨st, hi, hs, -⟩ := run_inOrder hid hfree before
  obtain ⟨st', -, hs', ho⟩ := run_inOrder hid hfree ms
  have hp (j : Nat) : (st j).late = false := by
    by_contra hla
    have hla : (st j).late = true := by simpa using hla
    have ha := hs' j
    rw [callSteps, hms, System.stepsOf_append, List.foldlM_append] at ha
    obtain ⟨l, hl, hr⟩ := Option.bind_eq_some_iff.mp ha
    have hsa : l = st j := Option.some.inj (hl.symm.trans (hs j))
    have hl' := foldlM_keeps (R := (·.late = true)) hr (hsa ▸ hla) fun _ _ _ _ => electing_late
    rcases Nat.lt_or_ge j calls.length with hj | hj
    · have hc : calls[j]? = some (calls.getD j 0) := by simp [hj]
      rw [late_of_timely ht hc (hs' j)] at hl'
      cases hl'
    · rw [ho j hj] at hl'
      cases hl'
  rcases hi with ⟨j, hla⟩ | ⟨hlea, hst⟩
  · rw [hp j] at hla
    cases hla
  · exact ⟨st, hp, hlea, hst, hs⟩

theorem held_at_renewal (hti : Timely cs w calls ms) (hj : calls[j]? = some n) {t : ControlStep}
    (ht : t ∈ callSteps cs w calls ms j) {k : String} {x : ℚ} (hc : t.cmd = .expire k x) :
    ∃ deadline, HeldBy cs t.pre n deadline ∧
      HeldBy cs (renewed cs n t.pre) n (t.pre.redis.clock + (cs n).leaderTtl) := by
  obtain ⟨before, i, after, hms, hpr, -, how⟩ := System.mem_stepsOf ht
  obtain ⟨st, -, hlea, hst, hs⟩ := not_late hid hfree hti hms
  have hms' : ms = (before ++ [.step j i]) ++ after := by simpa using hms
  obtain ⟨st', hp, -, -, hs'⟩ := not_late hid hfree hti hms'
  have hn : calls.getD j 0 = n := by rw [List.getD_eq_getElem?_getD, hj]; rfl
  have hi : (st j).inst = n := foldlM_keeps (R := (·.inst = n)) (hs j) hn fun _ _ _ _ h hl => (electing_inst h).trans hl
  have hla : electing cs (st j) t = some (st' j) := by
    have hb := hs' j
    rw [callSteps, how, List.foldlM_append] at hb
    obtain ⟨l, hl, hla⟩ := Option.bind_eq_some_iff.mp hb
    obtain rfl : l = st j := Option.some.inj (hl.symm.trans (hs j))
    simpa using hla
  rcases electing_cases hla with ⟨ho, -⟩ | ⟨ho, -⟩ | ⟨-, dl, hse, hl⟩
  · cases hc.symm.trans ho
  · cases hc.symm.trans ho
  · obtain ⟨deadline, rfl, hh⟩ := hst j dl hse
    have hli : t.pre.redis.clock < deadline := by
      have hlat := hp j
      rw [hl] at hlat
      simpa [Redis.live] using (Bool.or_eq_false_iff.mp hlat).2
    rw [hpr] at hli ⊢
    obtain ⟨deadline', hk, -⟩ := hh hli
    rw [hi] at hk
    exact ⟨deadline', hk, (leased_renew hid hlea hst hk).2.2⟩

theorem exclusive_of_timely (hti : Timely cs w calls ms) : ExclusiveLead cs w calls ms where
  holds j n hj hg t ht := by
    rcases steps_of_granted hg with ⟨s, hs, hn, hpos⟩ | ⟨s, g, e, hs⟩
    · rw [hs] at ht
      obtain rfl : ⟨takes cs n, .ok, s⟩ = t := Option.some.inj ht
      change (s.exec (takes cs n)).redis.get cronLeaderKey = _
      rw [exec_takes_of_free hpos hn]
      exact Keyspace.get_set_self _ _ _ _
    · have hm : (⟨extension cs n, .ok, e⟩ : ControlStep) ∈ callSteps cs w calls ms j := by
        rw [hs]
        simp
      obtain ⟨_, -, hr⟩ := held_at_renewal hid hfree hti hj hm rfl
      rw [hs] at ht
      obtain rfl : ⟨extension cs n, .ok, e⟩ = t := Option.some.inj ht
      exact get_of_heldBy hr
  renews j n hj t ht seconds v hc _ hget := by
    obtain ⟨deadline, hh, -⟩ := held_at_renewal hid hfree hti hj ht hc
    rw [get_of_heldBy hh] at hget
    exact (Option.some.inj (Option.some.inj hget)).symm

end

section
variable {c : ControlCommand} {δ : ℚ} {n : Nat}

def AnyElection (c : ControlCommand) : Prop := (∃ id, CronScheduler.ElectionCommand id c) ∨ ∃ t, c = .advance t

def KeyLive (w : ControlWorld) : Prop :=
  ∀ e, w.redis.entries cronLeaderKey = some e → Redis.live w.redis.clock e.2 = true

theorem keyLive_exec (hc : AnyElection c) (hw : KeyLive w) : KeyLive (w.exec c) := by
  rcases hc with ⟨id, hc⟩ | ⟨t, rfl⟩
  · cases c with
    | read => exact hw
    | set k v nx ex =>
      obtain ⟨rfl, -, -⟩ := hc
      simp only [ControlWorld.exec]
      split
      · exact hw
      · next hset =>
        intro e he
        rw [ControlWorld.onRedis, Keyspace.set_eq_touch, Keyspace.entries_touch, if_pos rfl] at he
        cases he
        cases ex with
        | none => rfl
        | some seconds =>
          have hv : Keyspace.validEx (some seconds) = true := by
            by_contra hi
            simp [hi] at hset
          simpa [Redis.live, ControlWorld.onRedis, Keyspace.set, Keyspace.put, Keyspace.validEx] using hv
    | expire k seconds =>
      obtain rfl : k = cronLeaderKey := hc
      intro e he
      simp only [ControlWorld.exec, ControlWorld.onRedis, Keyspace.expire] at he ⊢
      split at he
      · exact hw e he
      · split at he
        · simp [Keyspace.del] at he
        · next hpos =>
          simp only [Keyspace.put, Function.update_self, Option.some.injEq] at he
          cases he
          simpa [Redis.live, hpos, Keyspace.put] using not_le.mp hpos
    | _ => exact hc.elim
  · simp only [ControlWorld.exec]
    split
    · intro e he
      exact (Option.filter_eq_some_iff.mp he).2
    · exact hw

theorem keyLive_apply (hc : AnyElection c) (i : Fault) (hw : KeyLive w) : KeyLive (c.apply i w) := by
  have he := keyLive_exec hc hw
  cases c with
  | clock | stamp | sleep | advance t => exact he
  | _ =>
    change KeyLive (if i.applied then _ else w)
    split
    · exact he
    · exact hw

theorem keyLive_run (hfree : w.redis.existsKey cronLeaderKey = false) (ms : List ControlMove) :
    KeyLive (controlSystem.run (elections cs w calls) ms).world := by
  refine System.run_invariant (S := controlSystem) (I := fun _ => True) (C := AnyElection) (J := fun _ w => KeyLive w)
    (fun _ _ _ => trivial) (fun _ w c i hc hw => keyLive_apply hc i hw) nofun (fun t => .inr ⟨t, rfl⟩) ?_ ?_ ms
  · intro p hp
    obtain ⟨n, -, rfl⟩ := List.mem_map.mp hp
    exact ((cs n).issues_tryBecomeLeader.mono (fun _ hc => .inl ⟨_, hc⟩) fun _ h => h).void
  · intro e he
    have hn : w.redis.entries cronLeaderKey = none := by simpa [Keyspace.existsKey] using hfree
    have he : w.redis.entries cronLeaderKey = some e := he
    rw [hn] at he
    cases he

theorem timely_of_no_pause (hfree : w.redis.existsKey cronLeaderKey = false) (hδ : δ ≤ 0)
    (hp : PausesWithin cs w calls ms δ) : Timely cs w calls ms := by
  intro j s g e hs deadline hd
  have hg : g ∈ callSteps cs w calls ms j := by
    rw [hs]
    simp
  obtain ⟨before, i, after, -, hpr, -⟩ := System.mem_stepsOf hg
  have hl : KeyLive (controlSystem.run (elections cs w calls) before).world := keyLive_run hfree before
  rw [← hpr] at hl
  obtain ⟨⟨v, dl⟩, he, rfl⟩ := Option.bind_eq_some_iff.mp hd
  have hb : g.pre.redis.clock < deadline := by simpa [Redis.live] using hl _ he
  have hpa := hp j s g e hs
  linarith

variable (cs) in
theorem path_take (hpos : 0 < (cs n).leaderTtl) (hfree : w.redis.existsKey cronLeaderKey = false) :
    Path ControlCommand.apply (cs n).tryBecomeLeader w [⟨takes cs n, .ok, w⟩] (.ret true)
      (w.onRedis (·.set cronLeaderKey (.text (cs n).instanceId) (some (cs n).leaderTtl))) := by
  have hv : Keyspace.validEx (some ((cs n).leaderTtl : ℚ)) = true := by simpa [Keyspace.validEx] using hpos
  have he : (takes cs n).apply .ok w =
      w.onRedis (·.set cronLeaderKey (.text (cs n).instanceId) (some (cs n).leaderTtl)) := by
    simp [takes, ControlCommand.apply, Fault.applied, ControlWorld.exec, hv, hfree]
  rw [← he]
  refine Path.bind (a := true) (path_awaiting _ _ ?_) (.refl _ _)
  simp [hv, hfree]

variable (cs) in
theorem path_find {deadline : ℚ} (hpos : 0 < (cs n).leaderTtl) (hh : HeldBy cs w n deadline) :
    Path ControlCommand.apply (cs n).tryBecomeLeader w [⟨takes cs n, .ok, w⟩, ⟨.read, .ok, w⟩]
      ((Control.expire cronLeaderKey (cs n).leaderTtl).bind fun _ => .ret true) w := by
  have hv : Keyspace.validEx (some ((cs n).leaderTtl : ℚ)) = true := by simpa [Keyspace.validEx] using hpos
  have he : w.redis.existsKey cronLeaderKey = true := by rw [Keyspace.existsKey, hh]; rfl
  have hex : (takes cs n).apply .ok w = w := by
    simp [takes, ControlCommand.apply, Fault.applied, ControlWorld.exec, he]
  have hset : Path ControlCommand.apply
      (Control.set cronLeaderKey (.text (cs n).instanceId) true (some (cs n).leaderTtl)) w
      [⟨takes cs n, .ok, w⟩] (.ret false) w := by
    have hp : Path ControlCommand.apply
        (Control.set cronLeaderKey (.text (cs n).instanceId) true (some (cs n).leaderTtl)) w
        [⟨takes cs n, .ok, w⟩] (.ret false) ((takes cs n).apply .ok w) :=
      path_awaiting _ _ (by simp [hv, he])
    rwa [hex] at hp
  have hget : Path ControlCommand.apply (Control.get cronLeaderKey) w [⟨.read, .ok, w⟩]
      (.ret (some (.text (cs n).instanceId))) w := by
    refine path_awaiting _ _ ?_
    rw [get_of_heldBy hh]
    rfl
  refine hset.bind (hget.bind ?_)
  rw [if_pos rfl]
  exact .refl _ _

/-- A renewal whose key expires between its `GET` and its `EXPIRE` returns true without the key. -/
theorem exists_lapse (hpos : 0 < (cs 0).leaderTtl) {t₁ t₂ : ℚ} (h₀ : 0 < t₁) (h₁ : t₁ < (cs 0).leaderTtl)
    (h₂ : ((cs 0).leaderTtl : ℚ) ≤ t₂) :
    ∃ ms w₁ w₂, callSteps cs .empty [0, 0] ms 0 = [⟨takes cs 0, .ok, .empty⟩] ∧
      callSteps cs .empty [0, 0] ms 1 = [⟨takes cs 0, .ok, w₁⟩, ⟨.read, .ok, w₁⟩, ⟨extension cs 0, .ok, w₂⟩] ∧
      (∀ j, 2 ≤ j → callSteps cs .empty [0, 0] ms j = []) ∧
      Steps (cs 0).tryBecomeLeader (callSteps cs .empty [0, 0] ms 1) (.ret true) ∧
      w₁.redis.clock = t₁ ∧ w₂.redis.clock = t₂ ∧ w₂.redis.entries cronLeaderKey = none := by
  let w₀ := ControlWorld.empty.onRedis (·.set cronLeaderKey (.text (cs 0).instanceId) (some (cs 0).leaderTtl))
  let w₁ := w₀.onRedis (·.advance t₁)
  let w₂ := w₁.onRedis (·.advance t₂)
  have hst : HeldBy cs w₀ 0 (cs 0).leaderTtl := by
    simp [HeldBy, w₀, ControlWorld.onRedis, Keyspace.set, Keyspace.put, ControlWorld.empty, Keyspace.empty]
  have hh : HeldBy cs w₁ 0 (cs 0).leaderTtl := by
    have hk : w₁.redis.entries cronLeaderKey = (w₀.redis.entries cronLeaderKey).filter (Redis.live t₁ ·.2) := rfl
    rw [HeldBy, hk, hst]
    simpa [Option.filter, Redis.live] using h₁
  have hg : w₂.redis.entries cronLeaderKey = none := by
    have hk : w₂.redis.entries cronLeaderKey = (w₁.redis.entries cronLeaderKey).filter (Redis.live t₂ ·.2) := rfl
    rw [hk, hh]
    simpa [Option.filter, Redis.live] using h₂
  let S := controlSystem
  let z := elections cs .empty [0, 0]
  obtain ⟨ms₁, -, hw₁, hp₁, -, how₁, ho₁⟩ :=
    (path_take cs (w := .empty) hpos rfl).void.exists_run S 0 (z := z) rfl rfl
  obtain ⟨hw₁', hp₁', -, hs₁⟩ := System.run_env (S := S) z ms₁ t₁ .ok
  have hc₁ : (S.run z (ms₁ ++ [.env t₁ .ok])).world = w₁ := by
    rw [hw₁', hw₁]
    exact if_pos h₀
  obtain ⟨ms₂, -, hw₂, hp₂, -, how₂, ho₂⟩ :=
    ((path_find cs hpos hh).bind_left fun _ => Prog.ret ()).exists_run S 1 (z := S.run z (ms₁ ++ [.env t₁ .ok])) hc₁
      (by rw [hp₁', hp₁]; rfl)
  rw [← System.run_append] at hw₂ hp₂
  obtain ⟨hw₂', hp₂', -, hs₂⟩ := System.run_env (S := S) z (ms₁ ++ [.env t₁ .ok] ++ ms₂) t₂ .ok
  have hc₂ : (S.run z (ms₁ ++ [.env t₁ .ok] ++ ms₂ ++ [.env t₂ .ok])).world = w₂ := by
    rw [hw₂', hw₂]
    exact if_pos (h₁.trans_le h₂)
  have hexpire : Path ControlCommand.apply (Control.expire cronLeaderKey (cs 0).leaderTtl) w₂ [⟨extension cs 0, .ok, w₂⟩]
      (.ret ()) ((extension cs 0).apply .ok w₂) := path_awaiting ControlCommand.apply (extension cs 0) rfl
  have hr : Path ControlCommand.apply ((Control.expire cronLeaderKey (cs 0).leaderTtl).bind fun _ => .ret true) w₂
      [⟨extension cs 0, .ok, w₂⟩] (.ret true) ((extension cs 0).apply .ok w₂) := hexpire.bind (.refl _ _)
  obtain ⟨ms₃, -, -, -, -, how₃, ho₃⟩ := (hr.bind_left fun _ => Prog.ret ()).exists_run S 1
    (z := S.run z (ms₁ ++ [.env t₁ .ok] ++ ms₂ ++ [.env t₂ .ok])) hc₂ (by
      rw [hp₂', hp₂, hp₁', hp₁]
      rfl)
  have hs (j : Nat) : callSteps cs .empty [0, 0] (ms₁ ++ [.env t₁ .ok] ++ ms₂ ++ [.env t₂ .ok] ++ ms₃) j =
      S.stepsOf j z ms₁ ++ S.stepsOf j (S.run z (ms₁ ++ [.env t₁ .ok])) ms₂ ++
        S.stepsOf j (S.run z (ms₁ ++ [.env t₁ .ok] ++ ms₂ ++ [.env t₂ .ok])) ms₃ := by
    change S.stepsOf j z _ = _
    rw [System.stepsOf_append, hs₂, System.stepsOf_append, hs₁]
  have hse : callSteps cs .empty [0, 0] (ms₁ ++ [.env t₁ .ok] ++ ms₂ ++ [.env t₂ .ok] ++ ms₃) 1 =
      [⟨takes cs 0, .ok, w₁⟩, ⟨.read, .ok, w₁⟩, ⟨extension cs 0, .ok, w₂⟩] := by
    rw [hs, ho₁ 1 (by decide), how₂, how₃]
    rfl
  refine ⟨_, w₁, w₂, ?_, hse, fun j hj => ?_, ?_, rfl, rfl, hg⟩
  · rw [hs, how₁, ho₂ 0 (by decide), ho₃ 0 (by decide)]
    rfl
  · rw [hs, ho₁ j (by omega), ho₂ j (by omega), ho₃ j (by omega)]
    rfl
  · rw [hse]
    exact (path_find cs hpos hh).toSteps.trans hr.toSteps

theorem exists_not_exclusive (hpos : 0 < (cs 0).leaderTtl) (hδ : 0 < δ) :
    ∃ ms, PausesWithin cs .empty [0, 0] ms δ ∧ ¬ ExclusiveLead cs .empty [0, 0] ms := by
  have httl : (0 : ℚ) < (cs 0).leaderTtl := by exact_mod_cast hpos
  have hl : 0 < min δ ((cs 0).leaderTtl / 2 : ℚ) := lt_min hδ (by linarith)
  have hh : min δ ((cs 0).leaderTtl / 2 : ℚ) ≤ (cs 0).leaderTtl / 2 := min_le_right _ _
  have he : 0 < (cs 0).leaderTtl - min δ ((cs 0).leaderTtl / 2 : ℚ) := by linarith
  have hst : (cs 0).leaderTtl - min δ ((cs 0).leaderTtl / 2 : ℚ) < (cs 0).leaderTtl := by linarith
  obtain ⟨ms, w₁, w₂, hf, hse, ho, hr, hc₁, hc₂, hg⟩ :=
    exists_lapse hpos he hst le_rfl
  refine ⟨ms, ?_, fun hex => ?_⟩
  · intro j s g e hs
    rcases j with _ | _ | j
    · rw [hf] at hs
      cases hs
    · rw [hse] at hs
      cases hs
      rw [hc₁, hc₂]
      linarith [min_le_left δ ((cs 0).leaderTtl / 2 : ℚ)]
    · rw [ho (j + 2) (by omega)] at hs
      cases hs
  · have hk := hex.holds 1 0 rfl hr ⟨extension cs 0, .ok, w₂⟩ (by rw [hse]; rfl)
    change (w₂.redis.expire cronLeaderKey (cs 0).leaderTtl).get cronLeaderKey = _ at hk
    rw [Keyspace.expire, hg] at hk
    dsimp only at hk
    rw [Keyspace.get, hg] at hk
    cases hk

end

/-- The election is exclusive in every run in which the key outlives the pause between reading
and renewing it, and a bound on these pauses ensures that only if there is no pause at all. -/
theorem cron_leadership_iff (cs : Nat → CronScheduler) (hid : Function.Injective fun n => (cs n).instanceId)
    (hpos : 0 < (cs 0).leaderTtl) :
    (∀ w calls ms, w.redis.existsKey cronLeaderKey = false → Timely cs w calls ms → ExclusiveLead cs w calls ms) ∧
    ∀ δ, (∀ w calls ms, w.redis.existsKey cronLeaderKey = false → PausesWithin cs w calls ms δ →
      ExclusiveLead cs w calls ms) ↔ δ ≤ 0 := by
  refine ⟨fun w calls ms hfree ht => exclusive_of_timely hid hfree ht, fun δ => ⟨fun h => ?_, fun hδ => ?_⟩⟩
  · by_contra hlt
    obtain ⟨ms, hp, hn⟩ := exists_not_exclusive hpos (not_le.mp hlt)
    exact hn (h .empty [0, 0] ms rfl hp)
  · intro w calls ms hfree hp
    exact exclusive_of_timely hid hfree (timely_of_no_pause hfree hδ hp)

def numberedCron (n : Nat) : CronScheduler := .named (String.ofList (List.replicate n 'i'))

theorem numberedCron_injective : Function.Injective fun n => (numberedCron n).instanceId := by
  intro n m h
  have hl := congrArg (fun s : String => s.toList.length) h
  simpa [numberedCron, CronScheduler.named] using hl

/-- Pauses of up to a second are too long. -/
theorem cron_leadership_one_second :
    (0 : Int) < (numberedCron 0).leaderTtl ∧
      ¬ ∀ w calls ms, w.redis.existsKey cronLeaderKey = false → PausesWithin numberedCron w calls ms 1 →
        ExclusiveLead numberedCron w calls ms :=
  ⟨by decide, ((cron_leadership_iff numberedCron numberedCron_injective (by decide)).2 1).not.mpr (by norm_num)⟩

/-- The first instance reads its own id at 89, the key expires at 90 and the second instance takes
it; the first one then extends the key of the second and leads beside it. -/
theorem renews_key_of_other :
    let calls := [1, 1, 2]
    let ms : List ControlMove := [.step 0 .ok, .env 89 .ok, .step 1 .ok, .step 1 .ok, .env 91 .ok, .step 2 .ok,
      .env 100 .ok, .step 1 .ok]
    let z := controlSystem.run (elections numberedCron .empty calls) ms
    ¬ ExclusiveLead numberedCron .empty calls ms ∧
      z.world.redis.entries cronLeaderKey = some (.string (.text "ii"), some 190) ∧
      (callSteps numberedCron .empty calls ms 1)[2]?.map (fun t => (t.cmd, t.pre.redis.entries cronLeaderKey)) =
        some (.expire cronLeaderKey 90, some (.string (.text "ii"), some 181)) := by
  intro calls ms z
  have hl : (callSteps numberedCron .empty calls ms 1)[2]?.map
      (fun t => (t.cmd, t.input, t.pre.redis.get cronLeaderKey)) =
        some (.expire cronLeaderKey 90, .ok, some (some (.text "ii"))) := by decide +kernel
  refine ⟨fun he => ?_, by decide +kernel, by decide +kernel⟩
  obtain ⟨t, ht, hs⟩ := Option.map_eq_some_iff.mp hl
  simp only [Prod.mk.injEq] at hs
  have ho := he.renews 1 1 rfl t (List.mem_of_getElem? ht) 90 (.text "ii") hs.1 (by rw [hs.2.1]; rfl)
    hs.2.2
  exact absurd ho (by decide)

end AsyncScheduler
