import AsyncScheduler.Platform.CronScheduler

/-!
# Advancing the fired schedule

A fired schedule is advanced by its id alone.
-/

namespace AsyncScheduler

theorem split_unique {l₁ l₂ l₁' l₂' : List Char} (h : l₁ ++ ':' :: l₂ = l₁' ++ ':' :: l₂') (h₁ : ':' ∉ l₁)
    (h₂ : ':' ∉ l₂) : l₁ = l₁' ∧ l₂ = l₂' := by
  rcases List.append_eq_append_iff.mp h with ⟨mid, hf, hr⟩ | ⟨mid, hf, hr⟩
  · cases mid with
    | nil => exact ⟨by simpa using hf.symm, (List.cons.inj hr).2⟩
    | cons c mid =>
      refine absurd ?_ h₂
      rw [(List.cons.inj hr).2]
      simp
  · cases mid with
    | nil => exact ⟨by simpa using hf, (List.cons.inj hr).2.symm⟩
    | cons c mid =>
      refine absurd ?_ h₁
      rw [hf, ← (List.cons.inj hr).1]
      simp

/-- A key has one reading exactly when tenant and schedule hold no colon. -/
theorem only_split_iff (t s : String) :
    (∀ t' s', t' ++ ":" ++ s' = t ++ ":" ++ s → (t', s') = (t, s)) ↔ ':' ∉ t.toList ∧ ':' ∉ s.toList := by
  have hl (t s : String) : (t ++ ":" ++ s).toList = t.toList ++ ':' :: s.toList := by simp
  constructor
  · intro h
    refine ⟨fun hc => ?_, fun hc => ?_⟩
    · obtain ⟨a, b, hab⟩ := List.append_of_mem hc
      have hp := h (String.ofList a) (String.ofList b ++ ":" ++ s) (by
        rw [← String.toList_inj, hl, hl, hl, hab]
        simp)
      have hsh := congrArg (fun p => p.1.toList.length) hp
      simp only [String.toList_ofList, hab, List.length_append, List.length_cons] at hsh
      omega
    · obtain ⟨a, b, hab⟩ := List.append_of_mem hc
      have hp := h (t ++ ":" ++ String.ofList a) (String.ofList b) (by
        rw [← String.toList_inj, hl, hl, hl, hab]
        simp)
      have hsh := congrArg (fun p => p.2.toList.length) hp
      simp only [String.toList_ofList, hab, List.length_append, List.length_cons] at hsh
      omega
  · rintro ⟨ht, hs⟩ t' s' h
    have hsp := congrArg String.toList h
    rw [hl, hl] at hsp
    obtain ⟨hf, hse⟩ := split_unique hsp.symm ht hs
    rw [String.toList_inj.mp hf, String.toList_inj.mp hse]

namespace ScheduleRegistry
variable (reg : ScheduleRegistry)

def stored (w : ControlWorld) (t s : String) : Option (Option Stored) := w.redis.get (reg.base.makeKey t s)

/-- Between these states the schedule got a later `next_fire_at`, and no other record changed. -/
structure AdvancesOnly (w w' : ControlWorld) (t s : String) (now : ℚ) : Prop where
  later : ∃ d u, reg.stored w' t s = some (some (.dict d)) ∧ d.get "next_fire_at" = some (.time u) ∧ now < u
  others : ∀ t' s', (t', s') ≠ (t, s) → reg.stored w' t' s' = reg.stored w t' s'

variable {reg} {w w' : ControlWorld} {t t' s s' : String} {u : ℚ}

theorem advancesOnly_congr {w₁ : ControlWorld} (h : w₁.redis = w.redis) {now : ℚ} :
    reg.AdvancesOnly w₁ w' t s now ↔ reg.AdvancesOnly w w' t s now := by
  have hstored : reg.stored w₁ = reg.stored w := by
    funext t s
    rw [stored, stored, h]
  constructor
  · rintro ⟨hl, ho⟩
    exact ⟨hl, hstored ▸ ho⟩
  · rintro ⟨hl, ho⟩
    exact ⟨hl, hstored ▸ ho⟩

theorem makeKey_ne_idx : reg.base.makeKey t s ≠ scheduleTenantIdx := by
  have hne : reg.base.makeKey t s ≠ reg.base.keyPrefix ++ ":" ++ "sid_to_tenant" := reg.base.makeKey_ne t s (by decide)
  exact hne

theorem stored_of_reaches (h : reg.Reaches s u w w' (some t)) (t' s' : String) :
    reg.stored w' t' s' =
      if t' ++ ":" ++ s' = t ++ ":" ++ s then (reg.stored w t s).map (Option.map (Stored.onDict (advancedTo u w.redis.clock)))
      else reg.stored w t' s' := by
  obtain ⟨f, rfl⟩ := h
  rw [stored, ControlWorld.onRedis, Keyspace.get_touch _ _ _ makeKey_ne_idx, get_rewriteRecord]
  simp only [reg.base.makeKey_eq_makeKey]
  rfl

end ScheduleRegistry

namespace CronScheduler
variable {cs : CronScheduler} {w : ControlWorld} {t s : String} {d : Dict} {now : ℚ}

theorem redis_createTask (task : CronTask) (d : Dict) : (w.exec (.createTask task d)).redis = w.redis := by
  simp only [ControlWorld.exec]
  split <;> rfl

theorem runWith_fireOne (ha : cs.refused d.taskTemplate = none) :
    (cs.fireOne d now).runWith ControlCommand.apply .ok w =
      (cs.advance d now).runWith ControlCommand.apply .ok (w.exec (.createTask (cronTask d now) d)) := by
  have hc : (cs.createTask d now).runWith ControlCommand.apply .ok w =
      (.ok (), w.exec (.createTask (cronTask d now) d)) := by
    rw [createTask, ha, runWith_awaiting]
    rfl
  have hcr : (exceptException ((cs.createTask d now).bind fun _ => pure true) fun _ => pure false).runWith
      ControlCommand.apply .ok w = (.ok true, w.exec (.createTask (cronTask d now) d)) := by
    rw [exceptException, Prog.runWith_handle, Prog.runWith_bind_ok hc]
    rfl
  rw [fireOne, Prog.bind_eq, Prog.runWith_bind_ok hcr]
  rfl

/-- `croniter` accepts the expression of the schedule. -/
def Valid (cs : CronScheduler) (d : Dict) : Prop := ∃ expr, d.cronExpr = .str expr ∧ (cs.croniter.next expr).isSome

theorem getNext_of_valid (hv : cs.Valid d) (now : ℚ) :
    ∃ u, cs.croniter.getNext now d.cronExpr = .ok u ∧ now < u := by
  obtain ⟨expr, he, hn⟩ := hv
  obtain ⟨f, hf⟩ := Option.isSome_iff_exists.mp hn
  exact ⟨f now, by simp [Croniter.getNext, he, hf], cs.croniter.later expr f now hf⟩

theorem getNext_of_not_valid (hv : ¬ cs.Valid d) (now : ℚ) :
    ∃ e, cs.croniter.getNext now d.cronExpr = .error e := by
  cases he : d.cronExpr with
  | str expr =>
    cases hn : cs.croniter.next expr with
    | none => exact ⟨_, by simp only [Croniter.getNext, hn]; rfl⟩
    | some f => exact absurd ⟨expr, he, by rw [hn]; rfl⟩ hv
  | _ => exact ⟨_, rfl⟩

theorem due_time (hdue : d.due now = true) : ∃ v, d.get "next_fire_at" = some (.time v) ∧ v ≤ now := by
  simp only [Dict.due, Bool.and_eq_true] at hdue
  obtain ⟨-, ht⟩ := hdue
  split at ht
  · next v hv => exact ⟨v, hv, by simpa using ht⟩
  · cases ht

theorem get_advancedTo (u clock : ℚ) (d : Dict) : (advancedTo u clock d).get "next_fire_at" = some (.time u) := by
  rw [advancedTo, Dict.get_set, if_neg (by decide), Dict.get_set, if_pos rfl]

section
variable (hstored : cs.schedules.stored w t s = some (some (.dict d))) (hdue : d.due now = true)
include hstored hdue

theorem not_advances_of_same {w' : ControlWorld} (hs : cs.schedules.stored w' t s = cs.schedules.stored w t s) :
    ¬ cs.schedules.AdvancesOnly w w' t s now := by
  rintro ⟨⟨d', u, hd', hu, hl⟩, -⟩
  rw [hs, hstored] at hd'
  cases hd'
  obtain ⟨v, hv, hle⟩ := due_time hdue
  rw [hv] at hu
  cases hu
  exact absurd hl (not_lt.mpr hle)

theorem advancesOnly_iff_of_reaches {w' : ControlWorld} {u : ℚ} (hu : now < u)
    (h : cs.schedules.Reaches s u w w' (some t)) :
    cs.schedules.AdvancesOnly w w' t s now ↔ ':' ∉ t.toList ∧ ':' ∉ s.toList := by
  rw [← only_split_iff]
  have how : cs.schedules.stored w' t s = some (some (.dict (advancedTo u w.redis.clock d))) := by
    rw [ScheduleRegistry.stored_of_reaches h, if_pos rfl, hstored]
    rfl
  constructor
  · intro ha t' s' hs
    by_contra hne
    -- the other pair reads the record of this one, before and after
    have hk := cs.schedules.base.makeKey_eq_makeKey.mpr hs
    have ho := ha.others t' s' hne
    rw [ScheduleRegistry.stored, ScheduleRegistry.stored, hk] at ho
    exact not_advances_of_same hstored hdue ho ha
  · intro hon
    refine ⟨⟨_, u, how, get_advancedTo u _ d, hu⟩, fun t' s' hne => ?_⟩
    rw [ScheduleRegistry.stored_of_reaches h, if_neg fun hs => hne (hon t' s' hs)]

end

end CronScheduler

/-- Firing advances the fired schedule and nothing else if and only if `croniter` accepts its
expression, its id leads back to its tenant, and no colon makes its key ambiguous. -/
theorem fireOne_advancesOnly_iff (cs : CronScheduler) (w : ControlWorld) (t s : String) (d : Dict) (now : ℚ)
    (hstored : cs.schedules.stored w t s = some (some (.dict d))) (hid : d.get "schedule_id" = some (.str s))
    (hdue : d.due now = true) (haccepted : cs.refused d.taskTemplate = none) :
    cs.schedules.AdvancesOnly w ((cs.fireOne d now).runWith ControlCommand.apply .ok w).2 t s now ↔
      (∃ expr, d.cronExpr = .str expr ∧ (cs.croniter.next expr).isSome) ∧ cs.schedules.resolve w.redis s = some t ∧
        ':' ∉ t.toList ∧ ':' ∉ s.toList := by
  have hre := CronScheduler.redis_createTask (w := w) (cronTask d now) d
  rw [CronScheduler.runWith_fireOne haccepted, ← ScheduleRegistry.advancesOnly_congr hre]
  have hstored : cs.schedules.stored (w.exec (.createTask (cronTask d now) d)) t s = some (some (.dict d)) := by
    rw [ScheduleRegistry.stored, hre]
    exact hstored
  rw [← hre]
  generalize w.exec (.createTask (cronTask d now) d) = w at hstored ⊢
  change _ ↔ cs.Valid d ∧ _
  by_cases hv : cs.Valid d
  · obtain ⟨u, hn, hl⟩ := CronScheduler.getNext_of_valid hv now
    have hsi : d.scheduleId.encoded = some s := by
      rw [Dict.scheduleId, Dict.getD, hid]
      rfl
    have hr := cs.schedules.reaches_updateNextFire s u w
    rw [CronScheduler.advance, hn]
    simp only [hsi, hv, true_and]
    cases hres : cs.schedules.resolve w.redis s with
    | none =>
      rw [hres] at hr
      simp only [reduceCtorEq, false_and, iff_false]
      exact CronScheduler.not_advances_of_same hstored hdue (by rw [hr])
    | some t₀ =>
      rw [hres] at hr
      by_cases ht : t₀ = t
      · subst ht
        simp only [true_and]
        exact CronScheduler.advancesOnly_iff_of_reaches hstored hdue hl hr
      · -- the schedule of that id of another tenant is advanced instead
        simp only [Option.some.injEq, ht, false_and, iff_false]
        refine CronScheduler.not_advances_of_same hstored hdue ?_
        rw [ScheduleRegistry.stored_of_reaches hr, if_neg fun hs => ht ?_]
        simpa using hs.symm
  · obtain ⟨e, he⟩ := CronScheduler.getNext_of_not_valid hv now
    rw [CronScheduler.advance, he]
    simp only [hv, false_and, iff_false]
    exact CronScheduler.not_advances_of_same hstored hdue rfl

/-- A schedule that only one tenant has is advanced. -/
theorem fireOne_advances_acme :
    let cs := CronScheduler.named "a"
    let d : Dict := [("schedule_id", .str "nightly"), ("tenant_id", .str "acme"), ("cron_expr", .str "* * * * *"),
      ("task_template", gpuTemplate), ("next_fire_at", .time 60)]
    let w := ((cs.schedules.set "acme" "nightly" (.dict d)).runWith ControlCommand.apply .ok .empty).2
    cs.schedules.AdvancesOnly w ((cs.fireOne d 60).runWith ControlCommand.apply .ok w).2 "acme" "nightly" 60 := by
  intro cs d w
  refine (fireOne_advancesOnly_iff cs w "acme" "nightly" d 60 ?_ rfl ?_ ?_).mpr ⟨⟨_, rfl, rfl⟩, ?_, ?_, ?_⟩ <;>
    decide +kernel

/-- Two tenants have a schedule of one id, and the second registered it last. Firing that of the
first creates its task and advances that of the second. -/
theorem fireOne_advances_other_tenant :
    let cs := CronScheduler.named "a"
    let record (tenant : String) (next : ℚ) : Dict := [("schedule_id", .str "nightly"), ("tenant_id", .str tenant),
      ("cron_expr", .str "* * * * *"), ("task_template", gpuTemplate), ("next_fire_at", .time next)]
    let w := ((do
      let _ ← cs.schedules.set "acme" "nightly" (.dict (record "acme" 60))
      cs.schedules.set "globex" "nightly" (.dict (record "globex" 6000))).runWith ControlCommand.apply .ok .empty).2
    let w' := ((cs.fireOne (record "acme" 60) 60).runWith ControlCommand.apply .ok w).2
    ¬ cs.schedules.AdvancesOnly w w' "acme" "nightly" 60 ∧
      w'.tasks = [(cronTask (record "acme" 60) 60, record "acme" 60)] ∧
      cs.schedules.stored w' "acme" "nightly" = some (some (.dict (record "acme" 60))) ∧
      cs.schedules.stored w' "globex" "nightly" = some (some (.dict (advancedTo 120 0 (record "globex" 6000)))) := by
  intro cs record w w'
  have ha : cs.schedules.stored w' "acme" "nightly" = some (some (.dict (record "acme" 60))) := by decide +kernel
  have hb : cs.schedules.stored w "acme" "nightly" = some (some (.dict (record "acme" 60))) := by decide +kernel
  refine ⟨?_, by decide +kernel, ha, by decide +kernel⟩
  exact CronScheduler.not_advances_of_same hb (by decide +kernel) (ha.trans hb.symm)

end AsyncScheduler
