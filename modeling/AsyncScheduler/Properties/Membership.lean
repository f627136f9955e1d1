import AsyncScheduler.Agent.Server

/-!
# Ownership of a node

A node that has accepted the invitation of a cluster should stay with it until that cluster releases
it.
-/

namespace AsyncScheduler
open List

variable {c : String} {s : AgentState} {cmd : AgentCommand}

def AgentState.Member (c : String) (s : AgentState) : Prop :=
  (s.state = .joined ∨ s.state = .draining) ∧ s.clusterId = c

namespace AgentCommand

def clusterId : AgentCommand → Option String
  | .invite req => some req.clusterId
  | .arrive req | .release req => some req.clusterId
  | .drain req => some req.clusterId
  | .sleep | .report => none

def Releases (c : String) : AgentCommand → Prop
  | .arrive req | .release req => req.clusterId = c
  | _ => False

def Serves (Q : AgentRequest → Prop) : AgentCommand → Prop
  | .invite req => Q (.invite req)
  | .arrive req | .release req => Q (.release req)
  | .drain req => Q (.drain req)
  | .sleep | .report => True

end AgentCommand

namespace AgentApp
variable (app : AgentApp) (Q : AgentRequest → Prop)

theorem issues_report : Issues (fun _ => True) (AgentCommand.Serves Q) (fun _ => True) app.report := by
  unfold report
  split
  · refine ⟨trivial, fun i _ _ => ?_⟩
    cases i <;> trivial
  · trivial

theorem issues_answer {α : Type} (a : α) : Issues (fun _ => True) (AgentCommand.Serves Q) (fun _ => True)
    (app.report.bind fun _ => .ret a) := (issues_report app Q).bind fun _ _ => trivial

variable {Q} in
theorem issues_program {r : AgentRequest} (hr : Q r) :
    Issues (fun _ => True) (AgentCommand.Serves Q) (fun _ => True) (app.program r) := by
  cases r with
  | invite req =>
    refine Issues.void (Q := fun _ => True) ⟨hr, fun started s _ => ?_⟩
    dsimp only
    by_cases hb : s.state ≠ .idle ∧ s.state ≠ .reserved
    · rw [if_pos hb]
      trivial
    · rw [if_neg hb]
      cases started with
      | true => exact issues_answer app Q _
      | false => trivial
  | release req =>
    refine Issues.void (Q := fun _ => True) ⟨hr, fun _ s _ => ?_⟩
    dsimp only
    by_cases hw : s.waits req = true
    · rw [if_pos hw]
      refine Issues.bind (Q := fun _ => True) ⟨trivial, fun i _ _ => ?_⟩ fun _ _ => ⟨hr, fun _ _ _ => issues_answer app Q _⟩
      cases i <;> trivial
    · rw [if_neg hw]
      exact issues_answer app Q _
  | drain req =>
    refine Issues.void (Q := fun _ => True) ⟨hr, fun _ s _ => ?_⟩
    dsimp only
    by_cases hj : s.state ≠ .joined
    · rw [if_pos hj]
      trivial
    · rw [if_neg hj]
      exact issues_answer app Q _

end AgentApp

theorem AgentState.Member.of_apply {i : Bool}
    (h : (cmd.apply i s).Member c) : s.Member c ∨ ∃ req, cmd = .invite req ∧ req.clusterId = c := by
  cases cmd with
  | invite req =>
    unfold AgentCommand.apply AgentState.invite at h
    dsimp only at h
    by_cases hb : s.state ≠ .idle ∧ s.state ≠ .reserved
    · rw [if_pos hb] at h
      exact .inl h
    · rw [if_neg hb] at h
      cases i with
      | true => exact .inr ⟨req, rfl, h.2⟩
      | false =>
        rcases h.1 with h | h <;> cases h
  | arrive req =>
    unfold AgentCommand.apply at h
    dsimp only at h
    by_cases hw : s.waits req = true
    · rw [if_pos hw] at h
      exact .inl h
    · rw [if_neg hw] at h
      rcases h.1 with h | h <;> cases h
  | release req => rcases h.1 with h | h <;> cases h
  | drain req =>
    unfold AgentCommand.apply AgentState.drain at h
    dsimp only at h
    by_cases hj : s.state ≠ .joined
    · rw [if_pos hj] at h
      exact .inl h
    · rw [if_neg hj] at h
      exact .inl ⟨.inl (not_not.mp hj), h.2⟩
  | sleep => exact .inl h
  | report => exact .inl h

theorem AgentState.Member.invite (h : s.Member c) (req : InvitationRequest) (i : Bool) : s.invite req i = s := by
  have hb : s.state ≠ .idle ∧ s.state ≠ .reserved := by
    rcases h.1 with h | h <;> simp [h]
  unfold AgentState.invite
  rw [if_pos hb]

theorem AgentState.Member.apply (h : s.Member c)
    (hc : ∀ req, cmd ≠ .arrive req ∧ cmd ≠ .release req) (i : Bool) : (cmd.apply i s).Member c := by
  cases cmd with
  | invite req =>
    change (s.invite req i).Member c
    rw [h.invite]
    exact h
  | arrive req => exact absurd rfl (hc req).1
  | release req => exact absurd rfl (hc req).2
  | drain req =>
    unfold AgentCommand.apply AgentState.drain
    dsimp only
    by_cases hj : s.state ≠ .joined
    · rw [if_pos hj]
      exact h
    · rw [if_neg hj]
      exact ⟨.inr rfl, h.2⟩
  | sleep => exact h
  | report => exact h

section Runs
variable (app : AgentApp) (Q : AgentRequest → Prop)
variable {s : AgentState} {cmd : AgentCommand}

/-- Whatever requests of `Q` are served in whatever interleaving: a member of a cluster stays one
until a release request of the cluster is processed, and requests that name another cluster change
nothing. -/
def MembershipOwned : Prop :=
  ∀ before after : List (Move AgentRequest Empty Bool), (∀ r, Move.start r ∈ before ++ after → Q r) →
    let s := app.system.run (Sys.init {}) before
    let s' := app.system.run s after
    ∀ c, s.world.Member c →
      (∀ new, s'.trace = new ++ s.trace → (∀ t ∈ new, ¬ t.cmd.Releases c) → s'.world.Member c) ∧
      ∀ t ∈ s'.trace, t.pre.Member c → ∀ d, t.cmd.clusterId = some d → d ≠ c → t.cmd.apply t.input t.pre = t.pre

def OneCluster : Prop :=
  ∀ invitation, Q (.invite invitation) →
    (∀ req, Q (.release req) → req.clusterId = invitation.clusterId) ∧
    ∀ req, Q (.drain req) → req.clusterId = invitation.clusterId

variable {app Q}

/-- What holds in a run of such requests, of every step and of the state. -/
structure Invited (Q : AgentRequest → Prop) (tr : List (Transition AgentCommand Bool AgentState)) (s : AgentState) : Prop where
  member : ∀ c, s.Member c → ∃ req, Q (.invite req) ∧ req.clusterId = c
  trace : ∀ t ∈ tr, t.cmd.Serves Q ∧ ∀ c, t.pre.Member c → ∃ req, Q (.invite req) ∧ req.clusterId = c

theorem Invited.step {tr : List (Transition AgentCommand Bool AgentState)} (i : Bool)
    (hcm : cmd.Serves Q) (h : Invited Q tr s) : Invited Q (⟨cmd, i, s⟩ :: tr) (cmd.apply i s) := by
  constructor
  · intro c hc
    rcases hc.of_apply with hold | ⟨req, rfl, hr⟩
    · exact h.member c hold
    · exact ⟨req, hcm, hr⟩
  · intro t ht
    rcases mem_cons.mp ht with rfl | ht
    · exact ⟨hcm, h.member⟩
    · exact h.trace t ht

theorem invited_run (ms : List (Move AgentRequest Empty Bool)) (hms : ∀ r, Move.start r ∈ ms → Q r) :
    Invited Q (app.system.run (Sys.init {}) ms).trace (app.system.run (Sys.init {}) ms).world ∧
      ∀ p ∈ (app.system.run (Sys.init {}) ms).procs, Issues (fun _ => True) (AgentCommand.Serves Q) (fun _ => True) p := by
  refine System.run_invariant_of_moves (S := app.system) (J := Invited Q) (fun _ _ _ => trivial)
    (fun _ _ _ i hc h => h.step i hc) (fun r hr => app.issues_program (hms r hr)) (fun e => nomatch e)
    (fun p hp => absurd hp not_mem_nil) ⟨fun c hc => ?_, fun t ht => absurd ht not_mem_nil⟩
  rcases hc.1 with h | h <;> cases h

theorem OneCluster.serves (ho : OneCluster Q) {c : String} (hc : ∃ req, Q (.invite req) ∧ req.clusterId = c) (hcm : cmd.Serves Q) (hs : s.Member c) (i : Bool) :
    (¬ cmd.Releases c → (cmd.apply i s).Member c) ∧
      ∀ d, cmd.clusterId = some d → d ≠ c → cmd.apply i s = s := by
  obtain ⟨invitation, hi, rfl⟩ := hc
  obtain ⟨hr, hdr⟩ := ho invitation hi
  constructor
  · intro hn
    refine hs.apply (fun req => ⟨?_, ?_⟩) i
    · rintro rfl
      exact hn (hr req hcm)
    · rintro rfl
      exact hn (hr req hcm)
  · intro d hd hne
    cases cmd with
    | invite req => exact hs.invite req i
    | arrive req => exact absurd ((Option.some.inj hd).symm.trans (hr req hcm)) hne
    | release req => exact absurd ((Option.some.inj hd).symm.trans (hr req hcm)) hne
    | drain req => exact absurd ((Option.some.inj hd).symm.trans (hdr req hcm)) hne
    | sleep => rfl
    | report => rfl

/-- With one cluster membership is owned. -/
theorem OneCluster.owned (ho : OneCluster Q) : MembershipOwned app Q := by
  intro before after hms s s' c hc
  obtain ⟨hb, hp⟩ := invited_run before fun r hr => hms r (mem_append_left _ hr)
  have hru : s' = app.system.run (Sys.init {}) (before ++ after) := (System.run_append _ _ _).symm
  constructor
  · -- The steps so far, the membership as long as none of them releases it
    have hk : (∃ new, s'.trace = new ++ s.trace ∧ ((∀ t ∈ new, ¬ t.cmd.Releases c) → s'.world.Member c)) ∧
        Invited Q s'.trace s'.world := by
      refine (System.run_invariant_of_moves (S := app.system) (I := fun _ => True) (C := AgentCommand.Serves Q)
        (J := fun tr w => (∃ new, tr = new ++ s.trace ∧ ((∀ t ∈ new, ¬ t.cmd.Releases c) → w.Member c)) ∧ Invited Q tr w)
        (fun _ _ _ => trivial) ?_ (fun r hr => app.issues_program (hms r (mem_append_right _ hr))) (fun e => nomatch e)
        hp ⟨⟨[], rfl, fun _ => hc⟩, hb⟩).1
      rintro tr w cmd i hcm ⟨⟨new, rfl, hn⟩, hi⟩
      refine ⟨⟨⟨cmd, i, w⟩ :: new, rfl, fun hq => ?_⟩, hi.step i hcm⟩
      have hw := hn fun t ht => hq t (mem_cons_of_mem _ ht)
      exact (ho.serves (hi.member c hw) hcm hw i).1 (hq _ mem_cons_self)
    intro new hn hq
    obtain ⟨⟨new', heq, hm⟩, -⟩ := hk
    rw [append_cancel_right (hn.symm.trans heq)] at hq
    exact hm hq
  · intro t ht hpr d hd hne
    obtain ⟨ha, -⟩ := invited_run (before ++ after) hms
    rw [hru] at ht
    obtain ⟨hs, hi⟩ := ha.trace t ht
    exact (ho.serves (hi c hpr) hs hpr t.input).2 d hd hne

theorem oneCluster_of_owned (h : MembershipOwned app Q) : OneCluster Q := by
  intro invitation hi
  -- The node joins, and then a single request arrives
  let joined : AgentState := ⟨.joined, invitation.clusterId, invitation.rayHeadAddress⟩
  have hre (r : AgentRequest) (hr : Q r) (r' : AgentRequest)
      (hr' : (Move.start r' : Move AgentRequest Empty Bool) ∈
        [.start (.invite invitation), .step 0 true] ++ [.start r, .step 1 true]) : Q r' := by
    simp only [cons_append, nil_append, mem_cons, Move.start.injEq, reduceCtorEq, not_mem_nil,
      or_false, false_or] at hr'
    rcases hr' with rfl | rfl
    · exact hi
    · exact hr
  constructor
  · intro req hreq
    by_contra hne
    obtain ⟨hst, -⟩ := h [.start (.invite invitation), .step 0 true] [.start (.release req), .step 1 true]
      (hre _ hreq) invitation.clusterId ⟨.inl rfl, rfl⟩
    have hm := hst [⟨.arrive req, true, joined⟩] rfl (by
      intro t ht
      rw [mem_singleton.mp ht]
      exact hne)
    have hw : joined.waits req = false := by simp [AgentState.waits, joined]
    change ((if joined.waits req = true then joined else joined.release).Member invitation.clusterId) at hm
    rw [hw] at hm
    rcases hm.1 with hs | hs <;> cases hs
  · intro req hreq
    by_contra hne
    obtain ⟨-, ho⟩ := h [.start (.invite invitation), .step 0 true] [.start (.drain req), .step 1 true]
      (hre _ hreq) invitation.clusterId ⟨.inl rfl, rfl⟩
    have hsa := ho ⟨.drain req, true, joined⟩ mem_cons_self ⟨.inl rfl, rfl⟩ req.clusterId rfl hne
    cases hsa

end Runs

/-- The membership of a node is owned by its cluster in every interleaving exactly if every release
and drain request names the cluster of every invitation: the handlers do not compare them. -/
theorem membership_owned_iff (app : AgentApp) (Q : AgentRequest → Prop) : MembershipOwned app Q ↔ OneCluster Q :=
  ⟨oneCluster_of_owned, OneCluster.owned⟩

/-- A node of one cluster is released by a request of another. -/
theorem released_by_other_cluster :
    let app : AgentApp := ⟨"node-1", "10.0.0.1", false⟩
    let joined := app.system.run (Sys.init {}) [.start (.invite ⟨"blue", "10.0.0.9:6379"⟩), .step 0 true]
    let released := app.system.run joined [.start (.release ⟨"green", true⟩), .step 1 true]
    joined.world = ⟨.joined, "blue", "10.0.0.9:6379"⟩ ∧ released.world = ⟨.idle, "", ""⟩ ∧
      ¬ MembershipOwned app (· ∈ [.invite ⟨"blue", "10.0.0.9:6379"⟩, .release ⟨"green", true⟩]) := by
  refine ⟨rfl, rfl, fun h => ?_⟩
  have hs := (oneCluster_of_owned h ⟨"blue", "10.0.0.9:6379"⟩ (by decide)).1 ⟨"green", true⟩ (by decide)
  exact absurd hs (by decide)

end AsyncScheduler
