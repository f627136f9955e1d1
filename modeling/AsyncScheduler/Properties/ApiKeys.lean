import AsyncScheduler.Platform.QueueKeys
import AsyncScheduler.Platform.TenantRegistry
import Mathlib.Data.List.Induction
import Mathlib.Data.Set.Function

/-!
# The life of an API key

After any history of registrations, generated and revoked keys, a key leads to a tenant exactly if
it was generated for the tenant and neither revoked since, under whatever tenant, nor was the tenant
unregistered.
-/

namespace AsyncScheduler

namespace TenantRegistry

inductive TenantOp where
  | register (tenantInfo : Dict)
  | generateApiKey (tenantId token : String)
  | revokeApiKey (tenantId apiKey : String)
  | unregister (tenantId : String)
  -- Time passes up to an instant
  | elapse (t : ℚ)

namespace TenantOp

def tenantId : TenantOp → Option String
  | .register tenantInfo => some (tenantInfo.getD "tenant_id" (.str "")).pyStr
  | .generateApiKey t _ | .revokeApiKey t _ | .unregister t => some t
  | .elapse _ => none

def generates : TenantOp → Option (String × String)
  | .generateApiKey t token => some (t, rawKey token)
  | _ => none

def keys : TenantOp → List String
  | .generateApiKey _ token => [rawKey token]
  | .revokeApiKey _ apiKey => [apiKey]
  | _ => []

def Ends (t k : String) : TenantOp → Prop
  | .revokeApiKey _ k' => k' = k
  | .unregister t' => t' = t
  | _ => False

def perform (reg : TenantRegistry) : TenantOp → TenantPy Unit
  | .register tenantInfo => (reg.register tenantInfo).void
  | .generateApiKey t token => (reg.generateApiKey t token).void
  | .revokeApiKey t apiKey => (reg.revokeApiKey t apiKey).void
  | .unregister t => (reg.unregister t).void
  | .elapse t => .act (.base (.advance t)) fun _ _ => .ret ()

end TenantOp

/-- The key was generated for the tenant and nothing after that ends its life. -/
def Live (history : List TenantOp) (t k : String) : Prop :=
  ∃ before op after, history = before ++ op :: after ∧ op.generates = some (t, k) ∧ ∀ op' ∈ after, ¬ op'.Ends t k

def Generated (history : List TenantOp) (t k : String) : Prop := ∃ op ∈ history, op.generates = some (t, k)

def Fresh (history : List TenantOp) : Prop := ((history.filterMap TenantOp.generates).map Prod.snd).Nodup

theorem not_live_nil (t k : String) : ¬ Live [] t k := by
  rintro ⟨before, op, after, h, -, -⟩
  simp at h

theorem live_snoc (history : List TenantOp) (op : TenantOp) (t k : String) :
    Live (history ++ [op]) t k ↔ op.generates = some (t, k) ∨ Live history t k ∧ ¬ op.Ends t k := by
  constructor
  · rintro ⟨before, g, after, heq, hg, ha⟩
    rcases List.eq_nil_or_concat after with rfl | ⟨rest, last, rfl⟩
    · obtain ⟨-, rfl⟩ := List.append_singleton_inj.mp heq
      exact .inl hg
    · have hs : history ++ [op] = (before ++ g :: rest) ++ [last] := by simpa using heq
      obtain ⟨rfl, rfl⟩ := List.append_singleton_inj.mp hs
      refine .inr ⟨⟨before, g, rest, rfl, hg, fun op' h' => ha op' ?_⟩, ha op ?_⟩
      · simp [h']
      · simp
  · rintro (hg | ⟨⟨before, g, after, rfl, hg, ha⟩, hop⟩)
    · exact ⟨history, op, [], rfl, hg, fun _ h => absurd h List.not_mem_nil⟩
    · refine ⟨before, g, after ++ [op], by simp, hg, fun op' h' => ?_⟩
      rcases List.mem_append.mp h' with h' | h'
      · exact ha op' h'
      · rw [List.mem_singleton.mp h']
        exact hop

variable {history : List TenantOp} {op : TenantOp} {t t' k : String}

theorem Live.generated (h : Live history t k) : Generated history t k := by
  obtain ⟨before, op, after, rfl, hop, -⟩ := h
  exact ⟨op, by simp, hop⟩

theorem Generated.snoc (h : Generated history t k) (op : TenantOp) :
    Generated (history ++ [op]) t k := by
  obtain ⟨g, hg, heq⟩ := h
  exact ⟨g, List.mem_append_left _ hg, heq⟩

theorem Generated.mem_keys (h : Generated history t k) :
    ∃ op ∈ history, k ∈ op.keys := by
  obtain ⟨op, hop, heq⟩ := h
  refine ⟨op, hop, ?_⟩
  cases op with
  | generateApiKey t' token =>
    obtain ⟨-, rfl⟩ := Prod.mk.inj (Option.some.inj heq)
    exact List.mem_singleton_self _
  | register _ | revokeApiKey _ _ | unregister _ | elapse _ => cases heq

theorem Fresh.tenant_eq (hf : Fresh history) (h : Generated history t k)
    (h' : Generated history t' k) : t = t' := by
  obtain ⟨op, hop, hg⟩ := h
  obtain ⟨op', hop', hg'⟩ := h'
  have hm : (t, k) ∈ history.filterMap TenantOp.generates := List.mem_filterMap.mpr ⟨op, hop, hg⟩
  have hm' : (t', k) ∈ history.filterMap TenantOp.generates := List.mem_filterMap.mpr ⟨op', hop', hg'⟩
  have hs := List.inj_on_of_nodup_map hf hm hm' rfl
  exact congrArg Prod.fst hs

theorem Fresh.of_snoc (h : Fresh (history ++ [op])) : Fresh history := by
  unfold Fresh at h ⊢
  rw [List.filterMap_append, List.map_append] at h
  exact h.of_append_left

theorem Fresh.new (h : Fresh (history ++ [op]))
    (hop : op.generates = some (t, k)) : ¬ Generated history t' k := by
  rintro ⟨g, hg, heq⟩
  unfold Fresh at h
  rw [List.filterMap_append, List.map_append] at h
  have hb : k ∈ (history.filterMap TenantOp.generates).map Prod.snd :=
    List.mem_map.mpr ⟨(t', k), List.mem_filterMap.mpr ⟨g, hg, heq⟩, rfl⟩
  have hn : k ∈ ([op].filterMap TenantOp.generates).map Prod.snd := by simp [hop]
  exact (List.disjoint_of_nodup_append h) hb hn

/-- The ids that the keys of the store can tell apart. -/
structure PlainId (t : String) : Prop where
  colon : ':' ∉ t.toList
  index : t ≠ "index"
  keysIndex : t ≠ "api_keys_idx"

section Keys
variable (reg : TenantRegistry)

theorem apiKeyIdx_eq (t : String) : apiKeyIdx t = "tenant:api_keys" ++ ("_idx:" ++ t) := by
  rw [← String.append_assoc]
  rfl

theorem apiKeysHash_ne_apiKeyIdx (t : String) : apiKeysHash ≠ apiKeyIdx t := by
  intro h
  have hh : apiKeysHash = "tenant:api_keys" ++ "" := rfl
  rw [apiKeyIdx_eq, hh] at h
  have ht := congrArg String.toList (append_right_inj h)
  rw [String.toList_append] at ht
  exact absurd ht (by simp)

theorem apiKeyIdx_inj {t t' : String} (h : apiKeyIdx t = apiKeyIdx t') : t = t' := by
  unfold apiKeyIdx at h
  exact append_right_inj h

theorem apiKeysHash_ne_makeKey (t i : String) : apiKeysHash ≠ reg.base.makeKey t i := by
  have hne : reg.base.makeKey t i ≠ reg.base.keyPrefix ++ ":" ++ "api_keys" := reg.base.makeKey_ne t i (by decide)
  have hh : reg.base.keyPrefix ++ ":" ++ "api_keys" = apiKeysHash := rfl
  rw [hh] at hne
  exact hne.symm

theorem apiKeyIdx_ne_makeKey {t : String} (ht : PlainId t) (t' i : String) : apiKeyIdx t' ≠ reg.base.makeKey t i := by
  intro h
  have hid : apiKeyIdx t' = "tenant:" ++ ("api_keys_idx" ++ (":" ++ t')) := by
    rw [← String.append_assoc, ← String.append_assoc]
    rfl
  have hi : reg.base.makeKey t i = "tenant:" ++ (t ++ (":" ++ i)) := by
    rw [BaseRegistry.makeKey, String.append_assoc, String.append_assoc]
    rfl
  have hc (s : String) : (":" ++ s).toList = ':' :: s.toList := by
    rw [String.toList_append]
    rfl
  rw [hid, hi] at h
  have hl := congrArg String.toList (append_right_inj h)
  rw [String.toList_append, hc t', String.toList_append, hc i] at hl
  have hp : ':' ∉ "api_keys_idx".toList := by decide
  have hf := congrArg (List.takeWhile (· ≠ ':')) hl
  rw [List.takeWhile_append_of_pos, List.takeWhile_append_of_pos] at hf
  · simp only [ne_eq, decide_not, List.takeWhile_cons, decide_true, Bool.not_true, Bool.false_eq_true, if_false,
      List.append_nil] at hf
    exact ht.keysIndex (String.toList_inj.mp hf.symm)
  · intro x hx
    simpa using fun heq : x = ':' => ht.colon (heq ▸ hx)
  · intro x hx
    simpa using fun heq : x = ':' => hp (heq ▸ hx)

theorem apiKeys_ne_indexKey (tail t : String) : "tenant:api_keys" ++ tail ≠ reg.base.indexKey t := by
  have hi : reg.base.indexKey t = "tenant:index:" ++ t := rfl
  rw [hi]
  exact append_ne 7 (by decide) (by decide) (by decide) tail t

theorem apiKeys_ne_tenantsKey (tail : String) : "tenant:api_keys" ++ tail ≠ reg.base.tenantsKey := by
  have ht : reg.base.tenantsKey = "tenant:tenants" ++ "" := rfl
  rw [ht]
  exact append_ne 7 (by decide) (by decide) (by decide) tail ""

end Keys

/-- A key of the store that belongs to the API keys. -/
inductive KeyOfKeys : String → Prop
  | hash : KeyOfKeys apiKeysHash
  | index (t : String) : KeyOfKeys (apiKeyIdx t)

section Frame
variable (reg : TenantRegistry) {k : String} (hk : KeyOfKeys k)
include hk

theorem KeyOfKeys.ne_indexKey (t : String) : k ≠ reg.base.indexKey t := by
  cases hk with
  | hash => exact apiKeys_ne_indexKey reg "" t
  | index t' =>
    rw [apiKeyIdx_eq]
    exact apiKeys_ne_indexKey reg _ t

theorem KeyOfKeys.ne_tenantsKey : k ≠ reg.base.tenantsKey := by
  cases hk with
  | hash => exact apiKeys_ne_tenantsKey reg ""
  | index t =>
    rw [apiKeyIdx_eq]
    exact apiKeys_ne_tenantsKey reg _

theorem KeyOfKeys.ne_makeKey {t : String} (ht : PlainId t) (i : String) : k ≠ reg.base.makeKey t i := by
  cases hk with
  | hash => exact apiKeysHash_ne_makeKey reg t i
  | index t' => exact apiKeyIdx_ne_makeKey reg ht t' i

end Frame

section Operations
variable (reg : TenantRegistry) (w : ControlWorld)

def next (op : TenantOp) : ControlWorld := ((op.perform reg).runWith TenantCommand.apply .ok w).2

theorem runWith_base {α : Type} (p : Control α) :
    (p.embed TenantCommand.base).runWith TenantCommand.apply .ok w = p.runWith ControlCommand.apply .ok w :=
  Prog.runWith_embed (fun _ => rfl) p .ok w

theorem runWith_void {α : Type} (p : TenantPy α) :
    (p.void.runWith TenantCommand.apply .ok w).2 = (p.runWith TenantCommand.apply .ok w).2 := by
  rw [Prog.void, Prog.runWith_bind]
  obtain ⟨outcome, w'⟩ := p.runWith TenantCommand.apply .ok w
  cases outcome <;> rfl

theorem runWith_executePipeline (ops : List PipelineOp) :
    (executePipeline ops).runWith TenantCommand.apply .ok w =
      (PipelineOp.replies w.redis ops, w.onRedis (PipelineOp.execAll · ops)) := runWith_awaiting ..

theorem next_generate (t token : String) :
    reg.next w (.generateApiKey t token) = w.onRedis (PipelineOp.execAll ·
      [.hset apiKeysHash (Sha256.hexdigest (rawKey token)) t, .sadd (apiKeyIdx t) (Sha256.hexdigest (rawKey token))]) := by
  rw [next, TenantOp.perform, runWith_void, generateApiKey, Prog.bind_eq, Prog.runWith_bind, runWith_executePipeline]
  cases PipelineOp.replies w.redis _ <;> rfl

theorem next_revoke (t apiKey : String) :
    reg.next w (.revokeApiKey t apiKey) = w.onRedis (PipelineOp.execAll ·
      [.hdel apiKeysHash (Sha256.hexdigest apiKey), .srem (apiKeyIdx t) (Sha256.hexdigest apiKey)]) := by
  rw [next, TenantOp.perform, runWith_void, revokeApiKey, Prog.bind_eq, Prog.runWith_bind, runWith_executePipeline]
  cases PipelineOp.replies w.redis _ <;> rfl

theorem entries_register {tenantInfo : Dict} (hid : PlainId (tenantInfo.getD "tenant_id" (.str "")).pyStr) {k : String}
    (hk : KeyOfKeys k) : (reg.next w (.register tenantInfo)).redis.entries k = w.redis.entries k := by
  rw [next, TenantOp.perform, runWith_void, register]
  generalize tenantInfo.getD "tenant_id" (.str "") = tid at hid
  split
  · rfl
  · split
    · next id he =>
      have hs : id = tid.pyStr := by
        cases tid <;> cases he <;> rfl
      rw [runWith_base, hs]
      exact reg.base.entries_set _ _ w _ (hk.ne_makeKey reg hid _) (hk.ne_indexKey reg _) (hk.ne_tenantsKey reg)
    · rw [runWith_base, runWith_logExternalErrors, Prog.bind_eq,
        Prog.runWith_bind_ok (Control.runWith_set _ _ _ reg.base.validEx_ex)]
      dsimp only [Prog.runWith, ControlWorld.onRedis]
      rw [Keyspace.entries_touch, if_neg (hk.ne_makeKey reg hid _)]

theorem entries_unregister {t : String} (hid : PlainId t) {ms : List String} (hms : w.redis.IsSet (apiKeyIdx t) ms)
    {k : String} (hk : KeyOfKeys k) : (reg.next w (.unregister t)).redis.entries k =
      if ms = [] then w.redis.entries k
      else (PipelineOp.execAll w.redis (ms.map (.hdel apiKeysHash) ++ [.delete (apiKeyIdx t)])).entries k := by
  have hm : ((Control.smembers (apiKeyIdx t)).embed TenantCommand.base).runWith TenantCommand.apply .ok w =
      (.ok ms, w) := by
    rw [runWith_base, Control.runWith_smembers, hms.smembers]
    rfl
  have hd (w' : ControlWorld) : (((reg.base.delete t t).embed TenantCommand.base).runWith
      TenantCommand.apply .ok w').2.redis.entries k = w'.redis.entries k := by
    rw [runWith_base]
    exact reg.base.entries_delete t t w' (hk.ne_makeKey reg hid t) (hk.ne_indexKey reg t)
  rw [next, TenantOp.perform, runWith_void, unregister, Prog.bind_eq, Prog.runWith_bind_ok hm]
  by_cases he : ms = []
  · rw [if_neg (not_not.mpr he), if_pos he]
    exact hd w
  · rw [if_pos he, if_neg he, Prog.bind_eq, Prog.runWith_bind, runWith_executePipeline]
    cases PipelineOp.replies w.redis (ms.map (.hdel apiKeysHash) ++ [.delete (apiKeyIdx t)]) with
    | ok ns => exact hd _
    | error e => rfl

end Operations

theorem execAll_hdel {r : Keyspace Stored} {key : String} {fs : List (String × String)} (h : r.IsHash key fs)
    (ms : List String) : (PipelineOp.execAll r (ms.map (.hdel key))).IsHash key (fs.filter fun e => e.1 ∉ ms) ∧
      ∀ k, k ≠ key → (PipelineOp.execAll r (ms.map (.hdel key))).entries k = r.entries k := by
  induction ms generalizing r fs with
  | nil =>
    have ha : fs.filter (fun e => e.1 ∉ ([] : List String)) = fs := by simp
    rw [ha]
    exact ⟨h, fun _ _ => rfl⟩
  | cons m ms ih =>
    obtain ⟨r', hr', hh, ho⟩ := h.hdel m
    have he : PipelineOp.exec r (.hdel key m) = r' := by rw [PipelineOp.exec, hr', Option.getD_some]
    obtain ⟨hr, hke⟩ := ih hh
    have hf : fs.filter (fun e => e.1 ∉ m :: ms) = (fs.filter (·.1 ≠ m)).filter fun e => e.1 ∉ ms := by
      rw [List.filter_filter]
      refine List.filter_congr fun e _ => ?_
      simp [Bool.and_comm]
    have hs : PipelineOp.execAll r ((m :: ms).map (.hdel key)) = PipelineOp.execAll r' (ms.map (.hdel key)) := by
      rw [← he]
      rfl
    rw [hs, hf]
    exact ⟨hr, fun k hk => (hke k hk).trans (ho k hk)⟩

/-- The common hash has exactly the live keys; the set of a tenant has all its live keys, and no key
that was not generated for it. -/
structure Books (history : List TenantOp) (w : ControlWorld) : Prop where
  keys : ∃ fs, w.redis.IsHash apiKeysHash fs ∧
    ∀ h t, fs.lookup h = some t ↔ ∃ k, Sha256.hexdigest k = h ∧ Live history t k
  index : ∀ t, ∃ ms, w.redis.IsSet (apiKeyIdx t) ms ∧
    (∀ h ∈ ms, ∃ k, Sha256.hexdigest k = h ∧ Generated history t k) ∧
    ∀ k, Live history t k → Sha256.hexdigest k ∈ ms

def CollisionFree (history : List TenantOp) : Prop :=
  ∀ k k', (∃ op ∈ history, k ∈ op.keys) → (∃ op ∈ history, k' ∈ op.keys) →
    Sha256.hexdigest k = Sha256.hexdigest k' → k = k'

section Step
variable {reg : TenantRegistry} {history : List TenantOp} {w : ControlWorld}

section
variable (hb : Books history w)
include hb

theorem Books.idle {op : TenantOp} {w' : ControlWorld} (hge : op.generates = none)
    (he : ∀ t k, ¬ op.Ends t k) (hha : ∀ fs, w.redis.IsHash apiKeysHash fs → w'.redis.IsHash apiKeysHash fs)
    (hset : ∀ t ms, w.redis.IsSet (apiKeyIdx t) ms → w'.redis.IsSet (apiKeyIdx t) ms) :
    Books (history ++ [op]) w' := by
  have hl (t k : String) : Live (history ++ [op]) t k ↔ Live history t k := by
    rw [live_snoc, hge]
    simp [he]
  constructor
  · obtain ⟨fs, hfs, hke⟩ := hb.keys
    refine ⟨fs, hha fs hfs, fun h t => ?_⟩
    simp only [hl]
    exact hke h t
  · intro t
    obtain ⟨ms, hms, hgen, ha⟩ := hb.index t
    refine ⟨ms, hset t ms hms, fun h hh => ?_, fun k hk => ha k ((hl t k).mp hk)⟩
    obtain ⟨k, hk, hg⟩ := hgen h hh
    exact ⟨k, hk, hg.snoc op⟩

theorem Books.elapse (t : ℚ) : Books (history ++ [.elapse t]) (reg.next w (.elapse t)) := by
  have hn : reg.next w (.elapse t) = if w.redis.clock < t then w.onRedis (·.advance t) else w := rfl
  rw [hn]
  by_cases hl : w.redis.clock < t
  · rw [if_pos hl]
    exact hb.idle rfl (fun _ _ h => h) (fun fs h => h.advance t) fun _ ms h => h.advance t
  · rw [if_neg hl]
    exact hb.idle rfl (fun _ _ h => h) (fun _ h => h) fun _ _ h => h

theorem Books.register {tenantInfo : Dict} (hid : PlainId (tenantInfo.getD "tenant_id" (.str "")).pyStr) :
    Books (history ++ [.register tenantInfo]) (reg.next w (.register tenantInfo)) :=
  hb.idle rfl (fun _ _ h => h) (fun _ h => h.congr (entries_register reg w hid .hash))
    fun t _ h => h.congr (entries_register reg w hid (.index t))

/-- A fresh key is entered for its tenant, and nothing else changes. -/
theorem Books.generate {t₀ token : String}
    (hfr : Fresh (history ++ [.generateApiKey t₀ token])) (hf : CollisionFree (history ++ [.generateApiKey t₀ token])) :
    Books (history ++ [.generateApiKey t₀ token]) (reg.next w (.generateApiKey t₀ token)) := by
  have hge : (TenantOp.generateApiKey t₀ token).generates = some (t₀, rawKey token) := rfl
  have hl (t k : String) : Live (history ++ [.generateApiKey t₀ token]) t k ↔
      t = t₀ ∧ k = rawKey token ∨ Live history t k := by
    rw [live_snoc, hge]
    constructor
    · rintro (h | ⟨h, -⟩)
      · obtain ⟨rfl, rfl⟩ := Prod.mk.inj (Option.some.inj h)
        exact .inl ⟨rfl, rfl⟩
      · exact .inr h
    · rintro (⟨rfl, rfl⟩ | h)
      · exact .inl rfl
      · exact .inr ⟨h, fun he => he⟩
  have hn (t k : String) (hk : Live history t k) : Sha256.hexdigest k ≠ Sha256.hexdigest (rawKey token) := by
    intro heq
    obtain ⟨op, hop, hm⟩ := hk.generated.mem_keys
    have hs := hf k (rawKey token) ⟨op, List.mem_append_left _ hop, hm⟩
      ⟨_, List.mem_append_right _ (List.mem_singleton_self _), List.mem_singleton_self _⟩ heq
    exact hfr.new hge (hs ▸ hk.generated)
  obtain ⟨fs, hfs, hke⟩ := hb.keys
  obtain ⟨ms₀, hms₀, hg₀, ha₀⟩ := hb.index t₀
  obtain ⟨r₁, hr₁, hh₁, ho₁⟩ := hfs.hset (Sha256.hexdigest (rawKey token)) t₀
  obtain ⟨r₂, ms₂, hr₂, hs₂, hm₂, ho₂⟩ :=
    (hms₀.congr (ho₁ _ (apiKeysHash_ne_apiKeyIdx t₀).symm)).sadd (Sha256.hexdigest (rawKey token))
  have hr : (reg.next w (.generateApiKey t₀ token)).redis = r₂ := by
    rw [next_generate]
    simp [ControlWorld.onRedis, PipelineOp.execAll, PipelineOp.exec, hr₁, hr₂]
  constructor
  · refine ⟨_, hr ▸ hh₁.congr (ho₂ _ (apiKeysHash_ne_apiKeyIdx t₀)), fun h t => ?_⟩
    simp only [hl]
    by_cases hh : h = Sha256.hexdigest (rawKey token)
    · subst hh
      rw [List.lookup_cons_self]
      constructor
      · intro heq
        exact ⟨rawKey token, rfl, .inl ⟨(Option.some.inj heq).symm, rfl⟩⟩
      · rintro ⟨k, hk, ⟨rfl, -⟩ | hold⟩
        · rfl
        · exact absurd hk (hn t k hold)
    · have hne : (h == Sha256.hexdigest (rawKey token)) = false := beq_eq_false_iff_ne.mpr hh
      rw [List.lookup_cons, hne, lookup_filter_key (fun x => x ≠ Sha256.hexdigest (rawKey token))]
      simp only [ne_eq, hh, not_false_eq_true, decide_true, if_true]
      rw [hke]
      constructor
      · rintro ⟨k, hk, hold⟩
        exact ⟨k, hk, .inr hold⟩
      · rintro ⟨k, hk, ⟨-, rfl⟩ | hold⟩
        · exact absurd hk.symm hh
        · exact ⟨k, hk, hold⟩
  · intro t
    by_cases ht : t = t₀
    · subst ht
      refine ⟨ms₂, hr ▸ hs₂, fun h hh => ?_, fun k hk => ?_⟩
      · rcases (hm₂ h).mp hh with rfl | hold
        · exact ⟨rawKey token, rfl, _, List.mem_append_right _ (List.mem_singleton_self _), hge⟩
        · obtain ⟨k, hk, hg⟩ := hg₀ h hold
          exact ⟨k, hk, hg.snoc _⟩
      · rcases (hl t k).mp hk with ⟨-, rfl⟩ | hold
        · exact (hm₂ _).mpr (.inl rfl)
        · exact (hm₂ _).mpr (.inr (ha₀ k hold))
    · obtain ⟨ms, hms, hgen, ha⟩ := hb.index t
      have hi : apiKeyIdx t ≠ apiKeyIdx t₀ := fun heq => ht (apiKeyIdx_inj heq)
      refine ⟨ms, ?_, fun h hh => ?_, fun k hk => ?_⟩
      · rw [hr]
        exact (hms.congr (ho₁ _ (apiKeysHash_ne_apiKeyIdx t).symm)).congr (ho₂ _ hi)
      · obtain ⟨k, hk, hg⟩ := hgen h hh
        exact ⟨k, hk, hg.snoc _⟩
      · rcases (hl t k).mp hk with ⟨heq, -⟩ | hold
        · exact absurd heq ht
        · exact ha k hold

theorem Books.revoke {t₀ k₀ : String} (hf : CollisionFree (history ++ [.revokeApiKey t₀ k₀])) :
    Books (history ++ [.revokeApiKey t₀ k₀]) (reg.next w (.revokeApiKey t₀ k₀)) := by
  have hge : (TenantOp.revokeApiKey t₀ k₀).generates = none := rfl
  have hl (t k : String) : Live (history ++ [.revokeApiKey t₀ k₀]) t k ↔ Live history t k ∧ k₀ ≠ k := by
    rw [live_snoc, hge]
    simp [TenantOp.Ends]
  have ho (t k : String) (hk : Live history t k) (hne : k₀ ≠ k) : Sha256.hexdigest k ≠ Sha256.hexdigest k₀ := by
    intro heq
    obtain ⟨op, hop, hm⟩ := hk.generated.mem_keys
    have hs := hf k k₀ ⟨op, List.mem_append_left _ hop, hm⟩
      ⟨_, List.mem_append_right _ (List.mem_singleton_self _), List.mem_singleton_self _⟩ heq
    exact hne hs.symm
  obtain ⟨fs, hfs, hke⟩ := hb.keys
  obtain ⟨ms₀, hms₀, hg₀, ha₀⟩ := hb.index t₀
  obtain ⟨r₁, hr₁, hh₁, ho₁⟩ := hfs.hdel (Sha256.hexdigest k₀)
  obtain ⟨r₂, ms₂, hr₂, hs₂, hsu₂, hre₂, ho₂⟩ :=
    (hms₀.congr (ho₁ _ (apiKeysHash_ne_apiKeyIdx t₀).symm)).srem (Sha256.hexdigest k₀)
  have hr : (reg.next w (.revokeApiKey t₀ k₀)).redis = r₂ := by
    rw [next_revoke]
    simp [ControlWorld.onRedis, PipelineOp.execAll, PipelineOp.exec, hr₁, hr₂]
  constructor
  · refine ⟨_, hr ▸ hh₁.congr (ho₂ _ (apiKeysHash_ne_apiKeyIdx t₀)), fun h t => ?_⟩
    rw [lookup_filter_key (fun x => x ≠ Sha256.hexdigest k₀)]
    simp only [hl]
    by_cases hh : h = Sha256.hexdigest k₀
    · subst hh
      simp only [ne_eq, not_true_eq_false, decide_false, Bool.false_eq_true, if_false, reduceCtorEq, false_iff]
      rintro ⟨k, hk, hold, hne⟩
      exact ho t k hold hne hk
    · simp only [ne_eq, hh, not_false_eq_true, decide_true, if_true]
      rw [hke]
      constructor
      · rintro ⟨k, hk, hold⟩
        exact ⟨k, hk, hold, fun heq => hh (hk.symm.trans (congrArg _ heq.symm))⟩
      · rintro ⟨k, hk, hold, -⟩
        exact ⟨k, hk, hold⟩
  · intro t
    by_cases ht : t = t₀
    · subst ht
      refine ⟨ms₂, hr ▸ hs₂, fun h hh => ?_, fun k hk => ?_⟩
      · obtain ⟨k, hk, hg⟩ := hg₀ h (hsu₂ h hh)
        exact ⟨k, hk, hg.snoc _⟩
      · obtain ⟨hold, hne⟩ := (hl t k).mp hk
        exact hre₂ _ (ha₀ k hold) (ho t k hold hne)
    · obtain ⟨ms, hms, hgen, ha⟩ := hb.index t
      have hi : apiKeyIdx t ≠ apiKeyIdx t₀ := fun heq => ht (apiKeyIdx_inj heq)
      refine ⟨ms, ?_, fun h hh => ?_, fun k hk => ha k ((hl t k).mp hk).1⟩
      · rw [hr]
        exact (hms.congr (ho₁ _ (apiKeysHash_ne_apiKeyIdx t).symm)).congr (ho₂ _ hi)
      · obtain ⟨k, hk, hg⟩ := hgen h hh
        exact ⟨k, hk, hg.snoc _⟩

/-- All keys of a tenant go with it. -/
theorem Books.unregister {t₀ : String} (hid : PlainId t₀) (hfr : Fresh history) (hf : CollisionFree history) :
    Books (history ++ [.unregister t₀]) (reg.next w (.unregister t₀)) := by
  have hge : (TenantOp.unregister t₀).generates = none := rfl
  have hl (t k : String) : Live (history ++ [.unregister t₀]) t k ↔ Live history t k ∧ t₀ ≠ t := by
    rw [live_snoc, hge]
    simp [TenantOp.Ends]
  obtain ⟨fs, hfs, hke⟩ := hb.keys
  obtain ⟨ms₀, hms₀, hg₀, ha₀⟩ := hb.index t₀
  -- The pipeline drops the fields of the tenant's set and then the set
  obtain ⟨hha, ho⟩ := execAll_hdel hfs ms₀
  have ha (k : String) (hk : KeyOfKeys k) : (reg.next w (.unregister t₀)).redis.entries k =
      if ms₀ = [] then w.redis.entries k
      else if k = apiKeyIdx t₀ then none
      else (PipelineOp.execAll w.redis (ms₀.map (.hdel apiKeysHash))).entries k := by
    rw [entries_unregister reg w hid hms₀ hk]
    by_cases he : ms₀ = []
    · rw [if_pos he, if_pos he]
    · rw [if_neg he, if_neg he, PipelineOp.execAll, List.foldl_append]
      simp only [List.foldl_cons, List.foldl_nil, PipelineOp.exec, Keyspace.del_eq_touch]
      rw [Keyspace.entries_touch]
      rfl
  constructor
  · refine ⟨fs.filter fun e => e.1 ∉ ms₀, ?_, fun h t => ?_⟩
    · by_cases he : ms₀ = []
      · have hal : fs.filter (fun e => e.1 ∉ ms₀) = fs := by simp [he]
        rw [hal]
        refine hfs.congr ?_
        rw [ha _ .hash, if_pos he]
      · refine hha.congr ?_
        rw [ha _ .hash, if_neg he, if_neg (apiKeysHash_ne_apiKeyIdx t₀)]
    · rw [lookup_filter_key (fun x => x ∉ ms₀)]
      simp only [hl]
      by_cases hh : h ∈ ms₀
      · simp only [hh, not_true_eq_false, decide_false, Bool.false_eq_true, if_false, reduceCtorEq, false_iff]
        rintro ⟨k, hk, hold, hne⟩
        obtain ⟨k', hk', hg⟩ := hg₀ h hh
        have hs := hf k k' hold.generated.mem_keys hg.mem_keys (hk.trans hk'.symm)
        exact hne (hfr.tenant_eq hg (hs ▸ hold.generated))
      · simp only [hh, not_false_eq_true, decide_true, if_true]
        rw [hke]
        constructor
        · rintro ⟨k, hk, hold⟩
          refine ⟨k, hk, hold, ?_⟩
          rintro rfl
          exact hh (hk ▸ ha₀ k hold)
        · rintro ⟨k, hk, hold, -⟩
          exact ⟨k, hk, hold⟩
  · intro t
    by_cases ht : t = t₀
    · subst ht
      refine ⟨[], ?_, fun h hh => absurd hh List.not_mem_nil, fun k hk => absurd rfl ((hl t k).mp hk).2⟩
      by_cases he : ms₀ = []
      · refine (he ▸ hms₀).congr ?_
        rw [ha _ (.index t), if_pos he]
      · refine .inl ⟨?_, rfl⟩
        rw [ha _ (.index t), if_neg he, if_pos rfl]
    · obtain ⟨ms, hms, hgen, hal⟩ := hb.index t
      have hi : apiKeyIdx t ≠ apiKeyIdx t₀ := fun heq => ht (apiKeyIdx_inj heq)
      refine ⟨ms, hms.congr ?_, fun h hh => ?_, fun k hk => hal k ((hl t k).mp hk).1⟩
      · rw [ha _ (.index t), if_neg hi, ho _ (apiKeysHash_ne_apiKeyIdx t).symm, ite_self]
      · obtain ⟨k, hk, hg⟩ := hgen h hh
        exact ⟨k, hk, hg.snoc _⟩

end

end Step

def after (reg : TenantRegistry) (w : ControlWorld) (history : List TenantOp) : ControlWorld := history.foldl reg.next w

def NoKeys (w : ControlWorld) : Prop := ∀ k, KeyOfKeys k → w.redis.entries k = none

theorem books_after (reg : TenantRegistry) {w : ControlWorld} (hw : NoKeys w) (history : List TenantOp)
    (hi : ∀ op ∈ history, ∀ t, op.tenantId = some t → PlainId t) (hfr : Fresh history)
    (hf : CollisionFree history) : Books history (reg.after w history) := by
  induction history using List.reverseRecOn with
  | nil =>
    refine ⟨⟨[], .inl ⟨hw _ .hash, rfl⟩, fun h t => ?_⟩, fun t => ⟨[], .inl ⟨hw _ (.index t), rfl⟩, ?_, ?_⟩⟩
    · simp [not_live_nil]
    · exact fun h hh => absurd hh List.not_mem_nil
    · exact fun k hk => absurd hk (not_live_nil t k)
  | append_singleton history op ih =>
    have hf' : CollisionFree history := fun k k' hk hk' =>
      hf k k' (hk.imp fun _ h => ⟨List.mem_append_left _ h.1, h.2⟩) (hk'.imp fun _ h => ⟨List.mem_append_left _ h.1, h.2⟩)
    have hb := ih (fun op hop => hi op (List.mem_append_left _ hop)) hfr.of_snoc hf'
    have hop := hi op (List.mem_append_right _ (List.mem_singleton_self op))
    have hs : reg.after w (history ++ [op]) = reg.next (reg.after w history) op := by simp [after]
    rw [hs]
    cases op with
    | register tenantInfo => exact hb.register (hop _ rfl)
    | generateApiKey t token => exact hb.generate hfr hf
    | revokeApiKey t apiKey => exact hb.revoke hf
    | unregister t => exact hb.unregister (hop t rfl) hfr.of_snoc hf'
    | elapse t => exact hb.elapse t

end TenantRegistry

open TenantRegistry in
/-- After every history of operations, one after another, a key is verified as the key of a tenant
exactly if it is live for the tenant; otherwise the answer is `None`. -/
theorem verified_iff_live (reg : TenantRegistry) (w : ControlWorld) (hw : NoKeys w) (history : List TenantOp)
    (hids : ∀ op ∈ history, ∀ t, op.tenantId = some t → PlainId t) (hfresh : Fresh history) (k : String)
    (hfree : Set.InjOn Sha256.hexdigest {x | x = k ∨ ∃ op ∈ history, x ∈ op.keys}) :
    ∃ answer, (reg.verifyApiKeyHash k).runWith TenantCommand.apply .ok (reg.after w history) =
        (.ok answer, reg.after w history) ∧
      ∀ t, answer = some t ↔ Live history t k := by
  have hbo := books_after reg hw history hids hfresh fun a b ha hb heq => hfree (.inr ha) (.inr hb) heq
  obtain ⟨fs, hfs, hke⟩ := hbo.keys
  refine ⟨fs.lookup (Sha256.hexdigest k), ?_, fun t => ?_⟩
  · rw [verifyApiKeyHash, runWith_base, Control.runWith_hget, Keyspace.hget, hfs.hgetall]
    rfl
  · rw [hke]
    constructor
    · rintro ⟨k', heq, hl⟩
      have hs : k' = k := hfree (.inr hl.generated.mem_keys) (.inl rfl) heq
      exact hs ▸ hl
    · exact fun hl => ⟨k, rfl, hl⟩

open TenantRegistry in
/-- Two keys of a tenant, one of them revoked under another tenant. -/
theorem verified_iff_live_two_keys :
    let history : List TenantOp := [.register [("tenant_id", .str "acme")], .generateApiKey "acme" "x",
      .generateApiKey "acme" "y", .revokeApiKey "globex" "ramu_x"]
    ∃ answer, (verifyApiKeyHash {} "ramu_y").runWith TenantCommand.apply .ok (after {} .empty history) =
        (.ok answer, after {} .empty history) ∧
      ∀ t, answer = some t ↔ Live history t "ramu_y" := by
  intro history
  have hp : PlainId "acme" ∧ PlainId "globex" :=
    ⟨⟨by decide, by decide, by decide⟩, ⟨by decide, by decide, by decide⟩⟩
  have hi : ∀ op ∈ history, ∀ t, op.tenantId = some t → PlainId t := by
    intro op hop t ht
    simp only [history, List.mem_cons, List.not_mem_nil, or_false] at hop
    rcases hop with rfl | rfl | rfl | rfl <;> cases ht
    · exact hp.1
    · exact hp.1
    · exact hp.1
    · exact hp.2
  have hke : ∀ x, (x = "ramu_y" ∨ ∃ op ∈ history, x ∈ op.keys) → x ∈ ["ramu_x", "ramu_y"] := by
    intro x hx
    simp only [history, List.mem_cons, List.not_mem_nil, or_false, exists_eq_or_imp, exists_eq_left, TenantOp.keys] at hx
    rcases hx with rfl | hx | rfl | rfl | rfl
    · decide
    · exact absurd hx not_false
    · decide
    · decide
    · decide
  have hd : Sha256.hexdigest "ramu_x" ≠ Sha256.hexdigest "ramu_y" := by decide +kernel
  refine verified_iff_live {} .empty (fun _ _ => rfl) history hi (by unfold Fresh; decide) "ramu_y" ?_
  intro a ha b hb heq
  have ha' := hke a ha
  have hb' := hke b hb
  simp only [List.mem_cons, List.not_mem_nil, or_false] at ha' hb'
  rcases ha' with rfl | rfl <;> rcases hb' with rfl | rfl
  · rfl
  · exact absurd heq hd
  · exact absurd heq.symm hd
  · rfl

end AsyncScheduler
