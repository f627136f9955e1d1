import AsyncScheduler.Properties.Advance
import AsyncScheduler.Services.CallbackDispatcher
import AsyncScheduler.Services.Compensation
import AsyncScheduler.Platform.TaskReconciler

/-!
# Loops and errors

The four background loops under errors of single calls. A loop survives a kind of call if it starts
every tick, though such calls fail, one in a tick at most. For three of the loops the kinds are
determined: the cron scheduler survives failed creations alone (its keys and schedules in order, the
refused ones apart), the reconciler what is neither the election nor a read, the dispatcher requests.
The compensation service catches errors inside its loop.
-/

namespace AsyncScheduler
open List

inductive CronCall where
  | redis | taskCreation
  deriving DecidableEq

def ControlCommand.kind : ControlCommand → CronCall
  | .createTask _ _ => .taskCreation
  | _ => .redis

namespace CronScheduler

/-- If a task can be created for the schedule, then it has an accepted expression and an id. -/
def Advanceable (cs : CronScheduler) (d : Dict) : Prop :=
  cs.refused d.taskTemplate = none → cs.Valid d ∧ d.scheduleId.encoded.isSome = true

/-- Among these tenants and schedules every key has its type and every record can be advanced. -/
structure Sound (cs : CronScheduler) (T : Set String) (U : Set (String × String)) (w : ControlWorld) : Prop where
  leader : ∃ v, w.redis.get cronLeaderKey = some v
  tenants : ∃ ts, w.redis.smembers cs.schedules.base.tenantsKey = some ts ∧ ∀ t ∈ ts, t ∈ T
  index : ∀ t ∈ T, ∃ ss, w.redis.smembers (cs.schedules.base.indexKey t) = some ss ∧ ∀ s ∈ ss, (t, s) ∈ U
  records : ∀ p ∈ U, ∃ v, w.redis.get (cs.schedules.base.makeKey p.1 p.2) = some v ∧
    ∀ stored ∈ v, ∃ d, stored = .dict d ∧ cs.Advanceable d
  reverse : ∃ fs, w.redis.hgetall scheduleTenantIdx = some fs ∧ ∀ s t, fs.lookup s = some t → t ≠ "" → (t, s) ∈ U

theorem sound_empty (cs : CronScheduler) (T : Set String) (U : Set (String × String)) : cs.Sound T U .empty where
  leader := ⟨none, rfl⟩
  tenants := ⟨[], rfl, nofun⟩
  index _ _ := ⟨[], rfl, nofun⟩
  records _ _ := ⟨none, rfl, nofun⟩
  reverse := ⟨[], rfl, nofun⟩

section
variable {cs : CronScheduler} {T : Set String} {U : Set (String × String)} {May : ControlCommand → Prop}
  (hmay : ∀ c : ControlCommand, c.kind = .redis → ¬ May c)
include hmay

theorem returns_tryBecomeLeader (hpos : 0 < cs.leaderTtl) :
    Returns (Permits (cs.Sound T U) May) (fun _ => True) cs.tryBecomeLeader := by
  have hva : Keyspace.validEx (some (cs.leaderTtl : ℚ)) = true := by simpa [Keyspace.validEx] using hpos
  refine Returns.bind (Q := fun _ => True) (returns_awaiting (hmay _ rfl) fun w _ => ?_) fun ok _ => ?_
  · rw [if_pos hva]
    exact ⟨_, rfl, trivial⟩
  · split
    · exact .ret trivial
    · refine Returns.bind (Q := fun _ => True) (returns_awaiting (hmay _ rfl) fun w hw => ?_) fun current _ => ?_
      · obtain ⟨v, hv⟩ := hw.leader
        rw [hv]
        exact ⟨v, rfl, trivial⟩
      · split
        · refine Returns.bind (Q := fun _ => True) (returns_awaiting (hmay _ rfl) fun w _ => ⟨(), rfl, trivial⟩) fun _ _ => ?_
          exact .ret trivial
        · exact .ret trivial

theorem returns_listAllTenants :
    Returns (Permits (cs.Sound T U) May) (fun o => ∃ ts, o = some ts ∧ ∀ t ∈ ts, t ∈ T) cs.schedules.base.listAllTenants := by
  refine returns_suppressErrors (returns_awaiting (hmay _ rfl) fun w hw => ?_)
  obtain ⟨ts, hts, hT⟩ := hw.tenants
  rw [hts]
  exact ⟨ts, rfl, hT⟩

theorem returns_list {t : String} (ht : t ∈ T) :
    Returns (Permits (cs.Sound T U) May) (fun o => ∃ ss, o = some ss ∧ ∀ s ∈ ss, (t, s) ∈ U) (cs.schedules.base.list t) := by
  refine returns_suppressErrors (returns_awaiting (hmay _ rfl) fun w hw => ?_)
  obtain ⟨ss, hss, hU⟩ := hw.index t ht
  rw [hss]
  exact ⟨ss, rfl, hU⟩

theorem returns_scheduleKeys (ts : List String) (hts : ∀ t ∈ ts, t ∈ T) :
    Returns (Permits (cs.Sound T U) May) (fun keys => ∀ p ∈ keys, p ∈ U) (cs.schedules.scheduleKeys ts) := by
  induction ts with
  | nil => exact .ret nofun
  | cons t ts ih =>
    refine (returns_list hmay (hts t mem_cons_self)).bind ?_
    rintro _ ⟨ss, rfl, hU⟩
    refine (ih fun t' ht' => hts t' (mem_cons_of_mem _ ht')).bind fun rest hr => .ret ?_
    intro p hp
    rcases mem_append.mp hp with hp | hp
    · obtain ⟨s, hs, rfl⟩ := mem_map.mp hp
      exact hU s hs
    · exact hr p hp

omit hmay in
theorem mapM_records {w : ControlWorld} (hw : cs.Sound T U w) (keys : List (String × String)) (hk : ∀ p ∈ keys, p ∈ U) :
    ∃ raws, keys.mapM (fun key => w.redis.get (cs.schedules.base.makeKey key.1 key.2)) = some raws ∧
      ∀ raw ∈ raws, ∀ stored ∈ raw, ∃ d, stored = .dict d ∧ cs.Advanceable d := by
  induction keys with
  | nil => exact ⟨[], rfl, nofun⟩
  | cons key keys ih =>
    obtain ⟨v, hv, hg⟩ := hw.records key (hk key mem_cons_self)
    obtain ⟨raws, hr, ha⟩ := ih fun p hp => hk p (mem_cons_of_mem _ hp)
    refine ⟨v :: raws, ?_, forall_mem_cons.mpr ⟨hg, ha⟩⟩
    rw [mapM_cons, hv, hr]
    rfl

omit hmay in
theorem parseDue_records (asOf : ℚ) (raws : List (Option Stored))
    (h : ∀ raw ∈ raws, ∀ stored ∈ raw, ∃ d, stored = .dict d ∧ cs.Advanceable d) :
    ∃ due, ScheduleRegistry.parseDue asOf raws = .ok due ∧ ∀ d ∈ due, cs.Advanceable d := by
  induction raws with
  | nil => exact ⟨[], rfl, nofun⟩
  | cons raw raws ih =>
    obtain ⟨due, hdu, hg⟩ := ih fun raw' hr' => h raw' (mem_cons_of_mem _ hr')
    cases raw with
    | none => exact ⟨due, hdu, hg⟩
    | some stored =>
      obtain ⟨d, rfl, hd⟩ := h _ mem_cons_self stored rfl
      refine ⟨if d.due asOf then d :: due else due, ?_, ?_⟩
      · rw [ScheduleRegistry.parseDue, hdu]
        rfl
      · split
        · exact forall_mem_cons.mpr ⟨hd, hg⟩
        · exact hg

theorem returns_listDue (asOf : ℚ) :
    Returns (Permits (cs.Sound T U) May) (fun due => ∀ d ∈ due, cs.Advanceable d)
      (cs.schedules.listDue asOf) := by
  refine (returns_listAllTenants hmay).bind ?_
  rintro _ ⟨ts, rfl, hT⟩
  refine (returns_scheduleKeys hmay ts hT).bind fun keys hk => ?_
  split
  · exact .ret nofun
  · refine Returns.bind (Q := fun raws => ∀ raw ∈ raws, ∀ stored ∈ raw,
      ∃ d, stored = .dict d ∧ cs.Advanceable d)
      (returns_awaiting (hmay _ rfl) fun w hw => ?_) fun raws hr => ?_
    · obtain ⟨raws, hr, ha⟩ := mapM_records hw keys hk
      rw [hr]
      exact ⟨raws, rfl, ha⟩
    · obtain ⟨due, hd, hg⟩ := parseDue_records asOf raws hr
      rw [hd]
      exact .ret hg

theorem returns_advanceNextFire {t s : String} (hU : (t, s) ∈ U) (u : ℚ) :
    Returns (Permits (cs.Sound T U) May) (fun _ => True) (cs.schedules.advanceNextFire t s u) := by
  intro i w _
  refine returns_awaiting (hmay _ rfl) fun w hw => ?_
  obtain ⟨v, hv, hg⟩ := hw.records (t, s) hU
  rw [Control.rewriteReply, hv]
  cases v with
  | none => exact ⟨false, rfl, trivial⟩
  | some stored =>
    obtain ⟨d, rfl, -⟩ := hg stored rfl
    exact ⟨true, rfl, trivial⟩

theorem returns_scanTenants (s : String) (u : ℚ) (ts : List String) (hts : ∀ t ∈ ts, t ∈ T) :
    Returns (Permits (cs.Sound T U) May) (fun _ => True) (cs.schedules.scanTenants s u ts) := by
  induction ts with
  | nil => exact .ret trivial
  | cons t ts ih =>
    refine (returns_list hmay (hts t mem_cons_self)).bind ?_
    rintro _ ⟨ss, rfl, hU⟩
    dsimp only
    split
    · next hs =>
      refine (returns_advanceNextFire hmay (hU s hs) u).bind fun _ _ => returns_awaiting (hmay _ rfl) fun w hw => ?_
      obtain ⟨fs, hfs, -⟩ := hw.reverse
      rw [hfs]
      exact ⟨(), rfl, trivial⟩
    · exact ih fun t' ht' => hts t' (mem_cons_of_mem _ ht')

theorem returns_updateNextFire (s : String) (u : ℚ) :
    Returns (Permits (cs.Sound T U) May) (fun _ => True) (cs.schedules.updateNextFire s u) := by
  refine Returns.bind (Q := fun found => ∀ t, found = some t → t ≠ "" → (t, s) ∈ U)
    (returns_awaiting (hmay _ rfl) fun w hw => ?_) fun found hf => ?_
  · obtain ⟨fs, hfs, hU⟩ := hw.reverse
    rw [Keyspace.hget, hfs]
    exact ⟨_, rfl, hU s⟩
  · split
    · next ha =>
      have hs : ∃ t, found = some t ∧ t ≠ "" := by
        cases found with
        | none => cases ha
        | some t => exact ⟨t, rfl, by simpa using ha⟩
      obtain ⟨t, rfl, ht⟩ := hs
      exact (returns_advanceNextFire hmay (hf t rfl ht) u).bind fun _ _ => .ret trivial
    · refine (returns_listAllTenants hmay).bind ?_
      rintro _ ⟨ts, rfl, hT⟩
      exact returns_scanTenants hmay s u ts hT

theorem returns_advance {d : Dict} (hv : cs.Valid d) (hid : d.scheduleId.encoded.isSome = true) (now : ℚ) :
    Returns (Permits (cs.Sound T U) May) (fun _ => True) (cs.advance d now) := by
  obtain ⟨expr, he, hn⟩ := hv
  obtain ⟨f, hf⟩ := Option.isSome_iff_exists.mp hn
  obtain ⟨sid, hs⟩ := Option.isSome_iff_exists.mp hid
  rw [advance, he, Croniter.getNext, hf]
  dsimp only
  rw [hs]
  exact returns_updateNextFire hmay sid (f now)

theorem returns_fireOne {d : Dict} (hd : cs.Advanceable d) (now : ℚ) :
    Returns (Permits (cs.Sound T U) May) (fun _ => True) (cs.fireOne d now) := by
  cases hr : cs.refused d.taskTemplate with
  | some e =>
    -- the refusal is caught, and the expression is not looked at
    rw [fireOne, createTask, hr, exceptException]
    refine Returns.bind (Q := fun created => created = false) ?_ fun created hc => ?_
    · simp only [Prog.bind, Prog.handle, cs.isException_of_refused hr, if_true]
      exact .ret rfl
    · rw [hc]
      exact .ret trivial
  | none =>
    have hc : Outcomes (Permits (cs.Sound T U) May) Ordinary (cs.createTask d now) := by
      rw [createTask, hr]
      exact ordinary_awaiting fun _ _ => .ok ()
    refine Returns.bind (Q := fun _ => True) (returns_exceptException ?_ fun _ => .ret trivial) fun created _ => ?_
    · exact hc.bind (fun _ _ => ⟨.ok true, fun _ _ => trivial⟩) fun e he => ⟨.error (he e rfl), fun _ _ => trivial⟩
    · split
      · exact returns_advance hmay (hd hr).1 (hd hr).2 now
      · exact .ret trivial

theorem returns_round (hpos : 0 < cs.leaderTtl) :
    Returns (Permits (cs.Sound T U) May) (fun _ => True) cs.round := by
  refine (returns_tryBecomeLeader hmay hpos).bind fun leader _ => ?_
  split
  · intro i w _
    refine (returns_listDue hmay w.redis.clock).bind fun due hdu => ?_
    exact Returns.forEach fun d hd => returns_fireOne hmay (hdu d hd) _
  · exact .ret trivial

end

end CronScheduler

inductive CallKind where
  | leader | read | http | write
  deriving DecidableEq

def Command.kind : Command → CallKind
  | .read => .read
  | .post _ => .http
  | .keys ops => if ops.map Prod.fst = [reconcileLeaderKey] then .leader else .write
  | _ => .write

section
variable {α : Type} {I : World → Prop} {May : Command → Prop}
variable {c : Command} {reply : World → Except PyErr α} {Q : α → Prop} {body : Py α}

theorem returns_await (hc : ¬ May c)
    (hok : ∀ w, I w → ∃ a, reply w = .ok a ∧ Q a) : Returns (Permits I May) Q (await c reply) :=
  show Returns _ _ (awaiting c reply) from returns_awaiting hc hok

theorem ordinary_await (hok : ∀ w, I w → Ordinary (reply w)) : Outcomes (Permits I May) Ordinary (await c reply) :=
  show Outcomes _ _ (awaiting c reply) from ordinary_awaiting hok

theorem ordinary_query (f : World → α) : Outcomes (Permits I May) Ordinary (query f) := ordinary_await fun _ _ => .ok _

theorem ordinary_perform (c : Command) : Outcomes (Permits I May) Ordinary (perform c) := ordinary_await fun _ _ => .ok _

theorem ordinary_time : Outcomes (Permits I May) Ordinary time := fun _ _ _ => .ok _

theorem ordinary_session (hb : Outcomes (Permits I May) Ordinary body) :
    Outcomes (Permits I May) Ordinary (session body) := by
  have hco : Outcomes (Permits I May) Ordinary (body.bind fun a => (query fun _ => ()).bind fun _ => .ret a) :=
    ordinary_bind hb fun a => ordinary_bind (ordinary_query _) fun _ => .ok a
  have hg : Outcomes (Permits I May) Ordinary
      (exceptException (body.bind fun a => (query fun _ => ()).bind fun _ => .ret a)
        fun e => (query fun _ => ()).bind fun _ => .raise e) :=
    ordinary_exceptException hco fun e he => ordinary_bind (ordinary_query _) fun _ => .error he
  refine hg.ensure fun r hr => (ordinary_query _).mono fun closed hc => ?_
  cases closed with
  | ok _ => exact hr
  | error e => exact .error (hc e rfl)

theorem returns_session (hr : ¬ May .read) (hb : Returns (Permits I May) Q body) :
    Returns (Permits I May) Q (session body) := by
  have hq : Returns (Permits I May) (fun _ => True) (query fun _ => ()) :=
    returns_await hr fun _ _ => ⟨(), rfl, trivial⟩
  have hc : Returns (Permits I May) Q (body.bind fun a => (query fun _ => ()).bind fun _ => .ret a) :=
    hb.bind fun a ha => hq.bind fun _ _ => .ret ha
  refine Outcomes.ensure (hc.handle _) ?_
  rintro r ⟨a, rfl, ha⟩
  refine Outcomes.mono hq ?_
  rintro closed ⟨_, rfl, -⟩
  exact ⟨a, rfl, ha⟩

namespace CallbackDispatchService
variable (sv : CallbackDispatchService)

theorem commit_updates (now : ℚ) (db : Mysql) (writes : List DbWrite) (h : OnlyUpdates writes) :
    ∃ db', db.commit now writes = .ok db' := by
  induction writes generalizing db with
  | nil => exact ⟨db, rfl⟩
  | cons write writes ih =>
    obtain ⟨id, u, rfl⟩ := h _ mem_cons_self
    exact ih _ fun write' hw' => h write' (mem_cons_of_mem _ hw')

theorem returns_deliver (now : ℚ) (row : CallbackOutboxRecord) :
    Returns (Permits I May) (fun write => ∃ id u, write = .updateOutbox id u) (sv.deliver now row) := by
  refine returns_exceptException ?_ fun e => .ret ⟨row.id, _, rfl⟩
  refine (ordinary_perform (.post ⟨row.callbackUrl, row.payload, row.taskId, none⟩)).bind (fun _ _ => ?_) fun e he => ?_
  · refine ⟨.ok _, fun write hw => ?_⟩
    cases hw
    exact ⟨row.id, _, rfl⟩
  · refine ⟨.error (he e rfl), fun write hw => ?_⟩
    cases hw

theorem returns_deliverAll (now : ℚ) (rows : List CallbackOutboxRecord) :
    Returns (Permits I May) OnlyUpdates (sv.deliverAll now rows) := by
  induction rows with
  | nil => exact .ret fun write hw => absurd hw not_mem_nil
  | cons row rows ih =>
    refine (sv.returns_deliver now row).bind fun write hw => ih.bind fun writes hwr => .ret ?_
    exact forall_mem_cons.mpr ⟨hw, hwr⟩

theorem returns_processOnce (hr : ¬ May .read) (hw : ∀ writes, ¬ May (.commit writes)) (order : List Nat) :
    Returns (Permits I May) (fun _ => True) (sv.processOnce order) := by
  unfold processOnce
  split
  · intro i w _
    refine returns_session hr ?_
    refine Returns.bind (Q := fun _ => True) (returns_await hr fun _ _ => ⟨_, rfl, trivial⟩) fun rows _ => ?_
    refine (sv.returns_deliverAll _ rows).bind fun writes hwr => ?_
    refine Returns.bind (Q := fun _ => True) (returns_await (hw writes) fun w _ => ?_) fun _ _ => .ret trivial
    obtain ⟨db, hdb⟩ := commit_updates w.redis.clock w.db writes hwr
    rw [hdb]
    exact ⟨(), rfl, trivial⟩
  · exact .ret trivial

end CallbackDispatchService

namespace TaskReconciler
variable (rc : TaskReconciler)

theorem returns_rebuildRedisFromMysql : Returns (Permits I May) (fun _ => True) rc.rebuildRedisFromMysql := by
  have hc (row : TaskRecord) : Outcomes (Permits I May) Ordinary (rebuildCache row) := by
    refine ordinary_bind (ordinary_query _) fun existing => ?_
    split
    · exact .ok ()
    · exact ordinary_perform _
  have hi (row : TaskRecord) : Outcomes (Permits I May) Ordinary (rebuildIndex row) := by
    unfold rebuildIndex
    split
    · refine ordinary_bind (ordinary_query _) fun inPending => ordinary_bind (ordinary_query _) fun inRunning => ?_
      split
      · exact fun i w _ => ordinary_perform _
      · exact .ok ()
    · exact .ok ()
  unfold rebuildRedisFromMysql
  split
  · refine returns_exceptException ((ordinary_session ?_).mono fun r hr => ⟨hr, fun _ _ => trivial⟩) fun _ => .ret trivial
    refine ordinary_bind (ordinary_query _) fun rows => Outcomes.forEach (.ok ()) fun row _ => ?_
    unfold rebuildRow
    split
    · exact .ok ()
    · exact ordinary_bind (hc row) fun _ => hi row
  · exact .ret trivial

theorem returns_scanTaskBatch (hre : ¬ May .read) (scanned : List String) :
    Returns (Permits I May) (fun _ => True) (scanTaskBatch scanned) := by
  refine Returns.bind (Q := fun _ => True) (returns_exceptException ?_ fun _ => .ret trivial) fun keys _ => ?_
  · exact (ordinary_query _).mono fun r hr => ⟨hr, fun _ _ => trivial⟩
  · split
    · exact .ret trivial
    · exact returns_await hre fun _ _ => ⟨_, rfl, trivial⟩

theorem returns_tick (hr : ¬ May .read) (hl : ∀ c : Command, c.kind = .leader → ¬ May c) (scanned : List String)
    (schedule : List Nat) : Returns (Permits I May) (fun _ => True) (rc.tick scanned schedule) := by
  have hel : Returns (Permits I May) (fun _ => True) rc.tryBecomeLeader := by
    refine Returns.bind (Q := fun _ => True) (returns_await (hl _ rfl) fun _ _ => ⟨_, rfl, trivial⟩) fun ok _ => ?_
    split
    · exact .ret trivial
    · exact returns_await (hl _ rfl) fun _ _ => ⟨_, rfl, trivial⟩
  refine hel.bind fun leader _ => ?_
  split
  · refine rc.returns_rebuildRedisFromMysql.bind fun _ _ => (returns_scanTaskBatch hr scanned).bind fun batch _ => ?_
    split
    · exact .ret trivial
    · have hs : ∀ t, Permits I May t → Fault.interrupt t.input = none := by
        rintro ⟨c, i, w⟩ ⟨-, hi⟩
        cases i with
        | ok => rfl
        | fail applied => rfl
        | cancel applied => exact hi.elim
      refine Outcomes.bind (Outcomes.gather hs schedule _) (fun _ _ => ⟨(), rfl, trivial⟩) ?_
      rintro e ⟨rs, he⟩
      cases he
  · exact .ret trivial

end TaskReconciler

namespace CompensationService
variable (sv : CompensationService)
variable {α : Type}

/-- `Ordinary` for errors that carry a transaction. -/
def TxOrdinary {α : Type} (r : Except (PyErr × TxRecord) α) : Prop := ∀ e, r = .error e → e.1.isException = true

theorem TxOrdinary.error {e : PyErr × TxRecord} (he : e.1.isException = true) :
    TxOrdinary (.error e : Except (PyErr × TxRecord) α) := by
  intro e' he'
  cases he'
  exact he

theorem txOrdinary_holding (tx : TxRecord) {p : Py α} (hp : Outcomes (Permits I May) Ordinary p) :
    Outcomes (Permits I May) TxOrdinary (holding tx p) := by
  refine hp.recover (fun a _ => ?_) fun e he => TxOrdinary.error (he e rfl)
  intro e he
  cases he

theorem txOrdinary_bind {β : Type} {p : TxPy α} {f : α → TxPy β} (hp : Outcomes (Permits I May) TxOrdinary p)
    (hf : ∀ a, Outcomes (Permits I May) TxOrdinary (f a)) : Outcomes (Permits I May) TxOrdinary (p.bind f) :=
  hp.bind (fun a _ => hf a) fun e he => .error (he e rfl)

theorem txOrdinary_ret (a : α) : Outcomes (Permits I May) TxOrdinary (.ret a : TxPy α) := by
  intro e he
  cases he

theorem txOrdinary_txSession {body : TxPy TxRecord} (hb : Outcomes (Permits I May) TxOrdinary body) :
    Outcomes (Permits I May) TxOrdinary (txSession body) := by
  have hq (tx : TxRecord) : Outcomes (Permits I May) TxOrdinary (holding tx (query fun _ => ())) :=
    txOrdinary_holding tx (ordinary_query _)
  have hco : Outcomes (Permits I May) TxOrdinary
      (body.bind fun tx => (holding tx (query fun _ => ())).bind fun _ => .ret tx) :=
    txOrdinary_bind hb fun tx => txOrdinary_bind (hq tx) fun _ => txOrdinary_ret tx
  refine Outcomes.ensure (Outcomes.handle hco (fun a ha => ha) fun raised hra => ?_) fun r hr => ?_
  · rw [if_pos (hra raised rfl)]
    exact txOrdinary_bind (hq _) fun _ => .error (hra raised rfl)
  · cases r with
    | ok tx =>
      refine (hq tx).mono fun closed hc => ?_
      cases closed with
      | ok _ => exact hr
      | error e => exact .error (hc e rfl)
    | error raised =>
      refine (hq raised.2).mono fun closed hc => ?_
      cases closed with
      | ok _ => exact hr
      | error e => exact .error (hc e rfl)

theorem ordinary_saveTransaction (tx : TxRecord) : Outcomes (Permits I May) Ordinary (sv.saveTransaction tx) := by
  unfold saveTransaction
  split
  · split <;> exact ordinary_perform _
  · exact .ok ()

theorem txOrdinary_markExpired (tx : TxRecord) : Outcomes (Permits I May) TxOrdinary (sv.markExpired tx) :=
  txOrdinary_bind (txOrdinary_holding _ (sv.ordinary_saveTransaction _)) fun _ => txOrdinary_ret _

theorem txOrdinary_markCommitted (tx : TxRecord) : Outcomes (Permits I May) TxOrdinary (sv.markCommitted tx) :=
  txOrdinary_bind (txOrdinary_holding _ (sv.ordinary_saveTransaction _)) fun _ => txOrdinary_ret _

theorem txOrdinary_retryOperation (tx : TxRecord) : Outcomes (Permits I May) TxOrdinary (sv.retryOperation tx) := by
  unfold retryOperation
  split
  · refine txOrdinary_txSession (txOrdinary_bind (txOrdinary_holding tx (ordinary_query _)) fun task => ?_)
    cases task with
    | none => exact sv.txOrdinary_markExpired tx
    | some task => exact txOrdinary_bind (txOrdinary_holding tx (ordinary_perform _)) fun _ => sv.txOrdinary_markCommitted tx
  · split
    · refine txOrdinary_txSession (txOrdinary_bind (txOrdinary_holding tx (ordinary_query _)) fun task => ?_)
      cases task with
      | none => exact sv.txOrdinary_markExpired tx
      | some task =>
        refine txOrdinary_bind (txOrdinary_holding tx (ordinary_query _)) fun data => ?_
        dsimp only
        split
        · split
          · exact txOrdinary_bind (txOrdinary_holding tx (ordinary_perform _)) fun _ => sv.txOrdinary_markCommitted tx
          · next he => exact .error (withStatus_error he).1
        · exact sv.txOrdinary_markCommitted tx
    · exact sv.txOrdinary_markExpired tx

theorem ordinary_repairTransaction (tx : TxRecord) : Outcomes (Permits I May) Ordinary (sv.repairTransaction tx) := by
  unfold repairTransaction
  split
  · refine (txOrdinary_bind (sv.txOrdinary_markExpired tx) fun _ => txOrdinary_ret ()).recover (fun _ _ => .ok ()) fun raised hr => ?_
    exact .error (hr raised rfl)
  · refine (txOrdinary_bind (sv.txOrdinary_retryOperation tx) fun _ => txOrdinary_ret ()).recover (fun _ _ => .ok ()) fun raised hr => ?_
    rw [if_pos (hr raised rfl)]
    exact sv.ordinary_saveTransaction _

theorem ordinary_readTransactions (ids : List String) : Outcomes (Permits I May) Ordinary (readTransactions ids) := by
  induction ids with
  | nil => exact .ok []
  | cons id ids ih =>
    refine ordinary_bind (ordinary_exceptException (ordinary_query _) fun _ _ => .ok none) fun tx => ?_
    exact ordinary_bind ih fun txs => .ok _

theorem ordinary_scanAndRepair (scanned order : List String) :
    Outcomes (Permits I May) Ordinary (sv.scanAndRepair scanned order) := by
  have hs : Outcomes (Permits I May) Ordinary (sv.scanPendingTransactions scanned) := by
    unfold scanPendingTransactions
    split
    · refine ordinary_exceptException (ordinary_bind (ordinary_query _) fun ids => ?_) fun _ _ => .ok []
      exact ordinary_bind (ordinary_readTransactions ids) fun txs => .ok _
    · exact .ok []
  have hm : Outcomes (Permits I May) Ordinary (repairMissing sv.batchSize order) := by
    refine ordinary_bind (ordinary_session ?_) fun missing => Outcomes.forEach (.ok ()) fun row _ => ?_
    · refine ordinary_bind ordinary_time fun now => ordinary_bind (ordinary_query _) fun tasks => ?_
      split
      · exact .ok []
      · exact ordinary_query _
    · exact ordinary_exceptException (ordinary_perform _) fun _ _ => .ok ()
  refine ordinary_bind hs fun txs => ordinary_bind ?_ fun _ => hm
  exact Outcomes.forEach (.ok ()) fun tx _ => sv.ordinary_repairTransaction tx

theorem follows_runLoop (ticks : List (List String × List String)) (k : Nat) :
    Follows (LoopPermits I May) countTests (fun l r => l = k + ticks.length ∧ r = .ok ()) (sv.runLoop ticks) k := by
  induction ticks generalizing k with
  | nil => exact ⟨rfl, rfl⟩
  | cons tick ticks ih =>
    intro i w _
    refine ⟨k + 1, rfl, ?_⟩
    refine Follows.bind (Q := fun l r => l = k + 1 ∧ r = .ok true) (Follows.handle
      (Q := fun l r => l = k + 1 ∧ Ordinary r ∧ ∀ b, r = .ok b → b = true) ?_ ?_ ?_) ?_ ?_
    · refine (follows_calls (sv.ordinary_scanAndRepair tick.1 tick.2) (k + 1)).bind ?_ ?_
      · rintro l _ ⟨rfl, -⟩
        refine (follows_pause (k + 1)).bind ?_ ?_
        · rintro l _ ⟨rfl, -⟩
          refine ⟨rfl, .ok true, fun b hb => ?_⟩
          cases hb
          rfl
        · rintro l e ⟨-, he⟩
          cases he
      · rintro l e ⟨rfl, he⟩
        refine ⟨rfl, .error (he e rfl), fun b hb => ?_⟩
        cases hb
    · rintro l b ⟨rfl, -, hb⟩
      rw [hb b rfl]
      exact ⟨rfl, rfl⟩
    · rintro l e ⟨rfl, he, -⟩
      rw [if_pos (he e rfl)]
      refine (follows_pause (k + 1)).bind ?_ ?_
      · rintro l _ ⟨rfl, -⟩
        exact ⟨rfl, rfl⟩
      · rintro l e ⟨-, he⟩
        cases he
    · rintro l b ⟨rfl, hb⟩
      cases hb
      refine (ih (k + 1)).mono ?_
      rintro l r ⟨rfl, hr⟩
      exact ⟨by rw [length_cons]; omega, hr⟩
    · rintro l e ⟨-, he⟩
      cases he

/-- The compensation service survives every ordinary error. -/
theorem survives_runLoop : Survives I May sv.runLoop := by
  refine .of_follows fun ticks => (sv.follows_runLoop ticks 0).mono ?_
  rintro l r ⟨rfl, hr⟩
  exact ⟨Nat.zero_add _, hr⟩

end CompensationService

end

/-- The cron scheduler survives failed creations only. -/
theorem CronScheduler.survives_iff (cs : CronScheduler) (T : Set String) (U : Set (String × String)) (F : Set CronCall)
    (hpos : 0 < cs.leaderTtl) :
    Survives (cs.Sound T U) (fun c => c.kind ∈ F) cs.runLoop ↔ .redis ∉ F := by
  constructor
  · intro hs hF
    have hra : Path ControlCommand.apply cs.round .empty
        [⟨.set cronLeaderKey (.text cs.instanceId) true (some cs.leaderTtl), .fail false, .empty⟩] (.raise connectionLost)
        .empty := ((path_awaiting_fail ControlCommand.apply _ _ _).bind_left _).bind_left _
    refine not_survives (fun _ : Unit => cs.round) (b := ()) hra ?_ ?_ (cs.sound_empty T U) ?_ hs
    · obtain ⟨q, hq, hp⟩ := finished_suppressed ControlCommand.apply .empty .empty connectionLost
      exact ⟨q, hq, fun body h => hp _ _ h⟩
    · intro t ht
      rw [mem_singleton.mp ht]
      exact ⟨cs.sound_empty T U, hF⟩
    · simp
  · intro hF
    have hmay (c : ControlCommand) (hc : c.kind = .redis) : ¬ c.kind ∈ F := hc ▸ hF
    refine .of_follows fun ticks => follows_suppressed ((follows_whileRunning _ ?_ 0).mono ?_)
    · intro tick hti
      obtain ⟨_, -, rfl⟩ := mem_map.mp hti
      refine Outcomes.mono (returns_round hmay hpos) ?_
      rintro r ⟨_, rfl, -⟩
      rfl
    · rintro l r ⟨rfl, hr⟩
      exact ⟨by rw [length_map, Nat.zero_add], hr⟩

def told (steps : List (Transition Command Fault World)) : List (Fault × CallKind) := steps.map fun t => (t.input, t.cmd.kind)

section
variable {F : Set CallKind} {steps : List (Transition Command Fault World)} {shape : List (Fault × CallKind)}

theorem permits_of_told (h : told steps = shape) (hF : ∀ e ∈ shape, e.1 = .ok ∨ e.1 = .fail false ∧ e.2 ∈ F) :
    ∀ t ∈ steps, Permits (fun _ => True) (fun c : Command => c.kind ∈ F) t := by
  rintro ⟨c, i, w⟩ ht
  refine ⟨trivial, ?_⟩
  rcases hF (i, c.kind) (h ▸ mem_map_of_mem ht) with hok | ⟨hf, hc⟩
  · change i = .ok at hok
    subst hok
    trivial
  · change i = .fail false at hf
    subst hf
    exact hc

theorem countP_of_told (h : told steps = shape) : steps.countP (·.input ≠ .ok) = shape.countP (·.1 ≠ .ok) := by
  rw [← h, told, countP_map]
  rfl

end

/-- The reconciler survives all but failures of the election and of reads. -/
theorem TaskReconciler.survives_iff (rc : TaskReconciler) (F : Set CallKind) :
    Survives (fun _ => True) (fun c => c.kind ∈ F) rc.loop ↔ .leader ∉ F ∧ .read ∉ F := by
  have he (is : List Fault) (shape : List (Fault × CallKind))
      (hra : ((rc.tick ["x"] []).runOn Command.apply .ok is .empty).outcome = .error connectionLost)
      (hsh : told ((rc.tick ["x"] []).runOn Command.apply .ok is .empty).steps = shape)
      (hF : ∀ e ∈ shape, e.1 = .ok ∨ e.1 = .fail false ∧ e.2 ∈ F) (ho : shape.countP (·.1 ≠ .ok) ≤ 1) :
      ¬ Survives (fun _ => True) (fun c => c.kind ∈ F) rc.loop := by
    refine not_survives (fun t : List String × List Nat => rc.tick t.1 t.2) (b := (["x"], [])) (Path.of_runOn hra) ?_
      (permits_of_told hsh hF) trivial (countP_of_told hsh ▸ ho)
    obtain ⟨q, hq, hp⟩ := finished_suppressed Command.apply World.empty _ connectionLost
    exact ⟨q, hq, fun body h => hp _ _ h⟩
  constructor
  · intro hs
    obtain ⟨hasDb, qm, perTick, maxAge, instanceId, ttl, compensation⟩ := rc
    refine ⟨fun hF => he [.fail false] [(.fail false, .leader)] rfl rfl (by simpa using hF) le_rfl hs, fun hF => ?_⟩
    cases hasDb with
    | true =>
      exact he [.ok, .ok, .ok, .ok, .ok, .fail false] [(.ok, .leader), (.ok, .read), (.ok, .read), (.ok, .read), (.ok, .read),
        (.fail false, .read)] rfl rfl (by simp [hF]) le_rfl hs
    | false =>
      exact he [.ok, .ok, .fail false] [(.ok, .leader), (.ok, .read), (.fail false, .read)] rfl rfl (by simp [hF]) le_rfl
        hs
  · rintro ⟨hl, hre⟩
    refine .of_follows fun ticks => follows_suppressed ((follows_whileRunning _ ?_ 0).mono ?_)
    · intro tick ht
      obtain ⟨t, -, rfl⟩ := mem_map.mp ht
      refine Outcomes.mono (rc.returns_tick hre (fun c hc => hc ▸ hl) t.1 t.2) ?_
      rintro r ⟨_, rfl, -⟩
      rfl
    · rintro l r ⟨rfl, hr⟩
      exact ⟨by rw [length_map, Nat.zero_add], hr⟩

/-- A dispatcher with work survives failed requests only. -/
theorem CallbackDispatchService.survives_iff (sv : CallbackDispatchService) (F : Set CallKind) :
    Survives (fun _ => True) (fun c => c.kind ∈ F) sv.loop ↔
      (sv.hasDb && sv.started) = false ∨ .read ∉ F ∧ .write ∉ F := by
  have he (is : List Fault) (shape : List (Fault × CallKind))
      (hra : ((sv.processOnce []).void.runOn Command.apply .ok is .empty).outcome = .error connectionLost)
      (hs : told ((sv.processOnce []).void.runOn Command.apply .ok is .empty).steps = shape)
      (hF : ∀ e ∈ shape, e.1 = .ok ∨ e.1 = .fail false ∧ e.2 ∈ F) (ho : shape.countP (·.1 ≠ .ok) ≤ 1) :
      ¬ Survives (fun _ => True) (fun c => c.kind ∈ F) sv.loop :=
    not_survives (fun order : List Nat => (sv.processOnce order).void) (b := []) (Path.of_runOn hra)
      ⟨.raise connectionLost, rfl, fun _ h => h⟩ (permits_of_told hs hF) trivial (countP_of_told hs ▸ ho)
  constructor
  · intro hsu
    refine or_iff_not_imp_left.mpr fun ha => ?_
    obtain ⟨hdb, hst⟩ := Bool.and_eq_true_iff.mp (eq_true_of_ne_false ha)
    obtain ⟨hasDb, isStarted, maxAttempts⟩ := sv
    cases hdb
    cases hst
    refine ⟨fun hF => ?_, fun hF => ?_⟩
    · exact he [.ok, .fail false] [(.ok, .read), (.fail false, .read), (.ok, .read), (.ok, .read)] rfl rfl (by simp [hF])
        le_rfl hsu
    · exact he [.ok, .ok, .fail false] [(.ok, .read), (.ok, .read), (.fail false, .write), (.ok, .read), (.ok, .read)] rfl
        rfl (by simp [hF]) le_rfl hsu
  · intro hsa
    refine .of_follows fun ticks => (follows_whileRunning _ ?_ 0).mono ?_
    · intro tick ht
      obtain ⟨order, -, rfl⟩ := mem_map.mp ht
      have hp : Returns (Permits (fun _ => True) fun c : Command => c.kind ∈ F) (fun _ => True) (sv.processOnce order) := by
        rcases hsa with hi | ⟨hre, hw⟩
        · rw [processOnce, hi]
          exact .ret trivial
        · exact sv.returns_processOnce hre (fun writes => hw) order
      refine Outcomes.mono (hp.bind (R := fun _ => True) fun _ _ => Returns.ret trivial) ?_
      rintro r ⟨_, rfl, -⟩
      rfl
    · rintro l r ⟨rfl, hr⟩
      exact ⟨by rw [length_map, Nat.zero_add], hr⟩

/-- Which calls of a tick may raise without ending the loop: for the cron scheduler the creation of a task alone, as long
as its keys and schedules are in order; for the reconciler everything but the election and reads; for the dispatcher the
HTTP requests. The compensation service survives every error. -/
theorem loops_survive_iff (cs : CronScheduler) (rc : TaskReconciler) (sv : CallbackDispatchService) (cp : CompensationService)
    (T : Set String) (U : Set (String × String)) (F : Set CronCall) (G : Set CallKind)
    (hpos : 0 < cs.leaderTtl) :
    (Survives (cs.Sound T U) (fun c => c.kind ∈ F) cs.runLoop ↔ .redis ∉ F) ∧
    (Survives (fun _ => True) (fun c => c.kind ∈ G) rc.loop ↔ .leader ∉ G ∧ .read ∉ G) ∧
    (Survives (fun _ => True) (fun c => c.kind ∈ G) sv.loop ↔ (sv.hasDb && sv.started) = false ∨ .read ∉ G ∧ .write ∉ G) ∧
    Survives (fun _ => True) (fun _ => True) cp.runLoop :=
  ⟨cs.survives_iff T U F hpos, rc.survives_iff G, sv.survives_iff G, cp.survives_runLoop⟩

/-- Failed creations and failed requests are survived. -/
theorem loops_survive_guarded :
    let cs := CronScheduler.named "a"
    (0 : Int) < cs.leaderTtl ∧ Survives (cs.Sound {"acme"} {("acme", "nightly")}) (fun c => c.kind = .taskCreation) cs.runLoop ∧
      Survives (fun _ => True) (fun c => c.kind = .http) ({} : CallbackDispatchService).loop := by
  intro cs
  have hl := loops_survive_iff cs .plain {} {} {"acme"} {("acme", "nightly")} {.taskCreation} {.http} (by decide)
  exact ⟨by decide, hl.1.mpr (by simp), hl.2.2.1.mpr (.inr (by simp))⟩

/-- One schedule that `croniter` does not accept ends the cron loop in its first tick, though no call fails. A failed `SET`
ends that of the reconciler and a failed `SELECT` that of the dispatcher; the compensation service goes on. -/
theorem loops_end_with_first_error :
    let cs := CronScheduler.named "a"
    let record : Dict := [("schedule_id", .str "nightly"), ("cron_expr", .str "every minute"),
      ("task_template", gpuTemplate), ("next_fire_at", .time 0)]
    let w := ((cs.schedules.set "acme" "nightly" (.dict record)).runWith ControlCommand.apply .ok .empty).2
    let cron := (cs.runLoop [(), (), ()]).runOn (LoopCommand.apply ControlCommand.apply) .ok [] w
    let reconciler := (TaskReconciler.plain.loop [([], []), ([], []), ([], [])]).runOn (LoopCommand.apply Command.apply) .ok
      [.ok, .fail false] .empty
    let dispatcher := (({} : CallbackDispatchService).loop [[], [], []]).runOn (LoopCommand.apply Command.apply) .ok
      [.ok, .ok, .fail false] .empty
    let compensation := (({} : CompensationService).runLoop [([], []), ([], []), ([], [])]).runOn (LoopCommand.apply Command.apply) .ok
      [.ok, .ok, .ok, .fail false] .empty
    (started cron.steps, cron.outcome.toOption) = (1, none) ∧ cron.state.tasks.length = 1 ∧
      (started reconciler.steps, reconciler.outcome.toOption) = (1, some ()) ∧
      (started dispatcher.steps, dispatcher.outcome.toOption) = (1, none) ∧
      (started compensation.steps, compensation.outcome.toOption) = (3, some ()) := by
  decide +kernel

end AsyncScheduler
