import AsyncScheduler.Common.ErrorHandling
import Mathlib.Data.List.Sort
import Mathlib.Data.Rat.Defs

/-!
# Actor pool

The workers of one capability: their choice, their number, and their replacement after a fault.
-/

namespace AsyncScheduler

/-- An actor is known by the name it is registered under, a reference in flight by a number. -/
structure WorkerHandle where
  name : String
  actor : String
  inflight : List Nat
  faultTimes : List ℚ

namespace WorkerHandle

def pending (w : WorkerHandle) : Nat := w.inflight.length

def isTripped (w : WorkerHandle) (now : ℚ) : Bool := 3 ≤ (w.faultTimes.filter fun t => now - t < 300).length

def recordFault (w : WorkerHandle) (now : ℚ) : WorkerHandle :=
  { w with faultTimes := (w.faultTimes ++ [now]).filter fun t => now - 300 < t }

/-- The fault branch of `_call_worker` up to its first suspension, with the two instants it reads;
the answer is whether a replacement is attempted. -/
def onFault (w : WorkerHandle) (checked recorded : ℚ) : WorkerHandle × Bool :=
  if w.isTripped checked then (w, false) else (w.recordFault recorded, true)

def refreshInflight (ready : Nat → Bool) (w : WorkerHandle) : WorkerHandle :=
  { w with inflight := w.inflight.filter fun ref => !ready ref }

end WorkerHandle

/-- What the pool finds outside: Ray's named actors, if there is Ray, and the factory, if one was given. -/
structure Backend where
  getActor : Option (String → Option String)
  factory : Option (String → Nat → Option String)

def Backend.tryRecoverOrCreate (b : Backend) (name : String) (idx : Nat) : Option String :=
  (b.getActor.bind (· name)).or (b.factory.bind (· name idx))

/-- `capabilityRepr` is Python's `repr` of the capability, for the one message that shows it. -/
structure ActorPool where
  capability : String
  capabilityRepr : String
  clusterId : String := "default"
  tenantId : String := ""
  targetSize : Int := 1
  maxSize : Int := 8
  workers : List WorkerHandle := []
  nextIndex : Nat := 0

namespace ActorPool

def workerName (p : ActorPool) (idx : Nat) : String :=
  "worker_" ++ (if p.tenantId = "" then "default" else p.tenantId) ++ "_" ++ p.clusterId ++ "_" ++ p.capability ++ "_" ++
    toString idx

def addWorker (b : Backend) (p : ActorPool) (idx : Nat) : ActorPool :=
  match b.tryRecoverOrCreate (p.workerName idx) idx with
  | some actor => { p with workers := p.workers ++ [⟨p.workerName idx, actor, [], []⟩] }
  | none => p

def start (b : Backend) (p : ActorPool) : ActorPool := (List.range p.targetSize.toNat).foldl (addWorker b) p

/-- The handle is at this position of the pool; one that is not in the pool is not replaced. -/
def replaceWorker (b : Backend) (p : ActorPool) (idx : Nat) : ActorPool :=
  match b.tryRecoverOrCreate (p.workerName idx) idx with
  | some actor => { p with workers := p.workers.modify idx fun w => { w with actor, inflight := [] } }
  | none => p

def clamp (p : ActorPool) (size : Int) : Int := max 0 (min size p.maxSize)

def byPending (p : ActorPool) : List WorkerHandle := p.workers.insertionSort fun v w => v.pending ≤ w.pending

def removed (p : ActorPool) (size : Int) : List WorkerHandle := p.byPending.drop (p.clamp size).toNat

def resize (b : Backend) (p : ActorPool) (size : Int) : ActorPool :=
  let target := (p.clamp size).toNat
  let current := p.workers.length
  if current < target then (List.range' current (target - current)).foldl (addWorker b) p
  else if target < current then
    let kept := p.byPending.take target
    { p with workers := kept, nextIndex := p.nextIndex % max 1 kept.length }
  else p

/-- The loop of `_select_worker`; `none` is its fallback line. -/
def selectIndex (counts : List Nat) (next : Nat) : Option Nat :=
  ((List.range counts.length).map fun offset => (next + offset) % counts.length).find? fun idx =>
    counts[idx]? = counts.min?

def counts (p : ActorPool) : List Nat := p.workers.map WorkerHandle.pending

def refresh (ready : Nat → Bool) (p : ActorPool) : ActorPool :=
  { p with workers := p.workers.map (WorkerHandle.refreshInflight ready) }

/-- The answer is the position of the handle. -/
def selectWorker (ready : Nat → Bool) (p : ActorPool) : Except PyErr Nat × ActorPool :=
  let q := p.refresh ready
  if q.workers = [] then
    (.error (.runtimeError ("ActorPoolManager: no workers available for capability=" ++ p.capabilityRepr)), p)
  else
    match selectIndex q.counts q.nextIndex with
    | some idx => (.ok idx, { q with nextIndex := (idx + 1) % q.workers.length })
    | none => (.ok (q.nextIndex % q.workers.length), q)

/-- What happens to a pool after its start; calls that begin and end change what is in flight. -/
inductive Op where
  | resize (b : Backend) (size : Int)
  | select (ready : Nat → Bool)
  | replace (b : Backend) (idx : Nat)
  | load (idx : Nat) (refs : List Nat)

def step (p : ActorPool) : Op → ActorPool
  | .resize b size => p.resize b size
  | .select ready => (p.selectWorker ready).2
  | .replace b idx => p.replaceWorker b idx
  | .load idx refs => { p with workers := p.workers.modify idx fun w => { w with inflight := refs } }

def run (p : ActorPool) (ops : List Op) : ActorPool := ops.foldl step p

end ActorPool

end AsyncScheduler
