import AsyncScheduler.Platform.DagCondition
import AsyncScheduler.Shared.Pool

/-!
# The parts of a DAG step

What `DagEngine._run_step` computes between two points where it waits: its condition, its input, the
call it makes, what a failure is turned into, and what is recorded.
-/

namespace AsyncScheduler

/-- A Redis client that offers `async_blpop`, or one whose methods do not return awaitables. -/
inductive RedisClient where
  | asyncBlpop | sync
  deriving DecidableEq, Repr

/-- What a `DagEngine` is built with, and the parsers of Python and of `orjson`. -/
structure DagSetup where
  maxParallelism : Int := 8
  hasStore : Bool := false
  redis : Option RedisClient := none
  parse : String → Option Expr := fun _ => none
  loads : String → Option JsonValue := fun _ => none

/-- A call of the dispatch function, or a request to a Flask endpoint. -/
inductive Call where
  | dispatch (capability stepName : String) (payload : JsonObj)
  | flask (url : String) (payload : JsonObj)
  deriving DecidableEq, Repr

def Call.payload : Call → JsonObj
  | .dispatch _ _ payload => payload
  | .flask _ payload => payload

inductive DagEvent where
  | called (runner : String) (call : Call)
  -- A MAP step has read its items
  | mapped (runner : String) (items : List JsonValue)
  -- An answer, with the index of the item it is for
  | replied (runner : String) (index : Option Nat) (outcome : Except PyErr JsonValue)
  -- `_run_step` has ended
  | ended (runner : String) (outcome : Except PyErr JsonValue)
  deriving DecidableEq

def DagEvent.runner : DagEvent → String
  | .called n _ | .mapped n _ | .replied n _ _ | .ended n _ => n

/-- What the steps of a run share. -/
structure DagShared where
  ctx : DagContext
  trace : List DagEvent := []

def DagShared.note (sh : DagShared) (e : DagEvent) : DagShared := { sh with trace := sh.trace ++ [e] }

@[simp] theorem DagShared.note_ctx (sh : DagShared) (e : DagEvent) : (sh.note e).ctx = sh.ctx := rfl

@[simp] theorem DagShared.note_trace (sh : DagShared) (e : DagEvent) : (sh.note e).trace = sh.trace ++ [e] := rfl

namespace DagContext

/-- `ctx.context.get(src) or ctx.step_results.get(src)`. -/
def source (ctx : DagContext) (src : String) : JsonValue :=
  let value := (ctx.context.lookup src).getD .null
  if value.truthy then value else (ctx.stepResults.lookup src).getD .null

end DagContext

/-- `for dst, src in mapping.items(): if src in result: target[dst] = result[src]`. The field of a
list or a string that contains `src` cannot be read with a string. -/
def mapOutput (mapping : List (String × String)) (result : JsonValue) (target : JsonObj) :
    Except PyErr JsonObj :=
  mapping.foldlM (fun target e =>
    match result with
    | .obj fields => .ok (((fields.lookup e.2).map (JsonValue.assign target e.1)).getD target)
    | .arr _ =>
      if (result.contains (.str e.2)).getD false then
        .error (.typeError "list indices must be integers or slices, not str")
      else .ok target
    | .str _ =>
      if (result.contains (.str e.2)).getD false then
        .error (.typeError "string indices must be integers, not 'str'")
      else .ok target
    | v => .error (.typeError ("argument of type '" ++ v.typeName ++ "' is not iterable"))) target

namespace DagStep

def skipped (parse : String → Option Expr) (step : DagStep) (ctx : DagContext) : Bool :=
  match step.condition with
  | some expr => expr ≠ "" && !safeEvalCondition parse expr ctx
  | none => false

def buildInput (step : DagStep) (ctx : DagContext) : JsonObj :=
  step.inputMapping.entries.foldl (fun input e =>
    if ctx.source e.2 = .null then input else JsonValue.assign input e.1 (ctx.source e.2)) ctx.inputData

def request (step : DagStep) (input : JsonObj) : Call :=
  match step.executionMode with
  | .sync | .async => .dispatch step.capability step.stepName input
  | .flaskWrapped => .flask ((step.flask.map FlaskStepConfig.url).getD "") input

/-- `range(max_retries + 1)`. -/
def attempts (step : DagStep) : Nat := (step.retryPolicy.maxRetries + 1).toNat

def resolve (step : DagStep) (e : PyErr) : Except PyErr JsonValue :=
  match step.onFailure, step.fallback with
  | .fallback, some f => .ok (.obj (f.outputMapping.entries.map fun e => (e.1, .str e.2)))
  | .skip, _ => .ok (.obj [])
  | _, _ => .error e

def record (step : DagStep) (result : JsonValue) (ctx : DagContext) : Except PyErr DagContext :=
  (mapOutput step.outputMapping.entries result ctx.context).map fun context =>
    { ctx with
      context
      stepResults := JsonValue.assign ctx.stepResults step.stepName result
      completedSteps := ctx.completedSteps ++ [step.stepName] }

/-- `map_over` of a step that maps. -/
def mapKey (step : DagStep) : Option String :=
  step.mapOver.filter fun coll => coll ≠ "" && step.stepKind = .map

def trigger (step : DagStep) : Option StreamingTrigger :=
  if step.stepKind = .streaming then step.streamingTrigger else none

def Normal (step : DagStep) : Prop := step.mapKey = none ∧ step.trigger = none

instance (step : DagStep) : Decidable step.Normal := inferInstanceAs (Decidable (_ ∧ _))

def mapItems (coll : String) (input : JsonObj) (ctx : DagContext) : List JsonValue :=
  let value := (input.lookup coll).getD .null
  match if value.truthy then value else (ctx.context.lookup coll).getD (.arr []) with
  | .arr items => items
  | item => [item]

def mapLimit (step : DagStep) : Nat := if step.maxConcurrency = 0 then 16 else step.maxConcurrency

end DagStep

inductive ItemState where
  | queued | calling
  | done (result : Except PyErr JsonValue)
  deriving DecidableEq

structure MapItem where
  index : Nat
  item : JsonValue
  state : ItemState := .queued
  deriving DecidableEq

inductive ItemSignal where
  | go
  | reply (outcome : Except PyErr JsonValue)

namespace DagStep

def itemPayload (coll : String) (input : JsonObj) (index : Nat) (item : JsonValue) :
    JsonObj :=
  JsonValue.assign (JsonValue.assign input coll item) "_map_index" (.num index)

def itemCall (step : DagStep) (coll : String) (input : JsonObj) (index : Nat) (item : JsonValue) :
    Call :=
  .dispatch step.capability step.stepName (itemPayload coll input index item)

def errorMark (index : Nat) (e : PyErr) : JsonValue :=
  .obj [("__map_error__", .str e.str), ("_map_index", .num index)]

/-- What `_map_one` makes of an answer. -/
def itemResult (step : DagStep) (index : Nat) : Except PyErr JsonValue → Except PyErr JsonValue
  | .ok v => .ok v
  | .error e =>
    if e.isException && step.mapErrorPolicy = MapErrorPolicy.continue then .ok (errorMark index e) else .error e

def mapOne (step : DagStep) (coll : String) (input : JsonObj) :
    ItemSignal → MapItem → DagShared → Option (MapItem × DagShared)
  | .go, ⟨index, item, .queued⟩, sh =>
    some (⟨index, item, .calling⟩, sh.note (.called step.stepName (step.itemCall coll input index item)))
  | .reply outcome, ⟨index, item, .calling⟩, sh =>
    some (⟨index, item, .done (step.itemResult index outcome)⟩,
      sh.note (.replied step.stepName (some index) outcome))
  | _, _, _ => none

def mapCrew (step : DagStep) (coll : String) (input : JsonObj) :
    Crew DagShared MapItem ItemSignal where
  resume := step.mapOne coll input
  holds t := t.state = .calling
  ended t :=
    match t.state with
    | .done _ => true
    | _ => false

def mapPool (step : DagStep) (items : List JsonValue) : Pool MapItem :=
  ⟨step.mapLimit, items.zipIdx.map fun e => ⟨e.2, e.1, .queued⟩⟩

def cancelledObject : JsonValue := .str "CancelledError()"

def entry : ItemState → Option JsonValue
  | .done (.ok v) => some v
  | .done (.error e) => if e.isException then none else some cancelledObject
  | _ => none

def itemError : ItemState → Option PyErr
  | .done (.error e) => if e.isException then some e else none
  | _ => none

def collect (step : DagStep) (items : List MapItem) : Except PyErr JsonValue :=
  match items.findSome? fun t => itemError t.state with
  | some e =>
    if step.mapErrorPolicy = .abortAll then step.resolve e
    else .ok (.obj [("results", .arr (items.filterMap fun t => entry t.state))])
  | none => .ok (.obj [("results", .arr (items.filterMap fun t => entry t.state))])

end DagStep

inductive StreamPhase where
  -- The producer is being called
  | opening
  -- `asyncio.sleep(0)`
  | yielding
  -- `blpop` is under way
  | reading (received : Nat)
  -- A chunk is being handed to a downstream step
  | feeding (received : Nat) (chunk : JsonValue) (ds : String) (rest : List String)
  -- The buffer is being deleted, after the sentinel
  | flushing (result : JsonObj)
  -- The buffer is being deleted, before an error is raised
  | closing (e : PyErr)
  -- The buffer is being deleted by the handler of `_run_step`
  | cleaning (e : PyErr)
  deriving DecidableEq

inductive StreamSignal where
  | go (late : Bool)
  | reply (outcome : Except PyErr JsonValue) (late : Bool)
  | popped (item : Except PyErr (Option String)) (late : Bool)
  | deleted (outcome : Except PyErr Unit)

/-- The step goes on, or leaves its section with a result. -/
inductive StreamTurn where
  | go (ph : StreamPhase) (sh : DagShared)
  | leave (outcome : Except PyErr JsonValue) (sh : DagShared)

/-- `str.replace` with a pattern that is not empty; `skip` characters belong to the last match. -/
def replaceFrom (pattern new : List Char) : Nat → List Char → List Char
  | _, [] => []
  | skip + 1, _ :: cs => replaceFrom pattern new skip cs
  | 0, c :: cs =>
    if pattern.isPrefixOf (c :: cs) then new ++ replaceFrom pattern new (pattern.length - 1) cs
    else c :: replaceFrom pattern new 0 cs

def StreamingTrigger.bufferKeyFor (trigger : StreamingTrigger) (taskId : String) : String :=
  String.ofList (replaceFrom "\x7btask_id\x7d".toList taskId.toList 0 trigger.bufferKey.toList)

def notAwaitable : PyErr := .typeError "object int can't be used in 'await' expression"

def JsonValue.text : JsonValue → String
  | .str s => s
  | .bool b => if b then "True" else "False"
  | .num q => if q.isInt then toString q.num else toString q
  | v => v.typeName

/-- `item[1] if item else None`. The synchronous reader catches its errors and returns the value
alone, so the second character of the value is taken. -/
def RedisClient.read : Option RedisClient → Except PyErr (Option String) → Except PyErr (Option String)
  | some .asyncBlpop, item => item
  | none, _ => .ok none
  | some .sync, .error _ => .ok none
  | some .sync, .ok none => .ok none
  | some .sync, .ok (some value) =>
    match value.toList with
    | [] => .ok none
    | [_] => .error (.indexError "string index out of range")
    | _ :: c :: _ => .ok (some (String.singleton c))

/-- `ctx.context[acc_key].append(ds_result)`; an error of it is caught. -/
def DagContext.accumulate (ctx : DagContext) (ds : String) (value : JsonValue) : DagContext :=
  let key := "_streaming_results_" ++ ds
  match (ctx.context.lookup key).getD (.arr []) with
  | .arr items => { ctx with context := JsonValue.assign ctx.context key (.arr (items ++ [value])) }
  | _ => ctx

/-- `getattr(step, "streaming_max_chunks", 100_000)`: a step has no such field. -/
def maxChunks : Nat := 100000

namespace DagSetup
variable (setup : DagSetup) (step : DagStep) (trigger : StreamingTrigger) (input : JsonObj)

def bufferKey (sh : DagShared) : String := trigger.bufferKeyFor sh.ctx.taskId

def enriched (sh : DagShared) : JsonObj :=
  JsonValue.assign input "_streaming_buffer_key" (.str (bufferKey trigger sh))

/-- `{"chunk": chunk, **enriched}`. -/
def chunkPayload (chunk : JsonValue) (sh : DagShared) : JsonObj :=
  JsonValue.assignAll [("chunk", chunk)] (enriched trigger input sh)

def streamFail (e : PyErr) (sh : DagShared) : StreamTurn :=
  if !e.isException then .leave (.error e) sh
  else
    match setup.redis with
    | none => .leave (step.resolve e) sh
    | some .asyncBlpop => .go (.cleaning e) sh
    | some .sync => .leave (.error notAwaitable) sh

def streamClose (e : PyErr) (sh : DagShared) : StreamTurn :=
  match setup.redis with
  | none => setup.streamFail step e sh
  | some .asyncBlpop => .go (.closing e) sh
  | some .sync => setup.streamFail step notAwaitable sh

def streamLoop (received : Nat) (late : Bool) (sh : DagShared) : StreamTurn :=
  if late then
    setup.streamClose step (.timeoutError ("STREAMING step '" ++ step.stepName ++ "' exceeded timeout (" ++
      toString (if step.timeoutSeconds = 0 then 3600 else step.timeoutSeconds) ++ "s) after " ++
      toString received ++ " chunks")) sh
  else if maxChunks ≤ received then
    setup.streamClose step (.runtimeError ("STREAMING step '" ++ step.stepName ++ "' exceeded max_chunks=" ++
      toString maxChunks)) sh
  else .go (.reading received) sh

def streamFeed (received : Nat) (chunk : JsonValue) (late : Bool) (sh : DagShared) : List String → StreamTurn
  | [] => setup.streamLoop step received late sh
  | ds :: rest => .go (.feeding received chunk ds rest)
      (sh.note (.called step.stepName (.dispatch step.capability ds (chunkPayload trigger input chunk sh))))

def streamDone (fields : JsonObj) (sh : DagShared) : StreamTurn :=
  if ((fields.lookup "__error__").getD .null).truthy then
    setup.streamFail step (.runtimeError ("STREAMING step error: " ++
      ((fields.lookup "__error__").getD .null).text)) sh
  else
    match mapOutput step.outputMapping.entries ((fields.lookup "summary").getD (.obj [])) [] with
    | .error e => setup.streamFail step e sh
    | .ok result =>
      if trigger.flushOnComplete && setup.redis.isSome then
        match setup.redis with
        | some .sync => setup.streamFail step notAwaitable sh
        | _ => .go (.flushing result) sh
      else .leave (.ok (.obj result)) sh

def streamChunk (received : Nat) (raw : String) (late : Bool) (sh : DagShared) : StreamTurn :=
  match (setup.loads raw).getD (.obj [("__raw__", .str raw)]) with
  | .obj fields =>
    if ((fields.lookup "__done__").getD .null).truthy then setup.streamDone step trigger fields sh
    else setup.streamFeed step trigger input received (.obj fields) late sh trigger.downstreamSteps
  | v => setup.streamFail step (.attributeError ("'" ++ v.typeName ++ "' object has no attribute 'get'")) sh

def streamRead (received : Nat) (item : Except PyErr (Option String)) (late : Bool) (sh : DagShared) : StreamTurn :=
  match RedisClient.read setup.redis item with
  | .error e => setup.streamFail step e sh
  | .ok none => setup.streamFail step
      (.timeoutError ("STREAMING: blpop timeout on buffer_key=" ++ bufferKey trigger sh)) sh
  | .ok (some raw) => setup.streamChunk step trigger input (received + 1) raw late sh

def streamFed (received : Nat) (chunk : JsonValue) (ds : String) (rest : List String)
    (outcome : Except PyErr JsonValue) (late : Bool) (sh : DagShared) : StreamTurn :=
  match outcome with
  | .ok v => setup.streamFeed step trigger input received chunk late { sh with ctx := sh.ctx.accumulate ds v } rest
  | .error e =>
    if e.isException then setup.streamFeed step trigger input received chunk late sh rest
    else .leave (.error e) sh

def streamResume : StreamSignal → StreamPhase → DagShared → Option StreamTurn
  | .reply outcome _, .opening, sh =>
    some (match outcome with
      | .ok _ => .go .yielding (sh.note (.replied step.stepName none outcome))
      | .error e => setup.streamFail step e (sh.note (.replied step.stepName none outcome)))
  | .go late, .yielding, sh => some (setup.streamLoop step 0 late sh)
  | .popped item late, .reading received, sh => some (setup.streamRead step trigger input received item late sh)
  | .reply outcome late, .feeding received chunk ds rest, sh =>
    some (setup.streamFed step trigger input received chunk ds rest outcome late
      (sh.note (.replied step.stepName none outcome)))
  | .deleted outcome, .flushing result, sh =>
    some (match outcome with
      | .ok _ => .leave (.ok (.obj result)) sh
      | .error e => setup.streamFail step e sh)
  | .deleted outcome, .closing e, sh =>
    some (match outcome with
      | .ok _ => setup.streamFail step e sh
      | .error e' => setup.streamFail step e' sh)
  | .deleted outcome, .cleaning e, sh =>
    some (match outcome with
      | .ok _ => .leave (step.resolve e) sh
      | .error e' => .leave (.error e') sh)
  | _, _, _ => none

end DagSetup

end AsyncScheduler
