import Mathlib.Data.Rat.Defs
import Mathlib.Data.String.Basic
import Mathlib.Tactic.Common

/-!
# Callbacks

The body of a callback, the HTTP request that carries it, the rows of the outbox, and the events of
the durable retry set with their texts.
-/

namespace AsyncScheduler

structure CallbackPayload where
  taskId : String
  status : String
  result : Option String
  timestamp : Int
  deriving DecidableEq, Repr

/-- A `POST` to a callback URL with its body and its two headers. -/
structure CallbackPost where
  url : String
  payload : CallbackPayload
  idempotencyKey : String
  retryAttempt : Option Nat := none
  deriving DecidableEq, Repr

inductive CallbackDeliveryStatus where
  | pending | delivered | failed | deadLetter
  deriving DecidableEq, Repr

/-- The attributes given to `CallbackOutboxRecord(...)`, with the fields of its payload. -/
structure CallbackOutboxRow where
  taskId : String
  tenantId : String
  callbackUrl : String
  status : String
  result : Option String
  timestamp : Int
  deriving DecidableEq, Repr

def CallbackOutboxRow.payload (row : CallbackOutboxRow) : CallbackPayload :=
  ⟨row.taskId, row.status, row.result, row.timestamp⟩

structure CallbackOutboxRecord extends CallbackOutboxRow where
  id : Nat
  deliveryStatus : CallbackDeliveryStatus := .pending
  attemptCount : Int := 0
  nextAttemptAt : Option ℚ := none
  lastError : Option String := none
  deriving DecidableEq, Repr

/-- The columns that one delivery changes. -/
structure OutboxUpdate where
  attemptCount : Int
  deliveryStatus : Option CallbackDeliveryStatus := none
  nextAttemptAt : Option ℚ := none
  lastError : Option String := none
  deriving DecidableEq, Repr

def CallbackOutboxRecord.update (row : CallbackOutboxRecord) (u : OutboxUpdate) : CallbackOutboxRecord :=
  { row with
    attemptCount := u.attemptCount
    deliveryStatus := u.deliveryStatus.getD row.deliveryStatus
    nextAttemptAt := u.nextAttemptAt <|> row.nextAttemptAt
    lastError := u.lastError <|> row.lastError }

structure CallbackEvent where
  taskId : String
  callbackUrl : String
  status : String
  result : Option String
  timestamp : Int
  attempt : Nat
  deriving DecidableEq, Repr

def CallbackEvent.payload (e : CallbackEvent) : CallbackPayload := ⟨e.taskId, e.status, e.result, e.timestamp⟩

def CallbackEvent.request (e : CallbackEvent) : CallbackPost := ⟨e.callbackUrl, e.payload, e.taskId, some e.attempt⟩

/-- What `json.loads` makes of a member of the retry set: an event read from a dict, a value
that is no dict, or no value at all. -/
inductive Loaded where
  | event (e : CallbackEvent)
  | scalar (typeName : String)
  | invalid
  deriving DecidableEq, Repr

/-- The texts of events. -/
structure EventCodec where
  dumps : CallbackEvent → String
  loads : String → Loaded
  loads_dumps : ∀ e, loads (dumps e) = .event e

namespace QuotedDict

def escape : List Char → List Char
  | [] => []
  | c :: cs => if c = '"' ∨ c = '\\' then '\\' :: c :: escape cs else c :: escape cs

def readQuoted : List Char → Option (List Char × List Char)
  | [] => none
  | '"' :: rest => some ([], rest)
  | ['\\'] => none
  | '\\' :: c :: rest => (readQuoted rest).map fun (text, rest) => (c :: text, rest)
  | c :: rest => (readQuoted rest).map fun (text, rest) => (c :: text, rest)

/-- What is escaped and quoted is read back. -/
theorem readQuoted_escape (text rest : List Char) : readQuoted (escape text ++ '"' :: rest) = some (text, rest) := by
  induction text with
  | nil => rfl
  | cons c text ih =>
    unfold escape
    by_cases hc : c = '"' ∨ c = '\\'
    · rw [if_pos hc]
      simp [readQuoted, ih]
    · obtain ⟨hq, hs⟩ := not_or.mp hc
      rw [if_neg hc, List.cons_append]
      unfold readQuoted
      split
      · contradiction
      · rename_i h
        exact absurd (List.cons.inj h).1 hq
      · rename_i h
        exact absurd (List.cons.inj h).1 hs
      · rename_i h
        exact absurd (List.cons.inj h).1 hs
      · rename_i h
        obtain ⟨rfl, rfl⟩ := List.cons.inj h
        rw [ih]
        rfl

def field (name : String) (text rest : List Char) : List Char :=
  ('"' :: name.toList ++ ['"', ':', ' ', '"']) ++ (escape text ++ '"' :: rest)

def readField (name : String) (text : List Char) : Option (List Char × List Char) :=
  (('"' :: name.toList ++ ['"', ':', ' ', '"']).isPrefixOf? text).bind readQuoted

theorem isPrefixOf?_append (l rest : List Char) : l.isPrefixOf? (l ++ rest) = some rest := by
  induction l with
  | nil => rfl
  | cons c l ih => simp [List.isPrefixOf?, ih]

theorem readField_field (name : String) (text rest : List Char) :
    readField name (field name text rest) = some (text, rest) := by
  unfold readField field
  rw [isPrefixOf?_append, Option.bind_some, readQuoted_escape]

def optionText : Option String → List Char
  | none => ['-']
  | some s => '+' :: s.toList

def readOption : List Char → Option String
  | '+' :: cs => some (String.ofList cs)
  | _ => none

def intText : Int → List Char
  | .ofNat n => '+' :: Nat.toDigits 10 n
  | .negSucc n => '-' :: Nat.toDigits 10 n

def readInt : List Char → Int
  | '-' :: cs => .negSucc (Nat.ofDigitChars 10 cs 0)
  | _ :: cs => .ofNat (Nat.ofDigitChars 10 cs 0)
  | [] => 0

theorem readOption_optionText (s : Option String) : readOption (optionText s) = s := by
  cases s with
  | none => rfl
  | some s => simp [optionText, readOption]

theorem readInt_intText (n : Int) : readInt (intText n) = n := by
  cases n <;> simp [intText, readInt, Nat.ofDigitChars_ten_toDigits]

def dumps (e : CallbackEvent) : String :=
  String.ofList ('\x7b' :: field "task_id" e.taskId.toList (field "callback_url" e.callbackUrl.toList
    (field "status" e.status.toList (field "result" (optionText e.result)
      (field "timestamp" (intText e.timestamp) (field "attempt" (Nat.toDigits 10 e.attempt) ['\x7d']))))))

def readEvent (text : List Char) : Option CallbackEvent := do
  let (taskId, text) ← readField "task_id" text
  let (callbackUrl, text) ← readField "callback_url" text
  let (status, text) ← readField "status" text
  let (result, text) ← readField "result" text
  let (timestamp, text) ← readField "timestamp" text
  let (attempt, _) ← readField "attempt" text
  pure {
    taskId := String.ofList taskId, callbackUrl := String.ofList callbackUrl, status := String.ofList status,
    result := readOption result, timestamp := readInt timestamp, attempt := Nat.ofDigitChars 10 attempt 0 }

/-- A text of digits is a number, and a text that does not start a dict is nothing else here. -/
def loads (s : String) : Loaded :=
  match s.toList with
  | '\x7b' :: text => ((readEvent text).map Loaded.event).getD .invalid
  | text => if text ≠ [] ∧ text.all Char.isDigit then .scalar "int" else .invalid

theorem loads_dumps (e : CallbackEvent) : loads (dumps e) = .event e := by
  simp [loads, dumps, readEvent, readField_field, readOption_optionText, readInt_intText,
    Nat.ofDigitChars_ten_toDigits]

end QuotedDict

def EventCodec.quoted : EventCodec := ⟨QuotedDict.dumps, QuotedDict.loads, QuotedDict.loads_dumps⟩

example : EventCodec.quoted.loads "00000000-0000-0000-0000-000000000001" = .invalid := by decide +kernel

end AsyncScheduler
