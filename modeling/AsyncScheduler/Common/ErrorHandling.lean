import AsyncScheduler.Shared.Program

/-!
# Errors

The exceptions the modelled code raises, catches or re-raises. A cancellation is not an `Exception`,
so the handlers of the source let it pass.
-/

namespace AsyncScheduler

inductive PyErr where
  | valueError (msg : String)
  | invalidTaskTransition (msg : String)
  | runtimeError (msg : String)
  | systemError (msg : String)
  | externalServiceError (msg : String)
  | attributeError (msg : String)
  | typeError (msg : String)
  | indexError (msg : String)
  | keyError (key : String)
  | connectionError (msg : String)
  | timeoutError (msg : String)
  | responseError (msg : String)
  | integrityError (msg : String)
  | dataError (msg : String)
  | multipleResultsFound
  | httpException (code : Nat) (detail : String)
  | cancelledError
  deriving DecidableEq, Repr

namespace PyErr

def isException : PyErr → Bool
  | .cancelledError => false
  | _ => true

/-- Re-raised as it is by `log_errors`; `InvalidTaskTransition` is a `ValueError`. -/
def isBusiness : PyErr → Bool
  | .valueError _ | .invalidTaskTransition _ | .httpException _ _ => true
  | _ => false

def str : PyErr → String
  | .valueError m | .invalidTaskTransition m | .runtimeError m | .systemError m
  | .externalServiceError m | .attributeError m | .typeError m | .indexError m | .connectionError m | .timeoutError m | .responseError m | .integrityError m
  | .dataError m => m
  | .keyError k => "'" ++ k ++ "'"
  | .multipleResultsFound => "Multiple rows were found when one or none was required"
  | .httpException code detail => toString code ++ ": " ++ detail
  | .cancelledError => ""

end PyErr

def wrongType : PyErr := .responseError "WRONGTYPE Operation against a key holding the wrong kind of value"

def invalidExpire : PyErr := .responseError "invalid expire time in 'set' command"

section
variable {κ ι σ α : Type}

def exceptException (p : Prog κ ι σ PyErr α) (h : PyErr → Prog κ ι σ PyErr α) : Prog κ ι σ PyErr α :=
  p.handle fun e => if e.isException then h e else .raise e

/-- The decorator `log_errors(raise_exception=True)`. -/
def logErrors (p : Prog κ ι σ PyErr α) : Prog κ ι σ PyErr α :=
  exceptException p fun e => .raise (if e.isBusiness then e else .systemError e.str)

/-- The decorator `log_errors(raise_exception=True, exception_type=ExternalServiceError)`. -/
def logExternalErrors (p : Prog κ ι σ PyErr α) : Prog κ ι σ PyErr α :=
  exceptException p fun e => .raise (if e.isBusiness then e else .externalServiceError e.str)

/-- The decorator `log_errors(raise_exception=False)`: an exception becomes `None`. -/
def suppressErrors (p : Prog κ ι σ PyErr α) : Prog κ ι σ PyErr (Option α) :=
  exceptException (p.bind fun a => .ret (some a)) fun e => if e.isBusiness then .raise e else .ret none

def PyErr.external (e : PyErr) : PyErr :=
  if e.isException && !e.isBusiness then .externalServiceError e.str else e

theorem runWith_logExternalErrors (apply : κ → ι → σ → σ) (i : ι) (p : Prog κ ι σ PyErr α) (s : σ) :
    (logExternalErrors p).runWith apply i s =
      ((p.runWith apply i s).1.mapError PyErr.external, (p.runWith apply i s).2) := by
  rw [logExternalErrors, exceptException, Prog.runWith_handle]
  obtain ⟨outcome, s'⟩ := p.runWith apply i s
  cases outcome with
  | ok a => rfl
  | error e => cases e <;> rfl

theorem runWith_logExternalErrors_ok {apply : κ → ι → σ → σ} {i : ι} {p : Prog κ ι σ PyErr α} {s s' : σ} {a : α}
    (h : (logExternalErrors p).runWith apply i s = (.ok a, s')) : p.runWith apply i s = (.ok a, s') := by
  rw [runWith_logExternalErrors] at h
  match hr : p.runWith apply i s with
  | (.ok b, s₁) =>
    rw [hr] at h
    exact h
  | (.error e, s₁) =>
    rw [hr] at h
    cases h

theorem runWith_suppressErrors (apply : κ → ι → σ → σ) (i : ι) (p : Prog κ ι σ PyErr α) (s : σ) :
    (suppressErrors p).runWith apply i s = (match (p.runWith apply i s).1 with
        | .ok a => .ok (some a)
        | .error e => if e.isException && !e.isBusiness then .ok none else .error e,
        (p.runWith apply i s).2) := by
  rw [suppressErrors, exceptException, Prog.runWith_handle, Prog.runWith_bind]
  obtain ⟨outcome, s'⟩ := p.runWith apply i s
  cases outcome with
  | ok a => rfl
  | error e => cases e <;> rfl

end

end AsyncScheduler
