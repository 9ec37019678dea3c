namespace MacroLift

/-- What comes of an attempt: a value, a reason why there is none, or no answer ever, if the attempt goes on without
    end. -/
inductive Attempt (ε α : Type) where
  | ok (value : α)
  | error (reason : ε)
  | endless
  deriving Repr, DecidableEq

namespace Attempt

variable {ε α β : Type}

def map (f : α → β) : Attempt ε α → Attempt ε β
  | .ok value => .ok (f value)
  | .error reason => .error reason
  | .endless => .endless

def bind (attempt : Attempt ε α) (next : α → Attempt ε β) : Attempt ε β :=
  match attempt with
  | .ok value => next value
  | .error reason => .error reason
  | .endless => .endless

instance : Monad (Attempt ε) where
  pure := .ok
  bind := bind

def ofExcept : Except ε α → Attempt ε α
  | .ok value => .ok value
  | .error reason => .error reason

def toOption : Attempt ε α → Option α
  | .ok value => some value
  | _ => none

def isEndless : Attempt ε α → Bool
  | .endless => true
  | _ => false

@[simp] theorem ok_bind (value : α) (next : α → Attempt ε β) : (ok value >>= next) = next value := rfl

@[simp] theorem error_bind (reason : ε) (next : α → Attempt ε β) : (error reason >>= next) = error reason := rfl

@[simp] theorem endless_bind (next : α → Attempt ε β) : (endless >>= next) = endless := rfl

@[simp] theorem isEndless_ok (value : α) : (ok value : Attempt ε α).isEndless = false := rfl

@[simp] theorem isEndless_error (reason : ε) : (error reason : Attempt ε α).isEndless = false := rfl

@[simp] theorem isEndless_endless : (endless : Attempt ε α).isEndless = true := rfl

theorem isEndless_iff {attempt : Attempt ε α} : attempt.isEndless = true ↔ attempt = .endless := by
  cases attempt <;> simp

end Attempt

end MacroLift
