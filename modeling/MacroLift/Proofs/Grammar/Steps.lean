import MacroLift.Grammar.Parser

namespace MacroLift

def Cause.isSyntactic : Cause → Bool
  | .unexpectedToken _ _ | .missingToken _ | .invalidNumber _ | .stated .syntactic _ _ => true
  | _ => false

def Cause.isUnsupported : Cause → Bool
  | .unsupported _ => true
  | _ => false

def Failure.InGrammar (failure : Failure) : Prop :=
  failure.cause.isSyntactic = true ∨ failure.cause.isUnsupported = true

variable {α β : Type} {setting : Setting} {first second third failure : Failure}

theorem Failure.further_assoc (first second third : Failure) :
    (first.further second).further third = first.further (second.further third) := by
  unfold further
  by_cases one : first.pos < second.pos <;> by_cases two : second.pos < third.pos <;>
    by_cases both : first.pos < third.pos <;> simp only [one, two, both, if_true, if_false]
  all_goals
    rw [Pos.lt_iff] at one two both
    omega

theorem furthestMet_assoc (first second third : Option Failure) :
    furthestMet (furthestMet first second) third = furthestMet first (furthestMet second third) := by
  cases first with
  | none => cases second <;> cases third <;> rfl
  | some first =>
    cases second with
    | none => cases third <;> rfl
    | some second =>
      cases third with
      | none => rfl
      | some third => exact congrArg some (first.further_assoc second third)

theorem furthestMet_none (met : Option Failure) : furthestMet met none = met := by
  cases met <;> rfl

theorem none_furthestMet (met : Option Failure) : furthestMet none met = met := by
  cases met <;> rfl

def furthestOf : List Failure → Option Failure
  | [] => none
  | construct :: constructs => furthestMet (some construct) (furthestOf constructs)

theorem furthestOf_append (constructs more : List Failure) :
    furthestOf (constructs ++ more) = furthestMet (furthestOf constructs) (furthestOf more) := by
  induction constructs with
  | nil => exact (none_furthestMet (furthestOf more)).symm
  | cons construct _ ih => rw [List.cons_append, furthestOf, furthestOf, ih, furthestMet_assoc]

/-- What is kept while tokens are read. -/
structure Session where
  rest : List Token
  depth : Nat
  record : Option Failure
  noted : List Failure

namespace Session

/-- A construct goes on record if none is there or if it lies further than that. -/
def note (s : Session) (construct : Failure) : Session :=
  { s with record := furthestMet s.record (some construct), noted := s.noted ++ [construct] }

abbrev Run (α : Type) : Type :=
  Session → Except Failure α × Session

variable {s : Session}

/-- A failure, somewhere in the tokens. Inside an alternative no construct outside the grammar is raised as such. -/
def fail (failure : Failure) (stray : List Token) : Run α :=
  fun s =>
    if failure.isUnsupported && 0 < s.depth then
      (.error ⟨.stated .syntactic failure.cause.message none, failure.pos⟩, { s.note failure with rest := stray })
    else (.error failure, { s with rest := stray })

def reading (read : List Token → Except Failure (α × List Token)) (stray : List Token → List Token) : Run α :=
  fun s =>
    match read s.rest with
    | .ok (a, rest) => (.ok a, { s with rest })
    | .error failure => fail failure (stray s.rest) s

def andThen (run : Run α) (next : α → Run β) : Run β :=
  fun s =>
    match run s with
    | (.ok a, s') => next a s'
    | (.error failure, s') => (.error failure, s')

/-- Errors of syntax are caught and undone. All others pass through. -/
def attempting (run : Run α) : Run (Option α) :=
  fun s =>
    match run { s with depth := s.depth + 1 } with
    | (.ok a, s') => (.ok (some a), { s' with depth := s'.depth - 1 })
    | (.error failure, s') =>
      if failure.cause.isSyntactic then (.ok none, { s' with rest := s.rest, depth := s'.depth - 1 })
      else (.error failure, { s' with depth := s'.depth - 1 })

def repeating (step : α → Run (Option α)) : Nat → α → Run α
  | 0, a => fun s => (.ok a, s)
  | n + 1, a => andThen (step a) fun
    | some b => repeating step n b
    | none => fun s => (.ok a, s)

end Session

/-- The steps of a parser. A reader fails in the grammar only, and where it stands then is left open. -/
inductive Steps : Type → Type 1 where
  | read {α : Type} (reader : Setting → List Token → Except Failure (α × List Token))
      (stray : Setting → List Token → List Token)
      (inGrammar : ∀ {setting ts failure}, reader setting ts = .error failure → failure.InGrammar) : Steps α
  | bind {α β : Type} (first : Steps α) (next : α → Steps β) : Steps β
  | attempt {α : Type} (production : Steps α) : Steps (Option α)
  | repeated {α : Type} (step : α → Steps (Option α)) (a : α) : Steps α

namespace Steps

def parser : {α : Type} → Steps α → Parser α
  | _, .read reader _ _ => Parser.ofTokens reader
  | _, .bind first next => first.parser >>= fun a => (next a).parser
  | _, .attempt production => Parser.attempt production.parser
  | _, .repeated step a => Parser.repeated (fun a => (step a).parser) a

def run (setting : Setting) : {α : Type} → Steps α → Session.Run α
  | _, .read reader stray _ => Session.reading (reader setting) (stray setting)
  | _, .bind first next => Session.andThen (first.run setting) fun a => (next a).run setting
  | _, .attempt production => Session.attempting (production.run setting)
  | _, .repeated step a => fun s => Session.repeating (fun a => (step a).run setting) s.rest.length a s

end Steps

def Parser.IsStepwise (p : Parser α) : Prop :=
  ∃ steps : Steps α, steps.parser = p

end MacroLift
