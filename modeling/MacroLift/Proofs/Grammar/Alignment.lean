import Mathlib.Data.List.Forall2
import MacroLift.Proofs.Grammar.Layout

namespace MacroLift

open MacroLift.Parser

/-- Two layouts of one text. Places belong together if the same token stands there, and they lie in the same order in
    both. -/
structure Alignment where
  first : Setting
  second : Setting
  places : Pos → Pos → Prop
  ordered {p p' q q' : Pos} : places p p' → places q q' → (p < q ↔ p' < q')
  stop : places first.stop second.stop
  parameters : first.parameters = second.parameters

namespace Alignment

variable (A : Alignment)

def SameToken (t u : Token) : Prop :=
  t.lexeme = u.lexeme ∧ A.places t.pos u.pos

def Tokens : List Token → List Token → Prop :=
  List.Forall₂ A.SameToken

def Failures (failure other : Failure) : Prop :=
  failure.cause = other.cause ∧ A.places failure.pos other.pos

inductive Outcomes {α : Type} (values : α → α → Prop) :
    Except Failure (α × List Token) → Except Failure (α × List Token) → Prop where
  | ok {a b : α} {ts us : List Token} (same : values a b) (rest : A.Tokens ts us) :
      Outcomes values (.ok (a, ts)) (.ok (b, us))
  | error {failure other : Failure} (same : A.Failures failure other) :
      Outcomes values (.error failure) (.error other)

structure Replies {α : Type} (values : α → α → Prop) (reply other : Reply α) : Prop where
  outcome : A.Outcomes values reply.outcome other.outcome
  met : Option.Rel A.Failures reply.met other.met

/-- Parsers that take the same tokens of both layouts, to values that belong together. -/
def InStep {α : Type} (values : α → α → Prop) (p q : Parser α) : Prop :=
  ∀ ⦃ts us : List Token⦄, A.Tokens ts us → A.Replies values (p A.first ts) (q A.second us)

variable {A} {α β : Type} {values : α → α → Prop} {results : β → β → Prop} {ts us : List Token} {p q : Pos}
  {l : Lexeme} {failure other : Failure}

theorem tokens_nil : A.Tokens [] us ↔ us = [] :=
  List.forall₂_nil_left_iff

theorem tokens_cons : A.Tokens (⟨l, p⟩ :: ts) us ↔
    ∃ q us', us = ⟨l, q⟩ :: us' ∧ A.places p q ∧ A.Tokens ts us' := by
  constructor
  · intro h
    obtain ⟨⟨_, q⟩, us', ⟨rfl, place⟩, rest, rfl⟩ := List.forall₂_cons_left_iff.mp h
    exact ⟨q, us', rfl, place, rest⟩
  · rintro ⟨q, us', rfl, place, rest⟩
    exact .cons ⟨rfl, place⟩ rest

theorem tokens_cons_right : A.Tokens ts (⟨l, q⟩ :: us) ↔
    ∃ p ts', ts = ⟨l, p⟩ :: ts' ∧ A.places p q ∧ A.Tokens ts' us := by
  constructor
  · intro h
    obtain ⟨⟨_, p⟩, ts', ⟨rfl, place⟩, rest, rfl⟩ := List.forall₂_cons_right_iff.mp h
    exact ⟨p, ts', rfl, place, rest⟩
  · rintro ⟨p, ts', rfl, place, rest⟩
    exact .cons ⟨rfl, place⟩ rest

theorem Tokens.noHead (h : A.Tokens ts us) (other : ∀ pos rest, ts = ⟨l, pos⟩ :: rest → False) :
    ∀ pos rest, us = ⟨l, pos⟩ :: rest → False := by
  rintro pos rest rfl
  obtain ⟨_, _, rfl, -⟩ := tokens_cons_right.mp h
  exact other _ _ rfl

theorem Tokens.noPair {m : Lexeme} (h : A.Tokens ts us)
    (other : ∀ pos next rest, ts = ⟨l, pos⟩ :: ⟨m, next⟩ :: rest → False) :
    ∀ pos next rest, us = ⟨l, pos⟩ :: ⟨m, next⟩ :: rest → False := by
  rintro pos next rest rfl
  simp only [tokens_cons_right] at h
  obtain ⟨_, _, rfl, -, _, _, rfl, -⟩ := h
  exact other _ _ _ rfl

theorem Tokens.placeOf (h : A.Tokens ts us) : A.places (placeOf A.first ts) (placeOf A.second us) := by
  cases h with
  | nil => exact A.stop
  | cons same => exact same.2

theorem Tokens.head? (h : A.Tokens ts us) : ts.head?.map Token.lexeme = us.head?.map Token.lexeme := by
  cases h with
  | nil => rfl
  | cons same => exact congrArg some same.1

theorem Tokens.foundText (h : A.Tokens ts us) : foundText ts = foundText us := by
  cases h with
  | nil => rfl
  | cons same => exact congrArg Lexeme.text same.1

theorem Tokens.tail (h : A.Tokens ts us) : A.Tokens ts.tail us.tail := by
  cases h with
  | nil => exact .nil
  | cons _ rest => exact rest

theorem Tokens.failureAt (h : A.Tokens ts us) (cause : Cause) :
    A.Failures (failureAt A.first ts cause) (failureAt A.second us cause) :=
  ⟨rfl, h.placeOf⟩

theorem Tokens.mismatchAt (h : A.Tokens ts us) (cause : Cause) :
    A.Failures (mismatchAt A.first ts cause) (mismatchAt A.second us cause) := by
  have same : (ts.head?.bind fun t => unsupported? t.lexeme) = us.head?.bind fun t => unsupported? t.lexeme := by
    cases h with
    | nil => rfl
    | cons same => exact congrArg unsupported? same.1
  unfold Parser.mismatchAt
  rw [same]
  split
  · exact h.failureAt _
  · exact h.failureAt _

theorem Failures.isUnsupported (h : A.Failures failure other) : failure.isUnsupported = other.isUnsupported := by
  unfold Failure.isUnsupported
  rw [h.1]

theorem Failures.further {second second' : Failure} (first : A.Failures failure other)
    (behind : A.Failures second second') : A.Failures (failure.further second) (other.further second') := by
  unfold Failure.further
  rw [if_congr (A.ordered first.2 behind.2) rfl rfl]
  split
  · exact behind
  · exact first

theorem furthestMet {met met' more more' : Option Failure} (first : Option.Rel A.Failures met met')
    (second : Option.Rel A.Failures more more') :
    Option.Rel A.Failures (furthestMet met more) (furthestMet met' more') := by
  cases first with
  | none =>
    cases second with
    | none => exact .none
    | some same => exact .some same
  | some same =>
    cases second with
    | none => exact .some same
    | some more => exact .some (same.further more)

theorem Outcomes.map {f g : α → β} {outcome outcome' : Except Failure (α × List Token)}
    (h : A.Outcomes values outcome outcome') (same : ∀ ⦃a b : α⦄, values a b → results (f a) (g b)) :
    A.Outcomes results (outcome.map fun (a, after) => (f a, after)) (outcome'.map fun (a, after) => (g a, after)) := by
  cases h with
  | ok values rest => exact .ok (same values) rest
  | error failures => exact .error failures

theorem Outcomes.imp {stronger : α → α → Prop} {outcome outcome' : Except Failure (α × List Token)}
    (h : A.Outcomes values outcome outcome')
    (imp : ∀ ⦃a b rest⦄, outcome = .ok (a, rest) → values a b → stronger a b) :
    A.Outcomes stronger outcome outcome' := by
  cases h with
  | ok same rest => exact .ok (imp rfl same) rest
  | error same => exact .error same

variable {a b : α}

theorem inStep_pure (same : values a b) : A.InStep values (pure a) (pure b) :=
  fun _ _ tokens => ⟨.ok same tokens, .none⟩

theorem Replies.bind {p q : Parser α} {f g : α → Parser β}
    (first : A.Replies values (p A.first ts) (q A.second us))
    (second : ∀ ⦃a b : α⦄, values a b → A.InStep results (f a) (g b)) :
    A.Replies results ((p >>= f) A.first ts) ((q >>= g) A.second us) := by
  obtain ⟨outcome, met⟩ := first
  change A.Replies results (Parser.bind p f A.first ts) (Parser.bind q g A.second us)
  unfold Parser.bind
  cases reply : p A.first ts with | mk result found =>
  cases reply' : q A.second us with | mk result' found' =>
  rw [reply, reply'] at outcome met
  cases outcome with
  | ok same rest =>
    obtain ⟨outcome', met'⟩ := second same rest
    exact ⟨outcome', furthestMet met met'⟩
  | error same => exact ⟨.error same, met⟩

theorem InStep.bind {p q : Parser α} {f g : α → Parser β} (first : A.InStep values p q)
    (second : ∀ ⦃a b : α⦄, values a b → A.InStep results (f a) (g b)) : A.InStep results (p >>= f) (q >>= g) :=
  fun _ _ tokens => (first tokens).bind second

theorem InStep.bindEq {p q : Parser α} {f g : α → Parser β} (first : A.InStep Eq p q)
    (second : ∀ a : α, A.InStep results (f a) (g a)) : A.InStep results (p >>= f) (q >>= g) := by
  refine first.bind fun a _ same => ?_
  subst same
  exact second a

theorem InStep.ite {p q p' q' : Parser α} (test : Prop) [Decidable test] (whenTrue : A.InStep values p q)
    (whenFalse : A.InStep values p' q') :
    A.InStep values (if test then p else p') (if test then q else q') := by
  split
  · exact whenTrue
  · exact whenFalse

theorem inStep_peek : A.InStep Eq peek peek :=
  fun _ _ tokens => ⟨.ok tokens.head? tokens, .none⟩

theorem inStep_behindPeek {f g : Option Lexeme → Parser α}
    (behind : ∀ ⦃next ts us⦄, A.Tokens ts us → ts.head?.map Token.lexeme = next →
      A.Replies values (f next A.first ts) (g next A.second us)) :
    A.InStep values (Parser.peek >>= f) (Parser.peek >>= g) := by
  intro ts us tokens
  have same := tokens.head?
  obtain ⟨outcome, met⟩ := behind tokens same
  change A.Replies values
    ⟨(f (ts.head?.map Token.lexeme) A.first ts).outcome,
      MacroLift.furthestMet none (f (ts.head?.map Token.lexeme) A.first ts).met⟩
    ⟨(g (us.head?.map Token.lexeme) A.second us).outcome,
      MacroLift.furthestMet none (g (us.head?.map Token.lexeme) A.second us).met⟩
  rw [same]
  exact ⟨outcome, furthestMet .none met⟩

theorem inStep_place : A.InStep A.places place place :=
  fun _ _ tokens => ⟨.ok tokens.placeOf tokens, .none⟩

theorem inStep_skip : A.InStep Eq skip skip :=
  fun _ _ tokens => ⟨.ok rfl tokens.tail, .none⟩

theorem inStep_accept (lexeme : Lexeme) : A.InStep Eq (accept lexeme) (accept lexeme) := by
  intro ts us tokens
  cases tokens with
  | nil => exact ⟨.ok rfl .nil, .none⟩
  | @cons t u ts us same rest =>
    simp only [Parser.accept, same.1]
    split
    · exact ⟨.ok rfl rest, .none⟩
    · exact ⟨.ok rfl (.cons same rest), .none⟩

theorem inStep_acceptAs (meaning? : Lexeme → Option α) : A.InStep Eq (acceptAs meaning?) (acceptAs meaning?) := by
  intro ts us tokens
  cases tokens with
  | nil => exact ⟨.ok rfl .nil, .none⟩
  | @cons t u ts us same rest =>
    simp only [Parser.acceptAs, same.1]
    split
    · exact ⟨.ok rfl rest, .none⟩
    · exact ⟨.ok rfl (.cons same rest), .none⟩

theorem inStep_mismatch (cause : Cause) : A.InStep values (mismatch cause) (mismatch cause) :=
  fun _ _ tokens => ⟨.error (tokens.mismatchAt cause), .none⟩

theorem inStep_failAt (cause : Cause) (same : A.places p q) : A.InStep values (failAt cause p) (failAt cause q) :=
  fun _ _ _ => ⟨.error ⟨rfl, same⟩, .none⟩

theorem inStep_expect (lexeme : Lexeme) (description : String) :
    A.InStep Eq (expect lexeme description) (expect lexeme description) := by
  refine (inStep_accept lexeme).bindEq fun taken => ?_
  cases taken with
  | true => exact inStep_pure rfl
  | false => exact inStep_mismatch _

theorem inStep_expectAs (meaning? : Lexeme → Option α) (description : String) :
    A.InStep Eq (expectAs meaning? description) (expectAs meaning? description) := by
  refine (inStep_acceptAs meaning?).bindEq fun meaning => ?_
  cases meaning with
  | some => exact inStep_pure rfl
  | none => exact inStep_mismatch _

theorem inStep_expectEnd : A.InStep Eq expectEnd expectEnd := by
  intro ts us tokens
  cases tokens with
  | nil => exact ⟨.ok rfl .nil, .none⟩
  | cons same rest =>
    have tokens : A.Tokens (_ :: _) (_ :: _) := .cons same rest
    refine ⟨.error ?_, .none⟩
    rw [tokens.foundText]
    exact tokens.mismatchAt _

theorem inStep_ofTokens {read read' : Setting → List Token → Except Failure (α × List Token)}
    (same : ∀ ⦃ts us : List Token⦄, A.Tokens ts us → A.Outcomes values (read A.first ts) (read' A.second us)) :
    A.InStep values (ofTokens read) (ofTokens read') :=
  fun _ _ tokens => ⟨same tokens, .none⟩

theorem InStep.attempt {p q : Parser α} (tried : A.InStep values p q) :
    A.InStep (Option.Rel values) (attempt p) (attempt q) := by
  intro ts us tokens
  obtain ⟨outcome, met⟩ := tried tokens
  unfold Parser.attempt
  cases reply : p A.first ts with | mk result found =>
  cases reply' : q A.second us with | mk result' found' =>
  rw [reply, reply'] at outcome met
  cases outcome with
  | ok same rest => exact ⟨.ok (.some same) rest, met⟩
  | @error failure other same =>
    refine ⟨.ok .none tokens, furthestMet met ?_⟩
    rw [same.isUnsupported]
    split
    · exact .some same
    · exact .none

theorem InStep.repeatAtMost {step step' : α → Parser (Option α)}
    (inStep : ∀ ⦃a b : α⦄, values a b → A.InStep (Option.Rel values) (step a) (step' b)) (n : Nat) {a b : α}
    (same : values a b) : A.InStep values (repeatAtMost step n a) (repeatAtMost step' n b) := by
  induction n generalizing a b with
  | zero => exact inStep_pure same
  | succ n ih =>
    refine (inStep same).bind fun more more' same' => ?_
    cases same' with
    | some next => exact ih next
    | none => exact inStep_pure same

theorem InStep.repeated {step step' : α → Parser (Option α)}
    (inStep : ∀ ⦃a b : α⦄, values a b → A.InStep (Option.Rel values) (step a) (step' b)) {a b : α}
    (same : values a b) : A.InStep values (repeated step a) (repeated step' b) := by
  intro ts us tokens
  unfold Parser.repeated
  rw [tokens.length_eq]
  exact InStep.repeatAtMost inStep us.length same tokens

end Alignment

end MacroLift
