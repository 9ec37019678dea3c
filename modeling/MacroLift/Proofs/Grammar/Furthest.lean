import MacroLift.Proofs.Token.Order
import MacroLift.Proofs.Grammar.Speculation
import MacroLift.Proofs.Grammar.Declared

namespace MacroLift

open MacroLift.Parser

variable {α : Type} {setting : Setting} {ts : List Token} {first second failure : Failure}
  {failures failures' noted : List Failure} {met : Option Failure}

theorem Pos.not_lt_trans {p q r : Pos} (first : ¬ q < p) (second : ¬ r < q) : ¬ r < p := by
  rw [lt_iff] at *
  omega

theorem Failure.further_mem (first second : Failure) :
    first.further second = first ∨ first.further second = second := by
  unfold further
  split
  · exact .inr rfl
  · exact .inl rfl

theorem Failure.further_last (first second : Failure) :
    ¬ (first.further second).pos < first.pos ∧ ¬ (first.further second).pos < second.pos := by
  unfold further
  split
  · rename_i behind
    exact ⟨fun before => Pos.lt_irrefl _ (Pos.lt_trans behind before), Pos.lt_irrefl _⟩
  · rename_i before
    exact ⟨Pos.lt_irrefl _, before⟩

structure Furthest (failures : List Failure) (failure : Failure) : Prop where
  mem : failure ∈ failures
  last : ∀ other ∈ failures, ¬ failure.pos < other.pos

theorem furthest_singleton (failure : Failure) : Furthest [failure] failure :=
  ⟨List.mem_singleton_self failure, List.forall_mem_singleton.mpr (Pos.lt_irrefl failure.pos)⟩

theorem Furthest.further (one : Furthest failures first) (other : Furthest failures' second) :
    Furthest (failures ++ failures') (first.further second) where
  mem := by
    rcases first.further_mem second with same | same
    · rw [same]
      exact List.mem_append_left _ one.mem
    · rw [same]
      exact List.mem_append_right _ other.mem
  last := by
    obtain ⟨notFirst, notSecond⟩ := first.further_last second
    exact List.forall_mem_append.mpr ⟨fun failure member => Pos.not_lt_trans (one.last failure member) notFirst,
      fun failure member => Pos.not_lt_trans (other.last failure member) notSecond⟩

theorem eq_nil_of_furthestOf (none : furthestOf noted = none) : noted = [] := by
  cases noted with
  | nil => rfl
  | cons construct noted =>
    unfold furthestOf at none
    cases more : furthestOf noted <;> rw [more] at none <;> cases none

theorem furthest_furthestOf (found : furthestOf noted = some failure) : Furthest noted failure := by
  induction noted generalizing failure with
  | nil => cases found
  | cons construct noted ih =>
    unfold furthestOf at found
    cases more : furthestOf noted with
    | none =>
      rw [more] at found
      cases found
      rw [eq_nil_of_furthestOf more]
      exact furthest_singleton construct
    | some furthest =>
      rw [more] at found
      cases found
      exact (furthest_singleton construct).further (ih more)

theorem furthest_bodyFailure (first second : Failure) (record : Noted noted met) :
    Furthest (noted ++ [first, second]) (bodyFailure first second met) ∧
      ∀ construct ∈ noted, construct.pos = (bodyFailure first second met).pos →
        (bodyFailure first second met).isUnsupported = true := by
  have both : Furthest [first, second] (first.further second) :=
    (furthest_singleton first).further (furthest_singleton second)
  cases met with
  | none =>
    cases eq_nil_of_furthestOf record.furthest
    exact ⟨both, nofun⟩
  | some construct =>
    have furthest := furthest_furthestOf record.furthest
    refine ⟨furthest.further both, fun other member same => ?_⟩
    have told : bodyFailure first second (some construct) = construct.further (first.further second) := rfl
    rw [told, Failure.further] at same ⊢
    split at same
    · rename_i before
      rw [← same] at before
      exact absurd before (furthest.last other member)
    · rename_i behind
      rw [if_neg behind]
      exact record.foreign construct furthest.mem

theorem Failure.raised_zero (failure : Failure) : failure.raised 0 = failure := by
  simp [raised]

theorem Failure.notes_zero (failure : Failure) : failure.notes 0 = [] := by
  simp [notes]

theorem Failure.InGrammar.isSyntactic_eq (inGrammar : failure.InGrammar) :
    failure.cause.isSyntactic = !failure.isUnsupported := by
  rw [failure.isUnsupported_cause]
  unfold Failure.InGrammar at inGrammar
  generalize failure.cause = cause at inGrammar ⊢
  rcases inGrammar with isSyntactic | isUnsupported
  · cases cause with
    | unsupported => cases isSyntactic
    | _ => exact isSyntactic
  · cases cause with
    | unsupported => rfl
    | _ => cases isUnsupported

namespace Session

variable {s s' : Session} {reply : Reply α} {outcome : Except Failure α}

theorem noted_later (before : Noted s.noted s.record) (foreign : ∀ construct ∈ noted, construct.isUnsupported = true)
    (rest : List Token) : Noted (s.later noted rest).noted (s.later noted rest).record :=
  before.append ⟨rfl, foreign⟩

theorem Carries.noted_record (h : s.Carries reply (outcome, s')) (before : Noted s.noted s.record) :
    Noted s'.noted s'.record := by
  cases h with
  | ok record => exact noted_later before record.foreign _
  | error rest record =>
    refine noted_later before (List.forall_mem_append.mpr ⟨record.foreign, fun construct member => ?_⟩) rest
    unfold Failure.notes at member
    split at member
    · rename_i found
      cases List.mem_singleton.mp member
      exact (Bool.and_eq_true_iff.mp found).1
    · cases member

theorem Carries.failed (h : s.Carries reply (.error failure, s')) (outside : s.depth = 0) :
    reply.outcome = .error failure := by
  cases h with
  | error rest record => rw [outside, Failure.raised_zero]

end Session

open Session

/-- The steps in which a text of so many tokens is read as a statement and as an expression. -/
structure BodySteps (n : Nat) where
  asStatement : Steps Stmt
  asExpression : Steps Expr
  statement : asStatement.parser = whole (Nested.forTokens n).statement
  expression : asExpression.parser = whole (Nested.forTokens n).expression

namespace BodySteps

theorem nonempty (n : Nat) : Nonempty (BodySteps n) :=
  match (nestedStepwise_forTokens n).statement.whole, (nestedStepwise_forTokens n).expression.whole with
  | ⟨asStatement, statement⟩, ⟨asExpression, expression⟩ =>
    ⟨⟨asStatement, asExpression, statement, expression⟩⟩

def run (steps : BodySteps ts.length) (setting : Setting) : Except Failure Body × Session :=
  readBody setting steps.asStatement steps.asExpression ⟨ts, 0, none, []⟩

theorem run_outcome (steps : BodySteps ts.length) (setting : Setting) :
    (steps.run setting).1 = Parser.body setting ts := by
  have grammar := nestedStepwise_forTokens ts.length
  have fault := grammar.statement.whole.inGrammar setting ts
  have fault' := grammar.expression.whole.inGrammar setting ts
  have one := steps.asStatement.carries setting ⟨ts, 0, none, []⟩
  have other := fun s : Session => steps.asExpression.carries setting { s with rest := ts }
  rw [steps.statement] at one
  rw [steps.expression] at other
  unfold run readBody Parser.body
  dsimp only at one other ⊢
  generalize steps.asStatement.run setting ⟨ts, 0, none, []⟩ = result at one ⊢
  generalize whole (Nested.forTokens ts.length).statement setting ts = reply at one fault ⊢
  generalize whole (Nested.forTokens ts.length).expression setting ts = reply' at other fault' ⊢
  by_cases empty : ts.isEmpty = true
  · rw [if_pos empty, if_pos empty]
  rw [if_neg empty, if_neg empty]
  -- the expression is tried on what is on record of the statement
  cases one with
  | ok => rfl
  | @error first noted met rest record =>
    dsimp only
    rw [Failure.raised_zero, Failure.notes_zero, (fault.outcome rfl).isSyntactic_eq]
    cases first.isUnsupported with
    | true => rfl
    | false =>
      simp only [Bool.not_false, Bool.false_eq_true, if_true, if_false]
      specialize other (later ⟨ts, 0, none, []⟩ (noted ++ []) rest)
      generalize steps.asExpression.run setting _ = result at other ⊢
      cases other with
      | ok => rfl
      | @error second noted' met' rest' record' =>
        dsimp only [later]
        rw [Failure.raised_zero, Failure.notes_zero, (fault'.outcome rfl).isSyntactic_eq]
        cases second.isUnsupported with
        | true => rfl
        | false =>
          rw [List.append_nil, List.append_nil, record.furthest, record'.furthest, none_furthestMet]
          rfl

/-- How a body is rejected: at once, for C outside the grammar that is met outside every alternative, or after both
    readings, with the furthest of what they ended with and of what was noted in their alternatives. -/
inductive Rejects (steps : BodySteps ts.length) (setting : Setting) (failure : Failure) (s : Session) : Prop
  | atOnce (foreign : failure.isUnsupported = true)
      (asStatement : steps.asStatement.run setting ⟨ts, 0, none, []⟩ = (.error failure, s))
  | afterBoth {first second : Failure} {s' : Session}
      (asStatement : steps.asStatement.run setting ⟨ts, 0, none, []⟩ = (.error first, s'))
      (asExpression : steps.asExpression.run setting { s' with rest := ts } = (.error second, s))
      (furthest : Furthest (s.noted ++ [first, second]) failure)
      (foreign : ∀ construct ∈ s.noted, construct.pos = failure.pos → failure.isUnsupported = true)

section

variable (steps : BodySteps ts.length) {s s' : Session}
  (asStatement : steps.asStatement.run setting ⟨ts, 0, none, []⟩ = (.error first, s))

include asStatement

theorem statement_failed :
    FailsWith (whole (Nested.forTokens ts.length).statement) setting ts first ∧ s.depth = 0 := by
  have carried := steps.asStatement.carries setting ⟨ts, 0, none, []⟩
  rw [steps.statement, asStatement] at carried
  exact ⟨carried.failed rfl, carried.depth⟩

theorem isSyntactic_first : first.cause.isSyntactic = !first.isUnsupported := by
  have grammar := nestedStepwise_forTokens ts.length
  have inGrammar := (grammar.statement.whole.inGrammar setting ts).outcome (steps.statement_failed asStatement).1
  exact inGrammar.isSyntactic_eq

theorem isSyntactic_second (nonempty : ts ≠ []) (caught : first.cause.isSyntactic = true)
    (asExpression : steps.asExpression.run setting { s with rest := ts } = (.error second, s')) :
    second.cause.isSyntactic = true := by
  obtain ⟨failed, outside⟩ := steps.statement_failed asStatement
  have carried := steps.asExpression.carries setting { s with rest := ts }
  rw [steps.expression, asExpression] at carried
  have failed' := carried.failed outside
  have plain : first.isUnsupported = false := by
    rw [steps.isSyntactic_first asStatement] at caught
    simpa using caught
  have inGrammar := ((nestedStepwise_forTokens ts.length).expression.whole.inGrammar setting ts).outcome failed'
  rw [inGrammar.isSyntactic_eq, expression_plain nonempty failed plain failed']
  rfl

end

theorem rejects (steps : BodySteps ts.length) {s : Session} (ran : steps.run setting = (.error failure, s)) :
    steps.Rejects setting failure s := by
  unfold run readBody at ran
  dsimp only at ran
  split at ran
  · cases ran
  rename_i nonempty
  split at ran
  · cases ran
  rename_i first s' asStatement
  split at ran
  · rename_i caught
    split at ran
    · cases ran
    rename_i second s'' asExpression
    rw [if_pos (steps.isSyntactic_second asStatement (by simpa using nonempty) caught asExpression)] at ran
    cases ran
    have one := asStatement ▸ steps.asStatement.carries setting ⟨ts, 0, none, []⟩
    have other := asExpression ▸ steps.asExpression.carries setting { s' with rest := ts }
    obtain ⟨furthest, foreign⟩ := furthest_bodyFailure first second (other.noted_record (one.noted_record noted_nil))
    exact .afterBoth asStatement asExpression furthest foreign
  · rename_i through
    cases ran
    rw [steps.isSyntactic_first asStatement] at through
    exact .atOnce (by simpa using through) asStatement

end BodySteps

/-- A body that is rejected is rejected with the furthest of all that went wrong. Only C outside the grammar that no
    alternative holds is told at once. -/
theorem body_tells_furthest (failed : Parser.body setting ts = .error failure) :
    Nonempty (BodySteps ts.length) ∧ ∀ steps : BodySteps ts.length,
      ∃ s, steps.run setting = (.error failure, s) ∧ steps.Rejects setting failure s := by
  refine ⟨BodySteps.nonempty ts.length, fun steps => ?_⟩
  have ran : steps.run setting = (.error failure, (steps.run setting).2) :=
    Prod.ext ((steps.run_outcome setting).trans failed) rfl
  exact ⟨_, ran, steps.rejects ran⟩

theorem body_tells_furthest_mask :
    ∃ (steps : BodySteps [(⟨.name "T", ⟨1, 1⟩⟩ : Token), ⟨.name "x", ⟨1, 3⟩⟩, ⟨.punct .assign, ⟨1, 5⟩⟩,
        ⟨.name "a", ⟨1, 7⟩⟩, ⟨.punct .ampersand, ⟨1, 9⟩⟩, ⟨.name "b", ⟨1, 11⟩⟩, ⟨.punct .semicolon, ⟨1, 12⟩⟩].length)
      (s : Session), steps.run ⟨⟨1, 13⟩, []⟩ = (.error ⟨.unsupported "bitwise operator '&'", ⟨1, 9⟩⟩, s) ∧
        steps.Rejects ⟨⟨1, 13⟩, []⟩ ⟨.unsupported "bitwise operator '&'", ⟨1, 9⟩⟩ s := by
  have failed : Parser.body ⟨⟨1, 13⟩, []⟩ [⟨.name "T", ⟨1, 1⟩⟩, ⟨.name "x", ⟨1, 3⟩⟩, ⟨.punct .assign, ⟨1, 5⟩⟩,
      ⟨.name "a", ⟨1, 7⟩⟩, ⟨.punct .ampersand, ⟨1, 9⟩⟩, ⟨.name "b", ⟨1, 11⟩⟩, ⟨.punct .semicolon, ⟨1, 12⟩⟩] =
      .error ⟨.unsupported "bitwise operator '&'", ⟨1, 9⟩⟩ := rfl
  obtain ⟨⟨steps⟩, rejects⟩ := body_tells_furthest failed
  exact ⟨steps, rejects steps⟩

/-- In `(T) & (a | b)` a cast is tried up to the second operator, but the first one is told. -/
theorem body_tells_first_operator :
    ∃ (steps : BodySteps 9) (s : Session), readBody ⟨⟨1, 14⟩, []⟩ steps.asStatement steps.asExpression
        ⟨[⟨.punct .leftParen, ⟨1, 1⟩⟩, ⟨.name "T", ⟨1, 2⟩⟩, ⟨.punct .rightParen, ⟨1, 3⟩⟩, ⟨.punct .ampersand, ⟨1, 5⟩⟩,
          ⟨.punct .leftParen, ⟨1, 7⟩⟩, ⟨.name "a", ⟨1, 8⟩⟩, ⟨.punct .pipe, ⟨1, 10⟩⟩, ⟨.name "b", ⟨1, 12⟩⟩,
          ⟨.punct .rightParen, ⟨1, 13⟩⟩], 0, none, []⟩ =
          (.error ⟨.unsupported "bitwise operator '&'", ⟨1, 5⟩⟩, s) ∧
      ∃ construct ∈ s.noted, (⟨1, 5⟩ : Pos) < construct.pos := by
  obtain ⟨steps⟩ := BodySteps.nonempty 9
  have carried := steps.asStatement.carries ⟨⟨1, 14⟩, []⟩ ⟨[⟨.punct .leftParen, ⟨1, 1⟩⟩, ⟨.name "T", ⟨1, 2⟩⟩,
    ⟨.punct .rightParen, ⟨1, 3⟩⟩, ⟨.punct .ampersand, ⟨1, 5⟩⟩, ⟨.punct .leftParen, ⟨1, 7⟩⟩, ⟨.name "a", ⟨1, 8⟩⟩,
    ⟨.punct .pipe, ⟨1, 10⟩⟩, ⟨.name "b", ⟨1, 12⟩⟩, ⟨.punct .rightParen, ⟨1, 13⟩⟩], 0, none, []⟩
  rw [steps.statement] at carried
  refine ⟨steps, ?_⟩
  unfold readBody
  generalize steps.asStatement.run _ _ = result at carried ⊢
  replace carried : Carries _ ⟨.error ⟨.unsupported "bitwise operator '&'", ⟨1, 5⟩⟩,
    some ⟨.unsupported "bitwise operator '|'", ⟨1, 10⟩⟩⟩ result := carried
  cases carried with
  | error rest record =>
    refine ⟨_, rfl, _, List.mem_append_right _ (List.mem_append_left _ (furthest_furthestOf record.furthest).mem), ?_⟩
    decide

end MacroLift
