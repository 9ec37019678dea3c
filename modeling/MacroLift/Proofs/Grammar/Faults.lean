import Mathlib.Tactic.Choose
import MacroLift.Grammar.Macro
import MacroLift.Proofs.Grammar.Runs.Literals
import MacroLift.Proofs.Grammar.Steps

namespace MacroLift

open MacroLift.Parser

structure Reply.InGrammar {α : Type} (reply : Reply α) : Prop where
  outcome {failure : Failure} : reply.outcome = .error failure → failure.InGrammar
  met {failure : Failure} : reply.met = some failure → failure.InGrammar

/-- A parser that fails in the grammar only, whatever the tokens are. -/
def Parser.InGrammar {α : Type} (p : Parser α) : Prop :=
  ∀ setting ts, (p setting ts).InGrammar

variable {α β : Type} {setting : Setting} {ts : List Token} {first second failure : Failure}

theorem Failure.InGrammar.further (one : first.InGrammar) (other : second.InGrammar) :
    (first.further second).InGrammar := by
  unfold Failure.further
  split
  · exact other
  · exact one

theorem inGrammar_furthestMet {met more : Option Failure} (one : ∀ {failure}, met = some failure → failure.InGrammar)
    (other : ∀ {failure}, more = some failure → failure.InGrammar) (found : furthestMet met more = some failure) :
    failure.InGrammar := by
  cases met with
  | none =>
    cases more with
    | none => cases found
    | some => exact other found
  | some =>
    cases more with
    | none => exact one found
    | some =>
      cases found
      exact (one rfl).further (other rfl)

theorem inGrammar_mismatchAt {cause : Cause} (isSyntactic : cause.isSyntactic = true) :
    (mismatchAt setting ts cause).InGrammar := by
  unfold mismatchAt
  split
  · exact .inr rfl
  · exact .inl isSyntactic

namespace Parser

theorem inGrammar_pure (a : α) : (pure a : Parser α).InGrammar :=
  fun _ _ => ⟨nofun, nofun⟩

theorem InGrammar.bind {p : Parser α} {f : α → Parser β} (first : p.InGrammar) (second : ∀ a, (f a).InGrammar) :
    (p >>= f).InGrammar := by
  intro setting ts
  change (Parser.bind p f setting ts).InGrammar
  have one := first setting ts
  unfold Parser.bind
  cases reply : p setting ts with | mk outcome met =>
  rw [reply] at one
  cases outcome with
  | error =>
    refine ⟨fun failed => ?_, one.met⟩
    cases failed
    exact one.outcome rfl
  | ok found =>
    have other := second found.1 setting found.2
    exact ⟨other.outcome, inGrammar_furthestMet one.met other.met⟩

theorem InGrammar.attempt {p : Parser α} (tried : p.InGrammar) : (attempt p).InGrammar := by
  intro setting ts
  have one := tried setting ts
  unfold Parser.attempt
  cases reply : p setting ts with | mk outcome met =>
  rw [reply] at one
  cases outcome with
  | ok => exact ⟨nofun, one.met⟩
  | error failure =>
    refine ⟨nofun, inGrammar_furthestMet one.met fun given => ?_⟩
    split at given
    · cases given
      exact one.outcome rfl
    · cases given

theorem InGrammar.repeatAtMost {step : α → Parser (Option α)} (inGrammar : ∀ a, (step a).InGrammar) (n : Nat) (a : α) :
    (repeatAtMost step n a).InGrammar := by
  induction n generalizing a with
  | zero => exact inGrammar_pure a
  | succ n ih =>
    refine (inGrammar a).bind fun more => ?_
    cases more with
    | some next => exact ih next
    | none => exact inGrammar_pure a

theorem inGrammar_steps : {α : Type} → (steps : Steps α) → steps.parser.InGrammar
  | _, .read _ _ inGrammar => fun _ _ => ⟨inGrammar, nofun⟩
  | _, .bind first next => (inGrammar_steps first).bind fun a => inGrammar_steps (next a)
  | _, .attempt production => (inGrammar_steps production).attempt
  | _, .repeated step a => fun _ ts =>
    InGrammar.repeatAtMost (fun a => inGrammar_steps (step a)) ts.length a _ _

theorem IsStepwise.inGrammar {p : Parser α} (stepwise : p.IsStepwise) : p.InGrammar := by
  obtain ⟨steps, rfl⟩ := stepwise
  exact inGrammar_steps steps

theorem isStepwise_of_reads {p : Parser α} (alone : ∀ setting ts, (p setting ts).met = none)
    (inGrammar : ∀ {setting ts failure}, (p setting ts).outcome = .error failure → failure.InGrammar) :
    p.IsStepwise := by
  refine ⟨.read (fun setting ts => (p setting ts).outcome) (fun _ ts => ts) inGrammar, ?_⟩
  funext setting ts
  show (⟨(p setting ts).outcome, none⟩ : Reply α) = p setting ts
  rw [← alone setting ts]

theorem isStepwise_ofTokens {read : Setting → List Token → Except Failure (α × List Token)}
    (failed : ∀ {setting ts failure}, read setting ts = .error failure → failure.InGrammar) :
    (ofTokens read).IsStepwise :=
  ⟨.read read (fun _ ts => ts) failed, rfl⟩

theorem isStepwise_taken (read : Setting → List Token → α × List Token) :
    (ofTokens fun setting ts => .ok (read setting ts)).IsStepwise :=
  isStepwise_ofTokens nofun

theorem isStepwise_pure (a : α) : (pure a : Parser α).IsStepwise :=
  isStepwise_taken fun _ ts => (a, ts)

theorem IsStepwise.bind {p : Parser α} {f : α → Parser β} (first : p.IsStepwise) (second : ∀ a, (f a).IsStepwise) :
    (p >>= f).IsStepwise := by
  obtain ⟨steps, rfl⟩ := first
  choose next same using second
  exact ⟨.bind steps next, congrArg (steps.parser >>= ·) (funext same)⟩

theorem IsStepwise.ite {p q : Parser α} (test : Prop) [Decidable test] (whenTrue : p.IsStepwise)
    (whenFalse : q.IsStepwise) : (if test then p else q).IsStepwise := by
  split
  · exact whenTrue
  · exact whenFalse

theorem IsStepwise.attempt {p : Parser α} (tried : p.IsStepwise) : (attempt p).IsStepwise := by
  obtain ⟨steps, rfl⟩ := tried
  exact ⟨.attempt steps, rfl⟩

theorem IsStepwise.repeated {step : α → Parser (Option α)} (stepwise : ∀ a, (step a).IsStepwise) (a : α) :
    (repeated step a).IsStepwise := by
  choose next same using stepwise
  exact ⟨.repeated next a, congrArg (Parser.repeated · a) (funext same)⟩

theorem isStepwise_peek : peek.IsStepwise :=
  isStepwise_taken fun _ ts => (ts.head?.map Token.lexeme, ts)

theorem isStepwise_place : place.IsStepwise :=
  isStepwise_taken fun setting ts => (placeOf setting ts, ts)

theorem isStepwise_skip : skip.IsStepwise :=
  isStepwise_taken fun _ ts => ((), ts.tail)

theorem isStepwise_acceptAs (meaning? : Lexeme → Option α) : (acceptAs meaning?).IsStepwise := by
  refine isStepwise_of_reads (fun _ ts => ?_) fun {_ ts _} failed => ?_
  · cases ts with
    | nil => rfl
    | cons =>
      dsimp only [acceptAs]
      split <;> rfl
  · cases ts with
    | nil => cases failed
    | cons =>
      dsimp only [acceptAs] at failed
      split at failed <;> cases failed

theorem isStepwise_accept (lexeme : Lexeme) : (accept lexeme).IsStepwise := by
  refine isStepwise_of_reads (fun _ ts => ?_) fun {_ ts _} failed => ?_
  · cases ts with
    | nil => rfl
    | cons =>
      dsimp only [accept]
      split <;> rfl
  · cases ts with
    | nil => cases failed
    | cons =>
      dsimp only [accept] at failed
      split at failed <;> cases failed

theorem isStepwise_failAt {cause : Cause} (pos : Pos) (inGrammar : (⟨cause, pos⟩ : Failure).InGrammar) :
    (failAt cause pos : Parser α).IsStepwise := by
  show (ofTokens fun _ _ => .error ⟨cause, pos⟩ : Parser α).IsStepwise
  refine isStepwise_ofTokens fun failed => ?_
  cases failed
  exact inGrammar

theorem isStepwise_mismatch {cause : Cause} (isSyntactic : cause.isSyntactic = true) :
    (mismatch cause : Parser α).IsStepwise := by
  show (ofTokens fun setting ts => .error (mismatchAt setting ts cause) : Parser α).IsStepwise
  refine isStepwise_ofTokens fun failed => ?_
  cases failed
  exact inGrammar_mismatchAt isSyntactic

theorem isStepwise_expect (lexeme : Lexeme) (description : String) : (expect lexeme description).IsStepwise :=
  (isStepwise_accept lexeme).bind fun _ => .ite _ (isStepwise_pure _) (isStepwise_mismatch rfl)

theorem isStepwise_expectAs (meaning? : Lexeme → Option α) (description : String) :
    (expectAs meaning? description).IsStepwise := by
  refine (isStepwise_acceptAs meaning?).bind fun meaning => ?_
  cases meaning with
  | some => exact isStepwise_pure _
  | none => exact isStepwise_mismatch rfl

theorem isStepwise_expectEnd : expectEnd.IsStepwise := by
  refine isStepwise_of_reads (fun _ ts => ?_) fun {_ ts _} failed => ?_
  · cases ts <;> rfl
  · cases ts with
    | nil => cases failed
    | cons =>
      cases failed
      exact inGrammar_mismatchAt rfl

theorem IsStepwise.behindCommas {item : Parser α} (stepwise : item.IsStepwise) (items : List α) :
    (Parser.repeated (fun read => do
      if ← accept (.punct .comma) then
        let a ← item
        pure (some (read ++ [a]))
      else pure none) items).IsStepwise :=
  IsStepwise.repeated (fun _ => (isStepwise_accept _).bind fun _ =>
    .ite _ (stepwise.bind fun _ => isStepwise_pure _) (isStepwise_pure _)) items

theorem isStepwise_ident : ident.IsStepwise := by
  refine isStepwise_ofTokens fun failed => ?_
  split at failed
  · split at failed <;> cases failed
  · cases failed
    exact .inl rfl

theorem isStepwise_ctype : ctype.IsStepwise := by
  unfold ctype
  have name (pos : Pos) : Parser.IsStepwise (do
      let isStruct ← accept (.keyword .structKw)
      let name ← ident
      ofTokens fun _ ts => .ok (pointerLevels (.named pos name isStruct) ts)) :=
    (isStepwise_accept _).bind fun _ => isStepwise_ident.bind fun _ => isStepwise_taken _
  exact isStepwise_place.bind fun pos => (isStepwise_taken _).bind fun _ => isStepwise_peek.bind fun _ =>
    .ite _ ((isStepwise_mismatch rfl).bind fun _ => name pos) (name pos)

theorem error_of_map {read : Except Failure (α × List Token)} {f : α × List Token → β × List Token}
    (failed : read.map f = .error failure) : read = .error failure := by
  cases read with
  | ok => cases failed
  | error => exact congrArg Except.error (Except.error.inj failed)

theorem inGrammar_stringPieces (failed : stringPieces setting ts = .error failure) : failure.InGrammar := by
  fun_induction stringPieces setting ts with
  | case1 _ _ _ ih | case2 _ _ _ _ ih => exact ih (error_of_map failed)
  | case3 =>
    cases failed
    exact inGrammar_mismatchAt rfl
  | case4 => cases failed

theorem isStepwise_strings : strings.IsStepwise := by
  refine (isStepwise_ofTokens inGrammar_stringPieces).bind fun pieces => ?_
  split <;> exact isStepwise_pure _

theorem isStepwise_number (text : String) : (number text).IsStepwise := by
  refine isStepwise_place.bind fun pos => isStepwise_skip.bind fun _ => ?_
  split
  · exact isStepwise_failAt pos (.inl rfl)
  · exact .ite _ (isStepwise_pure _) ((isStepwise_taken _).bind fun _ => isStepwise_pure _)

theorem inGrammar_templateLines (failed : templateLines setting ts = .error failure) : failure.InGrammar := by
  fun_induction templateLines setting ts with
  | case1 _ _ _ ih | case2 _ _ _ _ ih => exact ih (error_of_map failed)
  | case3 =>
    cases failed
    exact inGrammar_mismatchAt rfl
  | case4 => cases failed

theorem inGrammar_moreClobbers (failed : moreClobbers setting ts = .error failure) : failure.InGrammar := by
  fun_induction moreClobbers setting ts with
  | case1 _ _ _ _ ih => exact ih (error_of_map failed)
  | case2 =>
    cases failed
    exact inGrammar_mismatchAt rfl
  | case3 => cases failed

theorem isStepwise_clobbers : clobbers.IsStepwise := by
  refine (isStepwise_acceptAs _).bind fun first => ?_
  cases first with
  | none => exact isStepwise_pure _
  | some => exact (isStepwise_ofTokens inGrammar_moreClobbers).bind fun _ => isStepwise_pure _

structure NestedStepwise (nested : Nested) : Prop where
  statement : nested.statement.IsStepwise
  expression : nested.expression.IsStepwise
  conditional : nested.conditional.IsStepwise
  operand : nested.operand.IsStepwise

section

variable {nested : Nested} (inner : NestedStepwise nested)

include inner

theorem isStepwise_primary : (primary nested).IsStepwise := by
  refine isStepwise_peek.bind fun next => ?_
  split
  · exact isStepwise_strings
  · exact isStepwise_strings
  · exact isStepwise_number _
  · exact isStepwise_place.bind fun _ => isStepwise_skip.bind fun _ => isStepwise_pure _
  · exact isStepwise_place.bind fun _ => isStepwise_ident.bind fun _ => isStepwise_pure _
  · exact isStepwise_skip.bind fun _ => inner.expression.bind fun _ => (isStepwise_expect _ _).bind fun _ =>
      isStepwise_pure _
  · exact isStepwise_mismatch rfl

theorem isStepwise_call (callee : Expr) : (call nested callee).IsStepwise := by
  cases callee with
  | name =>
    exact (isStepwise_accept _).bind fun _ => .ite _ (isStepwise_pure _) (inner.expression.bind fun _ =>
      (inner.expression.behindCommas _).bind fun _ => (isStepwise_expect _ _).bind fun _ => isStepwise_pure _)
  | _ => exact isStepwise_failAt _ (.inr rfl)

theorem isStepwise_chain (e : Expr) : (chain nested e).IsStepwise := by
  have link (e : Expr) : (chainLink nested e).IsStepwise := by
    refine isStepwise_peek.bind fun next => ?_
    split
    · exact isStepwise_skip.bind fun _ => (isStepwise_call inner e).bind fun _ => isStepwise_pure _
    · exact isStepwise_skip.bind fun _ => isStepwise_ident.bind fun _ => isStepwise_pure _
    · exact isStepwise_skip.bind fun _ => isStepwise_ident.bind fun _ => isStepwise_pure _
    · exact isStepwise_pure _
  refine (IsStepwise.repeated link e).bind fun linked => (isStepwise_acceptAs _).bind fun op => ?_
  cases op <;> exact isStepwise_pure _

theorem isStepwise_asmOperand : (asmOperand nested).IsStepwise := by
  have name : asmName.IsStepwise := (isStepwise_accept _).bind fun _ =>
    .ite _ ((isStepwise_expectAs _ _).bind fun _ => (isStepwise_expect _ _).bind fun _ => isStepwise_pure _)
      (isStepwise_pure _)
  exact isStepwise_place.bind fun _ => name.bind fun _ => (isStepwise_expectAs _ _).bind fun _ =>
    (isStepwise_expect _ _).bind fun _ => inner.expression.bind fun _ => (isStepwise_expect _ _).bind fun _ =>
    isStepwise_pure _

theorem isStepwise_asmOperands : (asmOperands nested).IsStepwise := by
  have operand : (asmOperand nested).IsStepwise := isStepwise_asmOperand inner
  refine isStepwise_peek.bind fun next => ?_
  split
  · exact operand.bind fun first => operand.behindCommas [first]
  · exact operand.bind fun first => operand.behindCommas [first]
  · exact isStepwise_pure _

theorem isStepwise_asmSections : (asmSections nested).IsStepwise := by
  refine (isStepwise_accept _).bind fun _ => .ite _ ?_ (isStepwise_pure _)
  refine (isStepwise_asmOperands inner).bind fun _ => (isStepwise_accept _).bind fun _ => .ite _ ?_ (isStepwise_pure _)
  refine (isStepwise_asmOperands inner).bind fun _ => (isStepwise_accept _).bind fun _ => .ite _ ?_ (isStepwise_pure _)
  exact isStepwise_clobbers.bind fun _ => isStepwise_pure _

theorem isStepwise_assembly (pos : Pos) : (assembly nested pos).IsStepwise :=
  (isStepwise_accept _).bind fun _ => (isStepwise_expect _ _).bind fun _ => (isStepwise_expectAs _ _).bind fun _ =>
    (isStepwise_ofTokens inGrammar_templateLines).bind fun _ => (isStepwise_asmSections inner).bind fun _ =>
    (isStepwise_expect _ _).bind fun _ => isStepwise_pure _

theorem isStepwise_cast : (cast nested).IsStepwise := by
  unfold cast
  refine isStepwise_place.bind fun pos => (isStepwise_expect _ _).bind fun _ => isStepwise_ctype.bind fun target =>
    (isStepwise_expect _ _).bind fun _ => isStepwise_peek.bind fun _ => ?_
  have isParameter : Parser.IsStepwise
      (fun setting ts => ⟨.ok ((bareName? target).any setting.parameters.contains, ts), none⟩) :=
    isStepwise_taken fun setting ts => ((bareName? target).any setting.parameters.contains, ts)
  have operand := inner.operand.bind fun operand => isStepwise_pure (Expr.cast pos target operand)
  exact isParameter.bind fun _ => .ite _ ((isStepwise_failAt _ (.inl rfl)).bind fun _ => operand) operand

theorem isStepwise_postfixed : (postfixed nested).IsStepwise := by
  refine (isStepwise_primary inner).bind fun e => .ite _ (isStepwise_pure _) (.ite _ ?_ (isStepwise_chain inner e))
  refine (isStepwise_assembly inner _).attempt.bind fun result => ?_
  cases result with
  | some => exact isStepwise_pure _
  | none => exact isStepwise_chain inner e

theorem isStepwise_prefixed : (prefixed nested).IsStepwise := by
  refine isStepwise_peek.bind fun next => ?_
  split
  · refine (isStepwise_cast inner).attempt.bind fun result => ?_
    cases result with
    | some => exact isStepwise_pure _
    | none => exact isStepwise_postfixed inner
  · exact isStepwise_place.bind fun _ => isStepwise_skip.bind fun _ => inner.operand.bind fun _ => isStepwise_pure _
  · split
    · exact isStepwise_place.bind fun _ => isStepwise_skip.bind fun _ => inner.operand.bind fun _ => isStepwise_pure _
    · exact isStepwise_postfixed inner

omit inner in
theorem IsStepwise.leftChain {op? : Lexeme → Option BinaryOp} {operand : Parser Expr} (stepwise : operand.IsStepwise) :
    (leftChain op? operand).IsStepwise := by
  refine stepwise.bind fun first => IsStepwise.repeated (fun left => (isStepwise_acceptAs _).bind fun op => ?_) first
  cases op with
  | none => exact isStepwise_pure _
  | some => exact stepwise.bind fun _ => isStepwise_pure _

theorem isStepwise_conditional : (conditional nested).IsStepwise := by
  have equality : (equality nested).IsStepwise :=
    (isStepwise_prefixed inner).leftChain.leftChain.leftChain.leftChain.leftChain
  exact equality.bind fun _ => (isStepwise_accept _).bind fun _ =>
    .ite _ (inner.conditional.bind fun _ => (isStepwise_expect _ _).bind fun _ => inner.conditional.bind fun _ =>
      isStepwise_pure _) (isStepwise_pure _)

theorem isStepwise_expression : (expression nested).IsStepwise := by
  refine (isStepwise_conditional inner).bind fun first =>
    IsStepwise.repeated (fun target => (isStepwise_acceptAs _).bind fun op => ?_) first
  cases op with
  | none => exact isStepwise_pure _
  | some => exact inner.conditional.bind fun _ => isStepwise_pure _

theorem isStepwise_block : (block nested).IsStepwise := by
  have body : (blockBody nested).IsStepwise := by
    refine IsStepwise.repeated (fun read => isStepwise_peek.bind fun next => ?_) []
    split
    · exact isStepwise_pure _
    · exact isStepwise_pure _
    · exact inner.statement.bind fun _ => isStepwise_pure _
  exact isStepwise_place.bind fun _ => (isStepwise_expect _ _).bind fun _ => body.bind fun _ =>
    (isStepwise_expect _ _).bind fun _ => isStepwise_pure _

theorem isStepwise_branch : (branch nested).IsStepwise :=
  inner.statement.bind fun _ => isStepwise_pure _

theorem isStepwise_condition : (condition nested).IsStepwise :=
  (isStepwise_expect _ _).bind fun _ => inner.expression.bind fun _ => (isStepwise_expect _ _).bind fun _ =>
    isStepwise_pure _

theorem isStepwise_choice : (choice nested).IsStepwise :=
  isStepwise_place.bind fun _ => isStepwise_skip.bind fun _ => (isStepwise_condition inner).bind fun _ =>
    (isStepwise_branch inner).bind fun _ => (isStepwise_accept _).bind fun _ =>
    .ite _ ((isStepwise_branch inner).bind fun _ => isStepwise_pure _) (isStepwise_pure _)

theorem isStepwise_loop : (loop nested).IsStepwise :=
  isStepwise_place.bind fun _ => isStepwise_skip.bind fun _ => (isStepwise_branch inner).bind fun _ =>
    (isStepwise_expect _ _).bind fun _ => (isStepwise_condition inner).bind fun _ => (isStepwise_accept _).bind fun _ =>
    isStepwise_pure _

theorem isStepwise_declaration : (declaration nested).IsStepwise := by
  refine isStepwise_place.bind fun pos => (isStepwise_accept _).bind fun isStaticBefore =>
    isStepwise_ctype.bind fun type => ?_
  have declared (isStatic : Bool) : Parser.IsStepwise (do
      let name ← ident
      expect (.punct .assign) "'=' in declaration"
      let value ← nested.expression
      expect (.punct .semicolon) "';'"
      pure (Stmt.declare pos type name value isStatic)) :=
    isStepwise_ident.bind fun _ => (isStepwise_expect _ _).bind fun _ => inner.expression.bind fun _ =>
      (isStepwise_expect _ _).bind fun _ => isStepwise_pure _
  exact .ite _ ((isStepwise_pure _).bind declared) ((isStepwise_accept _).bind declared)

theorem isStepwise_statement : (statement nested).IsStepwise := by
  refine isStepwise_peek.bind fun next => ?_
  split
  · exact isStepwise_block inner
  · exact isStepwise_choice inner
  · exact isStepwise_loop inner
  · refine (isStepwise_declaration inner).attempt.bind fun result => ?_
    cases result with
    | some => exact isStepwise_pure _
    | none => exact (isStepwise_expression inner).bind fun _ => (isStepwise_expect _ _).bind fun _ => isStepwise_pure _

end

theorem nestedStepwise_forTokens (n : Nat) : NestedStepwise (.forTokens n) := by
  induction n with
  | zero =>
    exact ⟨isStepwise_mismatch rfl, isStepwise_mismatch rfl, isStepwise_mismatch rfl, isStepwise_mismatch rfl⟩
  | succ n ih =>
    exact ⟨isStepwise_statement ih, isStepwise_expression ih, isStepwise_conditional ih, isStepwise_prefixed ih⟩

theorem IsStepwise.whole {p : Parser α} (stepwise : p.IsStepwise) : (whole p).IsStepwise :=
  stepwise.bind fun _ => isStepwise_expectEnd.bind fun _ => isStepwise_pure _

theorem inGrammar_parameterNames {names : Except Failure (List String × List Token)}
    (read : parameterNames setting ts = names) (failed : names = .error failure) : failure.InGrammar := by
  subst read
  fun_induction parameterNames setting ts with
  | case1 | case3 => cases failed
  | case2 _ _ _ _ ih => exact ih (error_of_map failed)
  | case4 =>
    cases failed
    exact inGrammar_mismatchAt rfl

theorem isStepwise_signature : signature.IsStepwise := by
  unfold signature
  have behind (pos : Pos) (name : String) (parameters : List String) : Parser.IsStepwise (do
      expect (.punct .rightParen) "')'"
      expectEnd
      pure (⟨pos, name, parameters⟩ : Signature)) :=
    (isStepwise_expect _ _).bind fun _ => isStepwise_expectEnd.bind fun _ => isStepwise_pure _
  exact isStepwise_place.bind fun pos => (isStepwise_expectAs _ _).bind fun name =>
    (isStepwise_expect _ _).bind fun _ => isStepwise_peek.bind fun _ => .ite _ ((isStepwise_pure _).bind (behind pos name))
      ((isStepwise_ofTokens (inGrammar_parameterNames rfl)).bind (behind pos name))

theorem inGrammar_signature : signature.InGrammar :=
  isStepwise_signature.inGrammar

theorem inGrammar_body (failed : body setting ts = .error failure) : failure.InGrammar := by
  have grammar := nestedStepwise_forTokens ts.length
  have asStatement := grammar.statement.whole.inGrammar setting ts
  have asExpression := grammar.expression.whole.inGrammar setting ts
  unfold body at failed
  dsimp only at failed
  generalize whole (Nested.forTokens ts.length).statement setting ts = first at *
  generalize whole (Nested.forTokens ts.length).expression setting ts = second at *
  obtain ⟨outcome, met⟩ := first
  obtain ⟨outcome', met'⟩ := second
  split at failed
  · cases failed
  · cases outcome with
    | ok => cases failed
    | error first =>
      dsimp only at failed
      split at failed
      · cases failed
        exact asStatement.outcome rfl
      · cases outcome' with
        | ok => cases failed
        | error second =>
          dsimp only at failed
          split at failed
          · cases failed
            exact asExpression.outcome rfl
          · cases failed
            have furthest := (asStatement.outcome rfl).further (asExpression.outcome rfl)
            unfold bodyFailure
            dsimp only
            split
            · split
              · exact furthest
              · rename_i found _
                exact inGrammar_furthestMet asStatement.met asExpression.met found
            · exact furthest

end Parser

end MacroLift
