import MacroLift.Proofs.Grammar.Completeness

namespace MacroLift

open MacroLift.Parser

variable {setting : Setting} {ts us rest rest' : List Token} {e b : Expr} {next : Option Lexeme} {n rank : Nat}

/-- An operand can be over in front of these tokens, and where they could begin one, they do. -/
structure Proper (setting : Setting) (rest : List Token) : Prop where
  follows : followsOperand (ahead rest none) = true
  operand : (ahead rest none).any startsOperand = true →
    ∃ us vs e, rest = us ++ vs ∧ Reads setting.parameters (.expr 8) us e (ahead vs none)

theorem Proper.of_mark (follows : followsOperand (ahead rest none) = true)
    (noStart : (ahead rest none).any startsOperand = false) : Proper setting rest where
  follows := follows
  operand := by simp [noStart]

/-- The parser takes the tokens of a reading from a short enough text, where an operand can be over behind them. -/
def Exact (phrase : Phrase) (p : Parser phrase.Tree) (setting : Setting) (size : Nat) : Prop :=
  ∀ ⦃ts : List Token⦄ ⦃tree : phrase.Tree⦄ ⦃rest : List Token⦄, ts.length ≤ size → Parses p setting ts tree rest →
    Proper setting rest → ∃ used, ts = used ++ rest ∧ Reads setting.parameters phrase used tree (ahead rest none)

def ExactAnywhere (phrase : Phrase) (p : Parser phrase.Tree) (setting : Setting) (size : Nat) : Prop :=
  ∀ ⦃ts : List Token⦄ ⦃tree : phrase.Tree⦄ ⦃rest : List Token⦄, ts.length ≤ size → Parses p setting ts tree rest →
    ∃ used, ts = used ++ rest ∧ Reads setting.parameters phrase used tree (ahead rest none)

structure ExactNested (setting : Setting) (n : Nat) : Prop where
  statement : ExactAnywhere .statement (Nested.forTokens n).statement setting n
  expression : Exact (.expr 1) (Nested.forTokens n).expression setting n
  conditional : Exact (.expr 2) (Nested.forTokens n).conditional setting n
  operand : Exact (.expr 8) (Nested.forTokens n).operand setting n

theorem Reads.leadingOperand {parameters : List String} {phrase : Phrase} {tree : phrase.Tree}
    (h : Reads parameters phrase ts tree next) : ∀ rank, phrase = .expr rank → rank ≤ 9 →
    ∃ us vs e, ts = us ++ vs ∧ Reads parameters (.expr 8) us e (ahead vs next) := by
  -- along the first operands of operations, down to what binds tighter than any
  induction h with
  | name | number | character | piece | pieces | parens =>
    rintro _ same high
    cases same
    omega
  | @closed ts e _ inner whole follow =>
    exact fun _ _ _ => ⟨ts, [], e, by simp, .tighter (by omega) (by omega) (.closed inner whole follow)⟩
  | @chained ts e _ inner follow noCast =>
    exact fun _ _ _ => ⟨ts, [], e, by simp, .tighter (by omega) (by omega) (.chained inner follow noCast)⟩
  | step pos isStep inner follow noCast =>
    exact fun _ _ _ => ⟨_, [], _, (List.append_nil _).symm,
      .tighter (by omega) (by omega) (.step pos isStep inner follow noCast)⟩
  | assembly openPos firstPos closePos first opener isWord marked more behind follow noCast =>
    exact fun _ _ _ => ⟨_, [], _, (List.append_nil _).symm, .tighter (by omega) (by omega)
      (.assembly openPos firstPos closePos first opener isWord marked more behind follow noCast)⟩
  | cast openPos closePos type operand noParameter =>
    exact fun _ _ _ => ⟨_, [], _, (List.append_nil _).symm, .cast openPos closePos type operand noParameter⟩
  | addressOf pos operand => exact fun _ _ _ => ⟨_, [], _, (List.append_nil _).symm, .addressOf pos operand⟩
  | before op pos operand => exact fun _ _ _ => ⟨_, [], _, (List.append_nil _).symm, .before op pos operand⟩
  | binary op pos _ _ ih =>
    intro _ _ _
    have bounds := op.rank_bounds
    obtain ⟨us, vs, e, rfl, read⟩ := ih op.rank rfl (by omega)
    exact ⟨us, vs ++ _, e, List.append_assoc .., by simpa using read⟩
  | ternary _ _ _ _ _ ih =>
    intro _ _ _
    obtain ⟨us, vs, e, rfl, read⟩ := ih 3 rfl (by omega)
    exact ⟨us, _, e, by simp only [List.append_assoc]; rfl, by simpa using read⟩
  | assign op pos _ _ ih =>
    intro _ _ _
    obtain ⟨us, vs, e, rfl, read⟩ := ih 1 rfl (by omega)
    exact ⟨us, vs ++ _, e, List.append_assoc .., by simpa using read⟩
  | @tighter _ _ rank _ low high _ ih =>
    intro _ _ _
    exact ih (rank + 1) rfl (by omega)
  | _ =>
    intro _ same
    cases same

theorem Reads.firstOperand (h : Reads setting.parameters (.expr rank) ts e next) (high : rank ≤ 9) :
    ∃ us vs e, ts = us ++ vs ∧ Reads setting.parameters (.expr 8) us e (ahead vs next) :=
  h.leadingOperand rank rfl high

theorem Reads.parses_operand (h : Reads setting.parameters (.expr 8) ts e (ahead rest none))
    (enough : ts.length ≤ n) :
    Parses (Nested.forTokens n).operand setting (ts ++ rest) e rest :=
  h.runs.operand h.derives enough rfl

theorem Reads.parses_expression (h : Reads setting.parameters (.expr 1) ts e (ahead rest none))
    (enough : ts.length ≤ n) (stop : continuedRank (ahead rest none) = 0) :
    Parses (Nested.forTokens n).expression setting (ts ++ rest) e rest :=
  h.runs.expression h.derives enough rfl stop

theorem exact_primary (inner : ExactNested setting n) :
    ExactAnywhere (.expr 10) (primary (.forTokens n)) setting (n + 1) := by
  intro ts b rest enough h
  rcases primary_cases h with ⟨used, ident, rfl, names, rfl⟩ | ⟨pos, text, suffixes, value, marks, rfl, found,
    pasted, unpasted, rfl⟩ | ⟨pos, text, rfl, rfl⟩ | ⟨used, rfl, one⟩ | ⟨used, first, second, more, rfl, many,
    rfl⟩ | ⟨openPos, us, closePos, rfl, read⟩
  · exact ⟨used, rfl, .name names⟩
  · exact ⟨_, rfl, .number pos text found pasted unpasted⟩
  · exact ⟨_, rfl, .character pos text⟩
  · exact ⟨used, rfl, .piece one⟩
  · exact ⟨used, rfl, .pieces many⟩
  · rw [List.length_cons] at enough
    obtain ⟨used, rfl, reading⟩ := inner.expression (by omega) read (.of_mark rfl rfl)
    exact ⟨_, by simp, .parens openPos closePos reading⟩

theorem exact_commaRounds {α : Type} {p : Parser α} {size : Nat} {as bs : List α}
    (reads : List Token → List α → Option Lexeme → Prop) (element : List Token → α → Option Lexeme → Prop)
    (more : ∀ used us as a pos next, reads used as (some (.punct .comma)) → as ≠ [] → element us a next →
      reads (used ++ ⟨.punct .comma, pos⟩ :: us) (as ++ [a]) next)
    (shrinks : ∀ ts a rest, Parses p setting ts a rest → rest.length ≤ ts.length)
    (exact : ∀ ts a rest, ts.length ≤ size → Parses p setting ts a rest → Proper setting rest →
      ∃ used, ts = used ++ rest ∧ element used a (ahead rest none))
    (h : Rounds (commaRound p) setting as ts bs rest) (enough : ts.length ≤ size) (proper : Proper setting rest)
    (some : as ≠ []) :
    Proper setting ts ∧ ∀ used, reads used as (ahead ts none) →
      ∃ more, ts = more ++ rest ∧ reads (used ++ more) bs (ahead rest none) := by
  induction h with
  | done as ts => exact ⟨proper, fun used read => ⟨[], rfl, by simpa using read⟩⟩
  | round first _ ih =>
    obtain ⟨pos, us, a, rfl, read, rfl⟩ := parses_commaRound_some.mp first
    rw [List.length_cons] at enough
    have shorter := shrinks _ _ _ read
    obtain ⟨next, last⟩ := ih (by omega) proper (by simp)
    obtain ⟨used', rfl, reading'⟩ := exact _ _ _ (by omega) read next
    refine ⟨.of_mark rfl rfl, fun used reading => ?_⟩
    obtain ⟨behind, rfl, whole⟩ := last _ (more used used' _ a pos _ reading some reading')
    exact ⟨⟨.punct .comma, pos⟩ :: used' ++ behind, by simp, by simpa using whole⟩

theorem shrinks_of_sound {phrase : Phrase} {p : Parser phrase.Tree} (h : Sound phrase p setting) (ts : List Token)
    (tree : phrase.Tree) (rest : List Token) (read : Parses p setting ts tree rest) : rest.length ≤ ts.length := by
  obtain ⟨used, rfl, -⟩ := h read
  simp

theorem exact_arguments (inner : ExactNested setting n) {first : Expr} {mid : List Token} {arguments : List Expr}
    (read : Parses (Nested.forTokens n).expression setting ts first mid)
    (more : Parses (moreArguments (.forTokens n) [first]) setting mid arguments rest) (enough : ts.length ≤ n)
    (proper : Proper setting rest) :
    ∃ used, ts = used ++ rest ∧ Reads setting.parameters .arguments used arguments (ahead rest none) := by
  have shrinks := shrinks_of_sound (soundNested_forTokens setting n).expression
  have shorter := shrinks _ _ _ read
  rw [moreArguments_eq] at more
  have rounds := rounds_of_repeated (fun _ _ _ stop => (parses_commaRound_none.mp stop).1.symm) more
  obtain ⟨next, last⟩ := exact_commaRounds (fun used es next => Reads setting.parameters .arguments used es next)
    (fun us e next => Reads setting.parameters (.expr 1) us e next)
    (fun used us es e pos next before some reading => .moreArguments pos before some reading) shrinks
    (fun ts e rest enough read proper => inner.expression enough read proper) rounds (by omega) proper (by simp)
  obtain ⟨used, rfl, reading⟩ := inner.expression enough read next
  obtain ⟨behind, rfl, whole⟩ := last used (.argument reading)
  exact ⟨used ++ behind, by simp, whole⟩

theorem exact_asmOperand (inner : ExactNested setting n) :
    ExactAnywhere .operand (asmOperand (.forTokens n)) setting n := by
  intro ts o rest enough h
  obtain ⟨label, constraintPos, openPos, closePos, constraint, us, e, named, read, rfl⟩ := parses_asmOperand.mp h
  obtain ⟨name, rfl, nameTokens⟩ := parses_asmName named
  simp only [List.length_append, List.length_cons] at enough
  obtain ⟨used, rfl, reading⟩ := inner.expression (by omega) read (.of_mark rfl rfl)
  have some : name ++ [⟨.string constraint, constraintPos⟩] ≠ [] := by simp
  have start := startsAt_of_ne_nil setting some
    (⟨.punct .leftParen, openPos⟩ :: (used ++ ⟨.punct .rightParen, closePos⟩ :: rest))
  refine ⟨_, by simp, .operand constraintPos openPos closePos constraint ?_ nameTokens reading⟩
  simpa using start

theorem exact_asmOperands (inner : ExactNested setting n) :
    Exact .operands (asmOperands (.forTokens n)) setting n := by
  intro ts os rest enough h proper
  rcases parses_asmOperands.mp h with ⟨-, first, mid, read, more⟩ | ⟨-, rfl, rfl⟩
  · have shrinks := shrinks_of_sound (sound_asmOperand (soundNested_forTokens setting n))
    have shorter := shrinks _ _ _ read
    have rounds := rounds_of_repeated (fun _ _ _ stop => (parses_commaRound_none.mp stop).1.symm) more
    obtain ⟨next, last⟩ := exact_commaRounds (fun used os next => Reads setting.parameters .operands used os next)
      (fun us o next => Reads setting.parameters .operand us o next)
      (fun used us os o pos next before some reading => .moreOperands pos before some reading) shrinks
      (fun ts o rest enough read _ => exact_asmOperand inner enough read) rounds (by omega) proper (by simp)
    obtain ⟨used, rfl, reading⟩ := exact_asmOperand inner enough read
    obtain ⟨behind, rfl, whole⟩ := last used (.oneOperand reading)
    exact ⟨used ++ behind, by simp, whole⟩
  · exact ⟨[], rfl, .noOperands⟩

theorem exact_asmSections (inner : ExactNested setting n) :
    Exact .sections (asmSections (.forTokens n)) setting n := by
  intro ts parts rest enough h proper
  have shrinks := shrinks_of_sound (sound_asmOperands (soundNested_forTokens setting n))
  rcases parses_asmSections.mp h with ⟨rfl, -, rfl⟩ | ⟨pos, us, outs, mid, rfl, written, more⟩
  · exact ⟨[], rfl, .noSections⟩
  rw [List.length_cons] at enough
  have shorter := shrinks _ _ _ written
  rcases more with ⟨rfl, -, rfl⟩ | ⟨nextPos, us, ins, last, rfl, read, more⟩
  · obtain ⟨outTokens, rfl, outputs⟩ := exact_asmOperands inner (by omega) written proper
    exact ⟨_, rfl, .outputs pos outputs⟩
  obtain ⟨outTokens, rfl, outputs⟩ := exact_asmOperands inner (by omega) written (.of_mark rfl rfl)
  rw [List.length_cons] at shorter
  have shorter' := shrinks _ _ _ read
  rcases more with ⟨rfl, -, rfl⟩ | ⟨lastPos, us, texts, rfl, clobbered, rfl⟩
  · obtain ⟨inTokens, rfl, inputs⟩ := exact_asmOperands inner (by omega) read proper
    exact ⟨_, by simp, .inputs pos nextPos outputs inputs⟩
  obtain ⟨inTokens, rfl, inputs⟩ := exact_asmOperands inner (by omega) read (.of_mark rfl rfl)
  obtain ⟨textTokens, rfl, clobbers⟩ := parses_clobbers clobbered
  exact ⟨_, by simp, .clobbers pos nextPos lastPos outputs inputs clobbers⟩

end MacroLift
