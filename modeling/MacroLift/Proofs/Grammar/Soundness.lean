import MacroLift.Proofs.Grammar.Productions.Statement

namespace MacroLift.Parser

variable {setting : Setting} {nested : Nested} {ts rest used : List Token} {e b : Expr}

def Sound (phrase : Phrase) (p : Parser phrase.Tree) (setting : Setting) : Prop :=
  ∀ ⦃ts : List Token⦄ ⦃tree : phrase.Tree⦄ ⦃rest : List Token⦄, Parses p setting ts tree rest →
    ∃ used, ts = used ++ rest ∧ Derives phrase used tree

structure SoundNested (nested : Nested) (setting : Setting) : Prop where
  statement : Sound .statement nested.statement setting
  expression : Sound (.expr 1) nested.expression setting
  conditional : Sound (.expr 2) nested.conditional setting
  operand : Sound (.expr 8) nested.operand setting

theorem sound_cast (inner : SoundNested nested setting) : Sound (.expr 8) (cast nested) setting := by
  intro ts b rest h
  obtain ⟨openPos, closePos, target, mid, us, operand, rfl, typed, -, read, rfl⟩ := parses_cast.mp h
  obtain ⟨type, rfl, typeName⟩ := parses_ctype typed
  obtain ⟨used, rfl, derived⟩ := inner.operand read
  exact ⟨_, by simp, .cast openPos closePos typeName derived⟩

theorem sound_arguments (inner : SoundNested nested setting) {first : Expr} {mid : List Token}
    {arguments : List Expr} (read : Parses nested.expression setting ts first mid)
    (more : Parses (moreArguments nested [first]) setting mid arguments rest) :
    ∃ used, ts = used ++ rest ∧ Derives .arguments used arguments := by
  rw [moreArguments_eq] at more
  have rounds := rounds_of_repeated (fun _ _ _ stop => (parses_commaRound_none.mp stop).1.symm) more
  obtain ⟨used, rfl, derived⟩ := inner.expression read
  let holds := fun used (arguments : List Expr) => Derives .arguments used arguments ∧ arguments ≠ []
  have grow : ∀ read next used ts rest, holds used read →
      Parses (commaRound nested.expression read) setting ts (some next) rest →
      ∃ more, ts = more ++ rest ∧ holds (used ++ more) next := by
    rintro read next used ts rest ⟨before, some⟩ round
    obtain ⟨pos, us, e, rfl, parsed, rfl⟩ := parses_commaRound_some.mp round
    obtain ⟨last, rfl, derived⟩ := inner.expression parsed
    exact ⟨_, by simp, .moreArguments pos before some derived, by simp⟩
  obtain ⟨behind, rfl, last⟩ := rounds.extend holds ⟨.argument derived, by simp⟩ grow
  exact ⟨used ++ behind, by simp, last.1⟩

theorem sound_links (inner : SoundNested nested setting) (h : Rounds (chainLink nested) setting e ts b rest)
    (start : Derives .chain used e) : ∃ more, ts = more ++ rest ∧ Derives .chain (used ++ more) b := by
  refine h.extend (fun used e => Derives .chain used e) start ?_
  intro e b used ts rest owner round
  rcases parses_chainLink_some.mp round with ⟨openPos, us, rfl, called⟩ | ⟨isArrow, pos, us, name, rfl, named, rfl⟩
  · obtain ⟨pos, ident, rfl, ⟨closePos, rfl, rfl⟩ | ⟨-, first, mid, arguments, closePos, read, more, rfl⟩⟩ :=
      parses_call.mp called
    · refine ⟨[⟨.punct .leftParen, openPos⟩, ⟨.punct .rightParen, closePos⟩], rfl, ?_⟩
      simpa using Derives.call openPos closePos owner .noArguments
    · obtain ⟨tokens, rfl, derived⟩ := sound_arguments inner read more
      refine ⟨⟨.punct .leftParen, openPos⟩ :: tokens ++ [⟨.punct .rightParen, closePos⟩], by simp, ?_⟩
      simpa using Derives.call openPos closePos owner derived
  · obtain ⟨nameTokens, rfl, names⟩ := parses_ident named
    exact ⟨_, rfl, .field isArrow pos owner names⟩

theorem sound_chain (inner : SoundNested nested setting) (start : Derives .chain used e)
    (h : Parses (chain nested e) setting ts b rest) :
    ∃ more, ts = more ++ rest ∧ Derives (.expr 9) (used ++ more) b := by
  obtain ⟨linked, mid, links, ending⟩ := parses_chain.mp h
  have rounds := rounds_of_repeated (fun _ _ _ stop => (parses_chainLink_none.mp stop).1.symm) links
  obtain ⟨more, rfl, derived⟩ := sound_links inner rounds start
  rcases ending with ⟨op, pos, isStep, rfl, rfl⟩ | ⟨rfl, -, rfl⟩
  · refine ⟨more ++ [⟨.punct op.punct, pos⟩], by simp, ?_⟩
    simpa using Derives.step pos isStep derived
  · exact ⟨more, rfl, .chained derived⟩

theorem sound_asmOperand (inner : SoundNested nested setting) : Sound .operand (asmOperand nested) setting := by
  intro ts o rest h
  obtain ⟨label, constraintPos, openPos, closePos, constraint, us, e, named, read, rfl⟩ := parses_asmOperand.mp h
  obtain ⟨name, rfl, nameTokens⟩ := parses_asmName named
  obtain ⟨used, rfl, derived⟩ := inner.expression read
  have some : name ++ [⟨.string constraint, constraintPos⟩] ≠ [] := by simp
  have start := startsAt_of_ne_nil setting some
    (⟨.punct .leftParen, openPos⟩ :: (used ++ ⟨.punct .rightParen, closePos⟩ :: rest))
  refine ⟨_, by simp, .operand constraintPos openPos closePos constraint ?_ nameTokens derived⟩
  simpa using start

theorem sound_asmOperands (inner : SoundNested nested setting) : Sound .operands (asmOperands nested) setting := by
  intro ts os rest h
  rcases parses_asmOperands.mp h with ⟨-, first, mid, read, more⟩ | ⟨-, rfl, rfl⟩
  · have rounds := rounds_of_repeated (fun _ _ _ stop => (parses_commaRound_none.mp stop).1.symm) more
    obtain ⟨used, rfl, derived⟩ := sound_asmOperand inner read
    let holds := fun used (os : List AsmOperand) => Derives .operands used os ∧ os ≠ []
    have grow : ∀ read next used ts rest, holds used read →
        Parses (commaRound (asmOperand nested) read) setting ts (some next) rest →
        ∃ more, ts = more ++ rest ∧ holds (used ++ more) next := by
      rintro read next used ts rest ⟨before, some⟩ round
      obtain ⟨pos, us, o, rfl, parsed, rfl⟩ := parses_commaRound_some.mp round
      obtain ⟨last, rfl, derived⟩ := sound_asmOperand inner parsed
      exact ⟨_, by simp, .moreOperands pos before some derived, by simp⟩
    obtain ⟨behind, rfl, last⟩ := rounds.extend holds ⟨.oneOperand derived, by simp⟩ grow
    exact ⟨used ++ behind, by simp, last.1⟩
  · exact ⟨[], rfl, .noOperands⟩

theorem sound_asmSections (inner : SoundNested nested setting) : Sound .sections (asmSections nested) setting := by
  intro ts parts rest h
  rcases parses_asmSections.mp h with ⟨rfl, -, rfl⟩ | ⟨pos, us, outs, mid, rfl, written, more⟩
  · exact ⟨[], rfl, .noSections⟩
  obtain ⟨outTokens, rfl, outputs⟩ := sound_asmOperands inner written
  rcases more with ⟨rfl, -, rfl⟩ | ⟨nextPos, us, ins, last, rfl, read, more⟩
  · exact ⟨_, rfl, .outputs pos outputs⟩
  obtain ⟨inTokens, rfl, inputs⟩ := sound_asmOperands inner read
  rcases more with ⟨rfl, -, rfl⟩ | ⟨lastPos, us, texts, rfl, clobbered, rfl⟩
  · exact ⟨_, by simp, .inputs pos nextPos outputs inputs⟩
  obtain ⟨textTokens, rfl, clobbers⟩ := parses_clobbers clobbered
  exact ⟨_, by simp, .clobbers pos nextPos lastPos outputs inputs clobbers⟩

theorem sound_assembly (inner : SoundNested nested setting) {pos namePos : Pos} {word : String}
    (opener : Derives (.expr 10) used (.name pos (.simple namePos word))) (isWord : isAssemblyWord word = true)
    (h : Parses (assembly nested pos) setting ts b rest) :
    ∃ more, ts = more ++ rest ∧ Derives (.expr 9) (used ++ more) b := by
  obtain ⟨volatile, isVolatile, openPos, firstPos, closePos, first, us, lines, mid, parts, marked, rfl,
    template, behind, rfl⟩ := parses_assembly.mp h
  obtain ⟨templateTokens, rfl, more, -⟩ := templateLines_split template
  obtain ⟨sectionTokens, rfl, sections⟩ := sound_asmSections inner behind
  refine ⟨volatile ++ ⟨.punct .leftParen, openPos⟩ :: ⟨.string first, firstPos⟩ :: templateTokens ++
    sectionTokens ++ [⟨.punct .rightParen, closePos⟩], by simp, ?_⟩
  simpa using Derives.assembly openPos firstPos closePos first opener isWord marked more sections

theorem sound_primary (inner : SoundNested nested setting) : Sound (.expr 10) (primary nested) setting := by
  intro ts b rest h
  rcases primary_cases h with ⟨used, ident, rfl, names, rfl⟩ | ⟨pos, text, suffixes, value, marks, rfl, found,
    pasted, unpasted, rfl⟩ | ⟨pos, text, rfl, rfl⟩ | ⟨used, rfl, one⟩ | ⟨used, first, second, more, rfl, many,
    rfl⟩ | ⟨openPos, us, closePos, rfl, read⟩
  · exact ⟨used, rfl, .name names⟩
  · exact ⟨_, rfl, .number pos text found pasted unpasted⟩
  · exact ⟨_, rfl, .character pos text⟩
  · exact ⟨used, rfl, .piece one⟩
  · exact ⟨used, rfl, .pieces many⟩
  · obtain ⟨used, rfl, derived⟩ := inner.expression read
    exact ⟨_, by simp, .parens openPos closePos derived⟩

theorem opensAssembly_eq_true (h : opensAssembly e = true) :
    ∃ pos namePos word, e = .name pos (.simple namePos word) ∧ isAssemblyWord word = true := by
  unfold opensAssembly at h
  split at h
  · exact ⟨_, _, _, rfl, h⟩
  · cases h

theorem sound_postfixed (inner : SoundNested nested setting) : Sound (.expr 9) (postfixed nested) setting := by
  intro ts b rest h
  obtain ⟨e, mid, first, ending⟩ := parses_postfixed.mp h
  obtain ⟨used, rfl, derived⟩ := sound_primary inner first
  rcases ending with ⟨closed, rfl, rfl⟩ | ⟨-, opens, read⟩ | ⟨more, -, read⟩
  · exact ⟨used, rfl, .closed derived closed⟩
  · obtain ⟨pos, namePos, word, rfl, isWord⟩ := opensAssembly_eq_true opens
    obtain ⟨behind, rfl, last⟩ := sound_assembly inner derived isWord read
    exact ⟨used ++ behind, by simp, last⟩
  · obtain ⟨behind, rfl, last⟩ := sound_chain inner (.base derived more) read
    exact ⟨used ++ behind, by simp, last⟩

theorem sound_prefixed (inner : SoundNested nested setting) : Sound (.expr 8) (prefixed nested) setting := by
  intro ts b rest h
  rcases prefixed_cases h with read | ⟨-, read⟩ | ⟨pos, us, e, rfl, read, rfl⟩ | ⟨op, pos, us, e, rfl, read, rfl⟩
  · exact sound_cast inner read
  · obtain ⟨used, same, derived⟩ := sound_postfixed inner read
    exact ⟨used, same, .tighter (by omega) (by omega) derived⟩
  · obtain ⟨used, rfl, derived⟩ := inner.operand read
    exact ⟨_, rfl, .addressOf pos derived⟩
  · obtain ⟨used, rfl, derived⟩ := inner.operand read
    exact ⟨_, rfl, .before op pos derived⟩

theorem sound_repeated {rank : Nat} (isRepeated : isRepeated rank = true)
    (operand : Sound (.expr (rank + 1)) (atRank nested (rank + 1)) setting)
    (round : ∀ left used ts b rest, Derives (.expr rank) used left →
      Parses (roundAt nested rank left) setting ts (some b) rest →
      ∃ more, ts = more ++ rest ∧ Derives (.expr rank) (used ++ more) b) :
    Sound (.expr rank) (atRank nested rank) setting := by
  intro ts b rest h
  rw [atRank_eq isRepeated, parses_bind] at h
  obtain ⟨first, mid, read, more⟩ := h
  have bounds := isRepeated_iff.mp isRepeated
  obtain ⟨used, rfl, derived⟩ := operand read
  obtain ⟨behind, rfl, last⟩ :=
    (rounds_of_repeated roundAt_still more).extend (fun used e => Derives (.expr rank) used e)
    (.tighter (by omega) (by omega) derived)
    (fun left b used ts rest derived parsed => round left used ts b rest derived parsed)
  exact ⟨used ++ behind, by simp, last⟩

theorem roundAt_of_binary {rank : Nat} (low : 3 ≤ rank) :
    roundAt nested rank = operatorRound (binaryOpAt? rank) (atRank nested (rank + 1)) fun left op right =>
      .binary left.pos op left right := by
  unfold roundAt
  split
  · omega
  · rfl

theorem sound_binary {rank : Nat} (low : 3 ≤ rank) (high : rank ≤ 7)
    (operand : Sound (.expr (rank + 1)) (atRank nested (rank + 1)) setting) :
    Sound (.expr rank) (atRank nested rank) setting := by
  have ranks : isRepeated rank = true := isRepeated_iff.mpr (.inr ⟨low, high⟩)
  refine sound_repeated ranks operand fun left used ts b rest first round => ?_
  rw [roundAt_of_binary low, parses_operatorRound_some] at round
  obtain ⟨⟨lexeme, pos⟩, us, op, right, rfl, means, read, rfl⟩ := round
  obtain ⟨rfl, same⟩ := binaryOpAt?_eq_some.mp means
  cases same
  obtain ⟨more, rfl, second⟩ := operand read
  exact ⟨_, rfl, .binary op pos first second⟩

theorem sound_conditional (inner : SoundNested nested setting)
    (operand : Sound (.expr 3) (equality nested) setting) : Sound (.expr 2) (conditional nested) setting := by
  intro ts b rest h
  obtain ⟨test, mid, read, ending⟩ := parses_conditional.mp h
  obtain ⟨used, rfl, condition⟩ := operand read
  rcases ending with ⟨rfl, -, rfl⟩ | ⟨questionPos, colonPos, us, vs, whenTrue, whenFalse, rfl, left, right, rfl⟩
  · exact ⟨used, rfl, .tighter (by omega) (by omega) condition⟩
  · obtain ⟨first, rfl, derived⟩ := inner.conditional left
    obtain ⟨second, rfl, derived'⟩ := inner.conditional right
    exact ⟨_, by simp, .ternary questionPos colonPos condition derived derived'⟩

theorem sound_expression (inner : SoundNested nested setting)
    (operand : Sound (.expr 2) (conditional nested) setting) : Sound (.expr 1) (expression nested) setting := by
  have ranks : isRepeated 1 = true := rfl
  refine sound_repeated ranks operand fun target used ts b rest first round => ?_
  obtain ⟨⟨lexeme, pos⟩, us, op, value, rfl, means, read, rfl⟩ := parses_operatorRound_some.mp round
  cases assignOp?_eq_some.mp means
  obtain ⟨more, rfl, second⟩ := inner.conditional read
  exact ⟨_, rfl, .assign op pos first second⟩

theorem sound_atRank (inner : SoundNested nested setting) (rank : Nat) (low : 0 < rank) (high : rank ≤ 8) :
    Sound (.expr rank) (atRank nested rank) setting := by
  by_cases last : rank = 8
  · subst last
    exact sound_prefixed inner
  · have operand := sound_atRank inner (rank + 1) (by omega) (by omega)
    by_cases binary : 3 ≤ rank
    · exact sound_binary binary (by omega) operand
    · have small : rank = 1 ∨ rank = 2 := by omega
      rcases small with rfl | rfl
      · exact sound_expression inner operand
      · exact sound_conditional inner operand
termination_by 8 - rank

theorem sound_block (inner : SoundNested nested setting) : Sound .statement (block nested) setting := by
  intro ts s rest h
  obtain ⟨pos, closePos, us, body, rfl, read, rfl⟩ := parses_block.mp h
  have rounds := rounds_of_repeated (fun _ _ _ stop => (parses_statementRound_none.mp stop).1.symm) read
  have grow : ∀ read body used ts rest, Derives .statements used read →
      Parses (statementRound nested read) setting ts (some body) rest →
      ∃ more, ts = more ++ rest ∧ Derives .statements (used ++ more) body := by
    intro read body used ts rest first round
    obtain ⟨-, s, parsed, rfl⟩ := parses_statementRound_some.mp round
    obtain ⟨more, rfl, last⟩ := inner.statement parsed
    exact ⟨more, rfl, .moreStatements first last⟩
  obtain ⟨used, rfl, derived⟩ := rounds.extend (fun used body => Derives .statements used body) .noStatements grow
  exact ⟨_, by simp, .block pos closePos derived⟩

theorem sound_branch (inner : SoundNested nested setting) : Sound .branch (branch nested) setting := by
  intro ts body rest h
  obtain ⟨s, read, rfl⟩ := parses_branch.mp h
  obtain ⟨used, rfl, derived⟩ := inner.statement read
  refine ⟨used, rfl, ?_⟩
  unfold branchOf
  split
  · exact .splicedBranch derived
  · rename_i bare
    exact .bareBranch derived bare

theorem sound_choice (inner : SoundNested nested setting) {pos : Pos} {s : Stmt}
    (h : Parses (choice nested) setting (⟨.keyword .ifKw, pos⟩ :: ts) s rest) :
    ∃ used, ⟨.keyword .ifKw, pos⟩ :: ts = used ++ rest ∧ Derives .statement used s := by
  obtain ⟨test, mid, body, last, condition, whenTrue, ending⟩ := parses_choice.mp h
  obtain ⟨openPos, closePos, us, rfl, read⟩ := parses_condition.mp condition
  obtain ⟨tested, rfl, derived⟩ := inner.expression read
  obtain ⟨first, rfl, derived'⟩ := sound_branch inner whenTrue
  rcases ending with ⟨rfl, -, rfl⟩ | ⟨elsePos, us, other, rfl, whenFalse, rfl⟩
  · exact ⟨_, by simp, .choice pos openPos closePos derived derived'⟩
  · obtain ⟨second, rfl, derived''⟩ := sound_branch inner whenFalse
    exact ⟨_, by simp, .choiceElse pos openPos closePos elsePos derived derived' derived''⟩

theorem sound_loop (inner : SoundNested nested setting) {pos : Pos} {s : Stmt}
    (h : Parses (loop nested) setting (⟨.keyword .doKw, pos⟩ :: ts) s rest) :
    ∃ used, ⟨.keyword .doKw, pos⟩ :: ts = used ++ rest ∧ Derives .statement used s := by
  obtain ⟨body, whilePos, us, test, last, semicolon, hasSemicolon, ran, condition, rfl, stop, -, rfl⟩ :=
    parses_loop.mp h
  obtain ⟨first, rfl, derived⟩ := sound_branch inner ran
  obtain ⟨openPos, closePos, vs, rfl, read⟩ := parses_condition.mp condition
  obtain ⟨tested, rfl, derived'⟩ := inner.expression read
  exact ⟨_, by simp, .loop pos whilePos openPos closePos derived derived' stop⟩

theorem sound_declaration (inner : SoundNested nested setting) :
    Sound .statement (declaration nested) setting := by
  intro ts s rest h
  obtain ⟨before, type, behind, name, us, pos, target, ident, isStaticBefore, isStaticBehind, assignPos, stopPos,
    value, rfl, start, static, typed, late, once, names, read, rfl⟩ := declaration_cases h
  obtain ⟨used, rfl, derived⟩ := inner.expression read
  exact ⟨_, by simp, .declare assignPos stopPos start static typed late once names derived⟩

theorem sound_statement (inner : SoundNested nested setting) : Sound .statement (statement nested) setting := by
  intro ts s rest h
  rcases statement_cases h with ⟨pos, us, rfl, read⟩ | ⟨pos, us, rfl, read⟩ | ⟨pos, us, rfl, read⟩ | read |
    ⟨-, read⟩
  · exact sound_block inner read
  · exact sound_choice inner read
  · exact sound_loop inner read
  · exact sound_declaration inner read
  · obtain ⟨e, pos, expression, rfl⟩ := parses_evaluation.mp read
    obtain ⟨used, rfl, derived⟩ := sound_atRank inner 1 (by omega) (by omega) expression
    exact ⟨_, by simp, .eval pos derived⟩

theorem soundNested_level (inner : SoundNested nested setting) : SoundNested (Nested.level nested) setting where
  statement := sound_statement inner
  expression := sound_atRank inner 1 (by omega) (by omega)
  conditional := sound_atRank inner 2 (by omega) (by omega)
  operand := sound_atRank inner 8 (by omega) (by omega)

theorem soundNested_forTokens (setting : Setting) (n : Nat) : SoundNested (Nested.forTokens n) setting := by
  induction n with
  | zero => constructor <;> exact fun _ _ _ h => absurd h parses_mismatch
  | succ n ih => exact soundNested_level ih

end MacroLift.Parser
