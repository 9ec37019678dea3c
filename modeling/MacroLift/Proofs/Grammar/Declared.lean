import MacroLift.Proofs.Grammar.Body

namespace MacroLift

open MacroLift.Parser

variable {setting : Setting} {nested : Nested} {ts us vs rest : List Token} {e : Expr} {next : Option Lexeme}
  {l : Lexeme} {pos : Pos} {m n : Nat} {failure : Failure}

theorem isUnsupported_mismatchAt {cause : Cause} (plain : ∀ pos, (⟨cause, pos⟩ : Failure).isUnsupported = false) :
    (mismatchAt setting ts cause).isUnsupported = (ts.head?.bind fun t => unsupported? t.lexeme).isSome := by
  unfold mismatchAt
  split
  · rename_i found
    rw [found]
    rfl
  · rename_i none
    rw [none]
    exact plain _

theorem failsWith_whole {α : Type} {p : Parser α} {a : α} {t : Token} (read : Parses p setting ts a (t :: us)) :
    FailsWith (whole p) setting ts
      (mismatchAt setting (t :: us) (.unexpectedToken (foundText (t :: us)) "end of macro")) :=
  failsWith_then read (failsWith_first _ rfl)

theorem failsWith_repeated {α : Type} {step : α → Parser (Option α)} {a : α} {t : Token}
    (failed : FailsWith (step a) setting (t :: us) failure) :
    FailsWith (repeated step a) setting (t :: us) failure :=
  failsWith_first _ failed

theorem failsWith_expression_of_product (failed : FailsWith (multiplicative nested) setting ts failure) :
    FailsWith (expression nested) setting ts failure :=
  failsWith_first _ (failsWith_first _ (failsWith_first _ (failsWith_first _ (failsWith_first _ (failsWith_first _
    failed)))))

theorem failsWith_expression_of_prefixed (failed : FailsWith (prefixed nested) setting ts failure) :
    FailsWith (expression nested) setting ts failure :=
  failsWith_expression_of_product (failsWith_first _ failed)

def isStatementWord : Lexeme → Bool
  | .punct .leftBrace | .keyword .ifKw | .keyword .doKw | .keyword .staticKw | .keyword .constKw
  | .keyword .structKw | .punct .star => true
  | _ => false

theorem failsWith_prefixed_word (nested : Nested) (setting : Setting) (pos : Pos) (us : List Token)
    (word : isStatementWord l = true) :
    ∃ failure, FailsWith (prefixed nested) setting (⟨l, pos⟩ :: us) failure ∧ failure.isUnsupported = false := by
  unfold isStatementWord at word
  split at word
  case h_8 => cases word
  all_goals exact ⟨_, rfl, rfl⟩

/-- Fails to take the whole text as an expression, and not for C outside the grammar. -/
def IsNoExpression (m : Nat) (setting : Setting) (ts : List Token) : Prop :=
  ∃ failure, FailsWith (whole (expression (.forTokens m))) setting ts failure ∧ failure.isUnsupported = false

theorem IsNoExpression.plain (h : IsNoExpression m setting ts)
    (failed : FailsWith (whole (expression (.forTokens m))) setting ts failure) : failure.isUnsupported = false := by
  obtain ⟨_, failed', plain⟩ := h
  cases failed.symm.trans failed'
  exact plain

theorem IsNoExpression.word (word : isStatementWord l = true) (pos : Pos) (us : List Token) :
    IsNoExpression m setting (⟨l, pos⟩ :: us) := by
  obtain ⟨failure, failed, plain⟩ := failsWith_prefixed_word (.forTokens m) setting pos us word
  exact ⟨failure, failsWith_first _ (failsWith_expression_of_prefixed failed), plain⟩

theorem IsNoExpression.stops {t : Token} (read : Parses (expression (.forTokens m)) setting ts e (t :: us))
    (known : unsupported? t.lexeme = none) : IsNoExpression m setting ts := by
  refine ⟨_, failsWith_whole read, ?_⟩
  rw [isUnsupported_mismatchAt fun _ => rfl]
  simp [known]

def endsName : Lexeme → Bool
  | .name _ | .keyword .constKw | .keyword .staticKw => true
  | _ => false

theorem RunsExpr.loosen {rank low : Nat} (h : RunsExpr setting rank ts e next) (some : 0 < low) (le : low ≤ rank)
    (high : rank ≤ 9) : RunsExpr setting low ts e next := by
  obtain ⟨distance, rfl⟩ := Nat.exists_eq_add_of_le le
  clear le
  induction distance with
  | zero => exact h
  | succ distance ih => exact ih (runs_tighter (by omega) (by omega) h) (by omega)

section

variable {name : List Token} {ident : Ident} (names : Names name ident)

include names

theorem runs_bareName (next : Option Lexeme) (ends : endsPrimary next = true) (noLink : linksOn next = false)
    (noVolatile : next ≠ some (.keyword .volatileKw)) (noStep : next.bind postfixOp? = none) :
    RunsExpr setting 9 name (.name ident.pos ident) next := by
  have chain : RunsChain setting name (.name ident.pos ident) next := runs_base (.name names) (runs_name names) rfl
  refine .of_postfixed fun n rest enough behind => ⟨?_, ?_⟩
  · exact chain.parses enough behind ends noLink noVolatile (.inr ⟨rfl, noStep, rfl⟩)
  · obtain ⟨pos, text, us, rfl⟩ := names.head
    exact fails_cast_of_ahead (by simp)

theorem parses_expression_bareName (enough : name.length ≤ m + 1) (stop : endsName l = true) :
    Parses (expression (.forTokens m)) setting (name ++ ⟨l, pos⟩ :: us) (.name ident.pos ident) (⟨l, pos⟩ :: us) := by
  have runs : RunsExpr setting 9 name (.name ident.pos ident) (some l) := by
    unfold endsName at stop
    split at stop
    case h_4 => cases stop
    all_goals exact runs_bareName names _ rfl rfl nofun rfl
  have loose : RunsExpr setting 1 name (.name ident.pos ident) (some l) :=
    runs.loosen (by omega) (by omega) (by omega)
  apply loose.parses (by omega) (by omega) enough rfl
  unfold endsName at stop
  split at stop
  case h_4 => cases stop
  all_goals exact Nat.zero_lt_one

theorem failsWith_expression_star {t : Token} (enough : name.length ≤ m + 1) (starPos : Pos)
    (failed : FailsWith (prefixed (.forTokens m)) setting (t :: us) failure) :
    FailsWith (expression (.forTokens m)) setting (name ++ ⟨.punct .star, starPos⟩ :: t :: us) failure := by
  have runs : RunsExpr setting 9 name (.name ident.pos ident) (some (.punct .star)) :=
    runs_bareName names _ rfl rfl nofun rfl
  have first : Parses (prefixed (.forTokens m)) setting (name ++ ⟨.punct .star, starPos⟩ :: t :: us) _ _ :=
    (runs_postfixed runs).parses (by omega) (by omega) enough rfl (by decide)
  have round : FailsWith (operatorRound multiplicativeOp? (prefixed (.forTokens m))
      (fun left op right => .binary left.pos op left right) (.name ident.pos ident)) setting
      (⟨.punct .star, starPos⟩ :: t :: us) failure := by
    have star : Parses (acceptAs multiplicativeOp?) setting (⟨.punct .star, starPos⟩ :: t :: us)
        (some .multiply) (t :: us) := parses_acceptAs_some.mpr ⟨_, rfl, rfl⟩
    exact failsWith_then star (failsWith_first _ failed)
  apply failsWith_expression_of_product
  rw [multiplicative, leftChain_eq]
  exact failsWith_then first (failsWith_repeated round)

theorem IsNoExpression.bareName (enough : name.length ≤ m + 1) (stop : endsName l = true) (pos : Pos)
    (us : List Token) : IsNoExpression m setting (name ++ ⟨l, pos⟩ :: us) := by
  refine .stops (parses_expression_bareName names enough stop) ?_
  unfold endsName at stop
  split at stop
  case h_4 => cases stop
  all_goals rfl

theorem IsNoExpression.star (enough : name.length ≤ m + 1) (starPos : Pos) (word : isStatementWord l = true)
    (pos : Pos) (us : List Token) : IsNoExpression m setting (name ++ ⟨.punct .star, starPos⟩ :: ⟨l, pos⟩ :: us) := by
  obtain ⟨failure, failed, plain⟩ := failsWith_prefixed_word (.forTokens m) setting pos us word
  exact ⟨failure, failsWith_first _ (failsWith_expression_star names enough starPos failed), plain⟩

end

/-- A value behind an assignment is read together with what it is assigned to. Assignments belong together to the left,
    so the new one comes under those of the value. -/
theorem Reads.assigned {phrase : Phrase} {tree : phrase.Tree} {head : List Token} {target : Expr} {assignPos : Pos}
    (h : Reads setting.parameters phrase vs tree next)
    (first : Reads setting.parameters (.expr 1) head target (some (.punct .assign))) : phrase = .expr 1 →
    ∃ e, Reads setting.parameters (.expr 1) (head ++ ⟨.punct .assign, assignPos⟩ :: vs) e next := by
  induction h with
  | binary op =>
    intro same
    cases op <;> cases same
  | tighter _ _ inner _ =>
    intro same
    cases same
    exact ⟨_, .assign .plain assignPos first inner⟩
  | assign op pos _ second ih _ =>
    intro _
    obtain ⟨e, reading⟩ := ih rfl
    exact ⟨_, by simpa using Reads.assign op pos reading second⟩
  | _ =>
    intro same
    cases same

theorem reads_bareName {parameters : List String} {name : List Token} {ident : Ident} (names : Names name ident)
    (follow : followsOperand next = true) : Reads parameters (.expr 9) name (.name ident.pos ident) next := by
  refine .chained (.base (.name names) rfl) follow ?_
  rintro ⟨_, ⟨openPos, _, _, same, -⟩, -⟩
  obtain ⟨_, _, _, rfl⟩ := names.head
  cases same

theorem parses_expression_product {owner name : List Token} {typeIdent ident : Ident} {value : Expr}
    (starPos assignPos stopPos : Pos) (rest : List Token) (typeNames : Names owner typeIdent)
    (names : Names name ident)
    (reading : Reads setting.parameters (.expr 1) vs value (some (.punct .semicolon)))
    (enough : owner.length + name.length + vs.length + 1 ≤ m) :
    ∃ e, Parses (expression (.forTokens m)) setting
      (owner ++ ⟨.punct .star, starPos⟩ :: (name ++ ⟨.punct .assign, assignPos⟩ :: (vs ++
        ⟨.punct .semicolon, stopPos⟩ :: rest))) e (⟨.punct .semicolon, stopPos⟩ :: rest) := by
  have product : Reads setting.parameters (.expr 7) (owner ++ ⟨.punct .star, starPos⟩ :: name)
      (.binary typeIdent.pos .multiply (.name typeIdent.pos typeIdent) (.name ident.pos ident))
      (some (.punct .assign)) :=
    .binary .multiply starPos ((reads_bareName typeNames rfl).loosen (by decide) (by decide) (by decide))
      ((reads_bareName names rfl).loosen (by decide) (by decide) (by decide))
  obtain ⟨e, whole⟩ := reading.assigned (product.loosen (by omega) (by omega) (by omega)) rfl
  have parsed : Parses (Nested.forTokens (m + 1)).expression setting
      (owner ++ ⟨.punct .star, starPos⟩ :: name ++ ⟨.punct .assign, assignPos⟩ :: vs ++
        ⟨.punct .semicolon, stopPos⟩ :: rest) e (⟨.punct .semicolon, stopPos⟩ :: rest) := by
    refine whole.parses_expression ?_ rfl
    simp only [List.length_append, List.length_cons]
    omega
  simp only [List.append_assoc, List.cons_append] at parsed
  exact ⟨e, parsed⟩

/-- What reads as a declaration does not take the whole text as an expression: it fails at the first word of the
    declaration that no expression has, or at its semicolon. -/
theorem isNoExpression_of_declaration {s : Stmt} (parsed : Parses (declaration (.forTokens m)) setting ts s rest)
    (enough : ts.length ≤ m + 1) : IsNoExpression m setting ts := by
  obtain ⟨static, type, late, name, us, _, _, ident, _, _, assignPos, stopPos, value, rfl, -, marked, typed, marked',
    -, names, read, -⟩ := declaration_cases parsed
  -- from left to right, up to the first word that no expression has there
  cases marked with
  | present => exact .word rfl _ _
  | absent =>
  cases typed with
  | @intro before word owner behind levels _ typeIdent _ _ _ constBefore struct typeNames constBehind pointers =>
  have short : owner.length ≤ m + 1 := by
    simp only [List.length_append] at enough
    omega
  simp only [List.append_assoc, List.nil_append]
  cases before with
  | cons t before =>
    obtain ⟨lexeme, pos⟩ := t
    cases constBefore _ List.mem_cons_self
    exact .word rfl _ _
  | nil =>
  cases struct with
  | present => exact .word rfl _ _
  | absent =>
  cases behind with
  | cons t behind =>
    obtain ⟨lexeme, pos⟩ := t
    cases constBehind _ List.mem_cons_self
    exact .bareName typeNames short rfl _ _
  | nil =>
  cases pointers with
  | none =>
    cases marked' with
    | present => exact .bareName typeNames short rfl _ _
    | absent =>
      obtain ⟨pos, text, more, rfl⟩ := names.head
      exact .bareName typeNames short rfl _ _
  | @star _ _ consts more starPos const levels =>
  cases consts with
  | cons t consts =>
    obtain ⟨lexeme, pos⟩ := t
    cases const _ List.mem_cons_self
    exact .star typeNames short starPos rfl _ _
  | nil =>
  cases levels with
  | star => exact .star typeNames short starPos rfl _ _
  | none =>
  cases marked' with
  | present => exact .star typeNames short starPos rfl _ _
  | absent =>
    -- all that is left is a pointer, which reads as a product that is assigned to
    simp only [List.length_append, List.length_cons, List.append_nil, List.nil_append] at enough
    obtain ⟨used, rfl, reading⟩ := (exactNested_forTokens setting m).expression (by omega) read (.of_mark rfl rfl)
    simp only [List.length_append, List.length_cons] at enough
    obtain ⟨e, whole⟩ :=
      parses_expression_product starPos assignPos stopPos rest typeNames names reading (m := m) (by omega)
    exact .stops (t := ⟨.punct .semicolon, stopPos⟩) (by simpa using whole) rfl

theorem expression_plain {failure' : Failure} (nonempty : ts ≠ [])
    (first : FailsWith (whole (Nested.forTokens ts.length).statement) setting ts failure)
    (plain : failure.isUnsupported = false)
    (second : FailsWith (whole (Nested.forTokens ts.length).expression) setting ts failure') :
    failure'.isUnsupported = false := by
  obtain ⟨⟨lexeme, pos⟩, us, rfl⟩ := List.exists_cons_of_ne_nil nonempty
  suffices IsNoExpression us.length setting (⟨lexeme, pos⟩ :: us) from this.plain second
  -- a word that begins no expression, a declaration, an expression that lacks its semicolon, or no expression at all
  cases opens : opensStatement (ahead (⟨lexeme, pos⟩ :: us) none) with
  | true =>
    unfold opensStatement at opens
    split at opens
    case h_4 => cases opens
    all_goals
      rename_i same
      cases same
      exact .word rfl pos us
  | false =>
    rcases parses_or_fails (declaration (.forTokens us.length)) setting (⟨lexeme, pos⟩ :: us) with
      ⟨s, rest, parsed⟩ | refused
    · exact isNoExpression_of_declaration parsed (Nat.le_refl _)
    rcases parses_or_fails (expression (.forTokens us.length)) setting (⟨lexeme, pos⟩ :: us) with
      ⟨e, rest, read⟩ | ⟨_, failed⟩
    · cases rest with
      | nil => exact absurd ⟨_, second⟩ (parses_whole.mpr ⟨read, rfl⟩).not_fails
      | cons t rest =>
        refine .stops read ?_
        by_cases semicolon : t.lexeme = .punct .semicolon
        · rw [semicolon]
          rfl
        · have missing := failsWith_statement opens refused read (by simpa using semicolon)
          cases first.symm.trans missing
          rw [isUnsupported_mismatchAt fun _ => rfl] at plain
          simpa using plain
    · have same := failsWith_statement_of_evaluation opens refused (failsWith_first _ failed)
      cases first.symm.trans same
      exact ⟨_, failsWith_first _ failed, plain⟩

end MacroLift
