import MacroLift.Proofs.Grammar.Exactness.Operand

namespace MacroLift

open MacroLift.Parser

variable {setting : Setting} {ts us rest rest' : List Token} {e b : Expr} {next : Option Lexeme} {n rank : Nat}

theorem Proper.of_operator {pos : Pos} (op : BinaryOp)
    (h : Reads setting.parameters (.expr rank) us e (ahead rest none))
    (high : rank ≤ 9) : Proper setting (⟨.punct op.punct, pos⟩ :: (us ++ rest)) where
  follows := by cases op <;> rfl
  operand := by
    intro start
    obtain ⟨front, behind, operand, rfl, reading⟩ := h.firstOperand high
    have reading' : Reads setting.parameters (.expr 8) front operand (ahead (behind ++ rest) none) := by
      rwa [ahead_append]
    cases op with
    | add =>
      exact ⟨⟨.punct .plus, pos⟩ :: front, behind ++ rest, _, by simp [BinaryOp.punct], .before .plus pos reading'⟩
    | subtract =>
      exact ⟨⟨.punct .minus, pos⟩ :: front, behind ++ rest, _, by simp [BinaryOp.punct], .before .negate
        pos reading'⟩
    | _ => cases start

structure Lengthens (setting : Setting) (rank : Nat) (left : Expr) (ts : List Token) (b : Expr)
    (rest : List Token) : Prop where
  proper : Proper setting ts
  reads : ∃ more, ts = more ++ rest ∧ ∀ used, Reads setting.parameters (.expr rank) used left (ahead ts none) →
    Reads setting.parameters (.expr rank) (used ++ more) b (ahead rest none)

def ExactRound (setting : Setting) (rank size : Nat) (round : Expr → Parser (Option Expr)) : Prop :=
  ∀ ⦃left b : Expr⦄ ⦃ts rest : List Token⦄, ts.length ≤ size → Parses (round left) setting ts (some b) rest →
    rest.length ≤ ts.length ∧ (Proper setting rest → Lengthens setting rank left ts b rest)

theorem exact_rounds {size : Nat} {round : Expr → Parser (Option Expr)} {left : Expr}
    (exact : ExactRound setting rank size round) (h : Rounds round setting left ts b rest)
    (enough : ts.length ≤ size) (proper : Proper setting rest) : Lengthens setting rank left ts b rest := by
  induction h with
  | done left ts => exact ⟨proper, [], rfl, fun used reading => by simpa using reading⟩
  | round first _ ih =>
    obtain ⟨shorter, lengthens⟩ := exact enough first
    -- the text behind a round has to be known before the round is
    obtain ⟨next, behind, rfl, last⟩ := ih (by omega) proper
    obtain ⟨here, more, rfl, second⟩ := lengthens next
    exact ⟨here, more ++ behind, by simp, fun used reading => by simpa using last _ (second used reading)⟩

theorem exact_repeated (isRepeated : isRepeated rank = true)
    (operand : Exact (.expr (rank + 1)) (atRank (.forTokens n) (rank + 1)) setting (n + 1))
    (round : ExactRound setting rank (n + 1) (roundAt (.forTokens n) rank)) :
    Exact (.expr rank) (atRank (.forTokens n) rank) setting (n + 1) := by
  intro ts b rest enough h proper
  have bounds := isRepeated_iff.mp isRepeated
  rw [atRank_eq isRepeated, parses_bind] at h
  obtain ⟨first, mid, read, more⟩ := h
  have sound := sound_atRank (soundNested_forTokens setting n) (rank + 1) (by omega) (by omega)
  have shorter := shrinks_of_sound sound _ _ _ read
  obtain ⟨next, behind, rfl, last⟩ := exact_rounds round (rounds_of_repeated roundAt_still more) (by omega) proper
  obtain ⟨used, rfl, reading⟩ := operand enough read next
  exact ⟨used ++ behind, by simp, last used (.tighter (by omega) (by omega) reading)⟩

theorem exact_binary (low : 3 ≤ rank) (high : rank ≤ 7)
    (operand : Exact (.expr (rank + 1)) (atRank (.forTokens n) (rank + 1)) setting (n + 1)) :
    Exact (.expr rank) (atRank (.forTokens n) rank) setting (n + 1) := by
  have ranks : isRepeated rank = true := isRepeated_iff.mpr (.inr ⟨low, high⟩)
  refine exact_repeated ranks operand fun left b ts rest enough round => ?_
  rw [roundAt_of_binary low, parses_operatorRound_some] at round
  obtain ⟨⟨lexeme, pos⟩, us, op, right, rfl, means, read, rfl⟩ := round
  obtain ⟨rfl, same⟩ := binaryOpAt?_eq_some.mp means
  cases same
  rw [List.length_cons] at enough ⊢
  have sound := sound_atRank (soundNested_forTokens setting n) (op.rank + 1) (by omega) (by omega)
  have shorter := shrinks_of_sound sound _ _ _ read
  refine ⟨by omega, fun proper => ?_⟩
  obtain ⟨tokens, rfl, second⟩ := operand (by omega) read proper
  exact ⟨.of_operator op second (by omega), _, rfl, fun used first => .binary op pos first second⟩

theorem exact_conditional (inner : ExactNested setting n)
    (operand : Exact (.expr 3) (equality (.forTokens n)) setting (n + 1)) :
    Exact (.expr 2) (conditional (.forTokens n)) setting (n + 1) := by
  intro ts b rest enough h proper
  obtain ⟨test, mid, read, ending⟩ := parses_conditional.mp h
  have sound := sound_atRank (soundNested_forTokens setting n) 3 (by omega) (by omega)
  have shorter := shrinks_of_sound sound _ _ _ read
  rcases ending with ⟨rfl, -, rfl⟩ | ⟨questionPos, colonPos, us, vs, whenTrue, whenFalse, rfl, left, right, rfl⟩
  · obtain ⟨used, rfl, reading⟩ := operand enough read proper
    exact ⟨used, rfl, .tighter (by omega) (by omega) reading⟩
  · obtain ⟨used, rfl, condition⟩ := operand enough read (.of_mark rfl rfl)
    have shorter' := shrinks_of_sound (soundNested_forTokens setting n).conditional _ _ _ left
    simp only [List.length_append, List.length_cons] at enough shorter'
    obtain ⟨first, rfl, reading⟩ := inner.conditional (by omega) left (.of_mark rfl rfl)
    obtain ⟨second, rfl, reading'⟩ := inner.conditional (by omega) right proper
    exact ⟨_, by simp, .ternary questionPos colonPos condition reading reading'⟩

theorem exact_expression (inner : ExactNested setting n)
    (operand : Exact (.expr 2) (conditional (.forTokens n)) setting (n + 1)) :
    Exact (.expr 1) (expression (.forTokens n)) setting (n + 1) := by
  have ranks : isRepeated 1 = true := rfl
  refine exact_repeated ranks operand fun target b ts rest enough round => ?_
  obtain ⟨⟨lexeme, pos⟩, us, op, value, rfl, means, read, rfl⟩ := parses_operatorRound_some.mp round
  cases assignOp?_eq_some.mp means
  rw [List.length_cons] at enough ⊢
  have shorter := shrinks_of_sound (soundNested_forTokens setting n).conditional _ _ _ read
  refine ⟨by omega, fun proper => ?_⟩
  obtain ⟨tokens, rfl, second⟩ := inner.conditional (by omega) read proper
  exact ⟨.of_mark (by cases op <;> rfl) (by cases op <;> rfl), _, rfl,
    fun used first => .assign op pos first second⟩

theorem exact_atRank (inner : ExactNested setting n) (rank : Nat) (low : 0 < rank) (high : rank ≤ 8) :
    Exact (.expr rank) (atRank (.forTokens n) rank) setting (n + 1) := by
  by_cases last : rank = 8
  · subst last
    exact exact_prefixed inner
  · have operand := exact_atRank inner (rank + 1) (by omega) (by omega)
    by_cases binary : 3 ≤ rank
    · exact exact_binary binary (by omega) operand
    · have small : rank = 1 ∨ rank = 2 := by omega
      rcases small with rfl | rfl
      · exact exact_expression inner operand
      · exact exact_conditional inner operand
termination_by 8 - rank

theorem Reads.of_names {parameters : List String} {ident : Ident} (names : Names ts ident)
    (follow : followsOperand next = true) : Reads parameters (.expr 9) ts (.name ident.pos ident) next := by
  refine .chained (.base (.name names) rfl) follow ?_
  rintro ⟨_, ⟨openPos, _, _, rfl, _⟩, _⟩
  obtain ⟨_, _, _, same⟩ := names.head
  cases same

theorem Reads.product {parameters : List String} {type name : List Token} {typeName declared : Ident}
    {starPos : Pos} {op : AssignOp} (typed : Names type typeName) (named : Names name declared) :
    Reads parameters (.expr 2) (type ++ ⟨.punct .star, starPos⟩ :: name)
      (.binary typeName.pos .multiply (.name typeName.pos typeName) (.name declared.pos declared))
      (some (.punct op.punct)) := by
  have follows : followsOperand (some (.punct op.punct)) = true := by cases op <;> rfl
  have star : Reads parameters (.expr 7) type (.name typeName.pos typeName) (some (.punct .star)) :=
    (Reads.of_names typed rfl).loosen (by omega) (by omega) (by omega)
  have operand : Reads parameters (.expr 8) name (.name declared.pos declared) (some (.punct op.punct)) :=
    (Reads.of_names named follows).loosen (by omega) (by omega) (by omega)
  exact (Reads.binary .multiply starPos star operand).loosen (by omega) (by simp [BinaryOp.rank])
    (by simp [BinaryOp.rank])

theorem exists_ahead (next : Option Lexeme) : ∃ rest, ahead rest none = next := by
  cases next with
  | none => exact ⟨[], rfl⟩
  | some l => exact ⟨[⟨l, default⟩], rfl⟩

theorem Reads.notDeclaration (h : Reads setting.parameters (.expr 2) ts e next) (ranked : continuedRank next ≤ 1) :
    ¬ OpensDeclaration ts := by
  rintro ⟨type, starPos, name, assignPos, vs, typeName, declared, split, typed, named⟩
  obtain ⟨rest, behind⟩ := exists_ahead next
  have product : Reads setting.parameters (.expr 2) (type ++ ⟨.punct .star, starPos⟩ :: name) _
      (some (.punct (AssignOp.punct .plain))) := .product typed named
  have whole : Parses (conditional (.forTokens ts.length)) setting (ts ++ rest) e rest :=
    h.runs.parses (by omega) (by omega) (by omega) behind (by omega)
  have part : Parses (conditional (.forTokens ts.length)) setting
      (type ++ ⟨.punct .star, starPos⟩ :: name ++ (⟨.punct .assign, assignPos⟩ :: vs ++ rest)) _
      (⟨.punct .assign, assignPos⟩ :: vs ++ rest) :=
    product.runs.parses (by omega) (by omega) (by rw [split]; simp; omega) rfl (Nat.lt_succ_self 1)
  have text : type ++ ⟨.punct .star, starPos⟩ :: name ++ (⟨.punct .assign, assignPos⟩ :: vs ++ rest) = ts ++
    rest := by
    simp [split]
  rw [text] at part
  have length := congrArg List.length (whole.unique part).2
  simp only [List.length_append, List.length_cons] at length
  omega

theorem Reads.declared {phrase : Phrase} {tree : phrase.Tree} {type name vs : List Token}
    {typeName declared : Ident}
    {starPos assignPos : Pos} (h : Reads setting.parameters phrase ts tree next) (typed : Names type typeName)
    (named : Names name declared) : phrase = .expr 1 → continuedRank next ≤ 1 →
    ts = type ++ ⟨.punct .star, starPos⟩ :: name ++ ⟨.punct .assign, assignPos⟩ :: vs →
    ∃ e, Reads setting.parameters (.expr 1) vs e next := by
  -- the mark is that of an assignment, either this one or one in its target
  induction h generalizing vs with
  | binary op =>
    intro same
    cases op <;> cases same
  | tighter _ _ inner _ =>
    intro same ranked split
    cases same
    exact absurd ⟨type, starPos, name, assignPos, vs, typeName, declared, split, typed, named⟩
      (inner.notDeclaration ranked)
  | @assign ts us target value next op pos first second ih _ =>
    intro _ ranked split
    have mark : Lexeme.inType (.punct op.punct) = false := by cases op <;> rfl
    rcases split_letters (typed.product named starPos) mark split with ⟨cs, rfl, rfl⟩ | ⟨rfl, -, rfl⟩
    · obtain ⟨e, reading⟩ := ih rfl (by simp) rfl
      exact ⟨_, .assign op pos reading second⟩
    · exact ⟨value, second.loosen (by omega) (by omega) (by omega)⟩
  | _ =>
    intro same
    cases same

theorem exact_block (inner : ExactNested setting n) :
    ExactAnywhere .statement (block (.forTokens n)) setting (n + 1) := by
  intro ts s rest enough h
  obtain ⟨pos, closePos, us, body, rfl, read, rfl⟩ := parses_block.mp h
  rw [List.length_cons] at enough
  have rounds := rounds_of_repeated (fun _ _ _ stop => (parses_statementRound_none.mp stop).1.symm) read
  have all : ∀ {read body : List Stmt} {ts rest : List Token}, Rounds (statementRound (.forTokens n)) setting
    read ts body rest → ts.length ≤ n → ∀ used, Reads setting.parameters .statements used read (ahead ts none) →
      ∃ more, ts = more ++ rest ∧ Reads setting.parameters .statements (used ++ more) body (ahead rest none) := by
    intro read body ts rest rounds
    induction rounds with
    | done read ts => exact fun _ used reading => ⟨[], rfl, by simpa using reading⟩
    | round first _ ih =>
      intro enough used reading
      obtain ⟨-, s, parsed, rfl⟩ := parses_statementRound_some.mp first
      obtain ⟨tokens, rfl, last⟩ := inner.statement enough parsed
      rw [List.length_append] at enough
      rw [ahead_append] at reading
      obtain ⟨behind, rfl, whole⟩ := ih (by omega) _ (.moreStatements reading last)
      exact ⟨tokens ++ behind, by simp, by simpa using whole⟩
  obtain ⟨used, rfl, reading⟩ := all rounds (by omega) [] .noStatements
  exact ⟨_, by simp, .block pos closePos reading⟩

theorem exact_branch (inner : ExactNested setting n) :
    ExactAnywhere .branch (branch (.forTokens n)) setting n := by
  intro ts body rest enough h
  obtain ⟨s, read, rfl⟩ := parses_branch.mp h
  obtain ⟨used, rfl, reading⟩ := inner.statement enough read
  refine ⟨used, rfl, ?_⟩
  unfold branchOf
  split
  · exact .splicedBranch reading
  · rename_i bare
    exact .bareBranch reading bare

theorem exact_condition (inner : ExactNested setting n) (enough : ts.length ≤ n)
    (h : Parses (condition (.forTokens n)) setting ts e rest) : ∃ openPos used closePos,
      ts = ⟨.punct .leftParen, openPos⟩ :: used ++ ⟨.punct .rightParen, closePos⟩ :: rest ∧
        Reads setting.parameters (.expr 1) used e (some (.punct .rightParen)) := by
  obtain ⟨openPos, closePos, us, rfl, read⟩ := parses_condition.mp h
  rw [List.length_cons] at enough
  obtain ⟨used, rfl, reading⟩ := inner.expression (by omega) read (.of_mark rfl rfl)
  exact ⟨openPos, used, closePos, rfl, reading⟩

theorem exact_choice (inner : ExactNested setting n) {pos : Pos} {s : Stmt} (enough : ts.length ≤ n)
    (h : Parses (choice (.forTokens n)) setting (⟨.keyword .ifKw, pos⟩ :: ts) s rest) :
    ∃ used, ⟨.keyword .ifKw, pos⟩ :: ts = used ++ rest ∧
      Reads setting.parameters .statement used s (ahead rest none) := by
  obtain ⟨test, mid, body, last, condition, whenTrue, ending⟩ := parses_choice.mp h
  obtain ⟨openPos, tested, closePos, rfl, reading⟩ := exact_condition inner enough condition
  simp only [List.length_append, List.length_cons] at enough
  obtain ⟨first, rfl, reading'⟩ := exact_branch inner (by omega) whenTrue
  rcases ending with ⟨rfl, noElse, rfl⟩ | ⟨elsePos, us, other, rfl, whenFalse, rfl⟩
  · exact ⟨_, by simp, .choice pos openPos closePos reading reading' noElse⟩
  · simp only [List.length_append, List.length_cons] at enough
    obtain ⟨second, rfl, reading''⟩ := exact_branch inner (by omega) whenFalse
    exact ⟨_, by simp, .choiceElse pos openPos closePos elsePos reading reading' reading''⟩

theorem exact_loop (inner : ExactNested setting n) {pos : Pos} {s : Stmt} (enough : ts.length ≤ n)
    (h : Parses (loop (.forTokens n)) setting (⟨.keyword .doKw, pos⟩ :: ts) s rest) :
    ∃ used, ⟨.keyword .doKw, pos⟩ :: ts = used ++ rest ∧
      Reads setting.parameters .statement used s (ahead rest none) := by
  obtain ⟨body, whilePos, us, test, last, semicolon, hasSemicolon, ran, condition, rfl, stop, noStop, rfl⟩ :=
    parses_loop.mp h
  obtain ⟨first, rfl, reading⟩ := exact_branch inner enough ran
  simp only [List.length_append, List.length_cons] at enough
  obtain ⟨openPos, tested, closePos, rfl, reading'⟩ := exact_condition inner (by omega) condition
  exact ⟨_, by simp, .loop pos whilePos openPos closePos reading reading' stop noStop⟩

theorem exact_declaration (inner : ExactNested setting n) :
    ExactAnywhere .statement (declaration (.forTokens n)) setting (n + 1) := by
  intro ts s rest enough h
  obtain ⟨before, type, behind, name, us, pos, target, ident, isStaticBefore, isStaticBehind, assignPos, stopPos,
    value, rfl, start, static, typed, late, once, names, read, rfl⟩ := declaration_cases h
  simp only [List.length_append, List.length_cons] at enough
  obtain ⟨used, rfl, reading⟩ := inner.expression (by omega) read (.of_mark rfl rfl)
  exact ⟨_, by simp, .declare assignPos stopPos start static typed late once names reading⟩

theorem parses_declaration_of_opens {stopPos : Pos} (reading : Reads setting.parameters (.expr 1) ts e
      (some (.punct .semicolon))) (opens : OpensDeclaration ts) (enough : ts.length ≤ n) :
    ∃ s, Parses (declaration (.forTokens n)) setting (ts ++ ⟨.punct .semicolon, stopPos⟩ :: rest) s rest := by
  obtain ⟨type, starPos, name, assignPos, vs, typeName, declared, rfl, typed, named⟩ := opens
  obtain ⟨value, initial⟩ := reading.declared typed named rfl (Nat.zero_le 1) rfl
  simp only [List.length_append, List.length_cons] at enough
  have noConst : AllConst [] := by simp [AllConst]
  have start : StartsAt ([] ++ [] ++ type) typeName.pos := by
    cases typed <;> rfl
  have pointer : TypeName (type ++ [⟨.punct .star, starPos⟩])
      (.pointer starPos (.named typeName.pos typeName false) true) := by
    have whole := TypeName.intro start noConst .absent typed noConst (.star starPos noConst (.none _))
    simpa using whole
  obtain ⟨namePos, text, more, rfl⟩ := named.head
  have typeRun : Parses ctype setting (type ++ [⟨.punct .star, starPos⟩] ++ (⟨.name text, namePos⟩ :: more ++
      ⟨.punct .assign, assignPos⟩ :: (vs ++ ⟨.punct .semicolon, stopPos⟩ :: rest)))
      (.pointer starPos (.named typeName.pos typeName false) true) _ :=
    pointer.parses (by simp) (by simp) (by simp)
  obtain ⟨typePos, typeText, others, rfl⟩ := typed.head
  refine ⟨_, parses_declaration.mpr ⟨[], false, .pointer starPos (.named typeName.pos typeName false) true, _,
    [], false,
    declared, _, assignPos, stopPos, _, value, .absent, by simp, ⟨_, rfl, ?_⟩, .absent, fun _ => rfl, ?_, rfl,
      named.parses (by simp), initial.parses_expression (by omega) rfl, rfl⟩⟩
  · simpa using typeRun
  · simp

theorem exact_evaluation (inner : ExactNested setting n) {s : Stmt} (enough : ts.length ≤ n + 1)
    (h : Parses (evaluation (.forTokens n)) setting ts s rest)
    (refused : Fails (declaration (.forTokens n)) setting ts) :
    ∃ used, ts = used ++ rest ∧ Reads setting.parameters .statement used s (ahead rest none) := by
  obtain ⟨e, pos, read, rfl⟩ := parses_evaluation.mp h
  obtain ⟨used, rfl, reading⟩ := exact_atRank inner 1 (by omega) (by omega) enough read (.of_mark rfl rfl)
  refine ⟨used ++ [⟨.punct .semicolon, pos⟩], by simp, .eval pos reading fun opens => ?_⟩
  simp only [List.length_append, List.length_cons] at enough
  obtain ⟨s, declared⟩ := parses_declaration_of_opens reading opens (n := n) (by omega)
  exact declared.not_fails refused

theorem exact_statement (inner : ExactNested setting n) :
    ExactAnywhere .statement (statement (.forTokens n)) setting (n + 1) := by
  intro ts s rest enough h
  rcases statement_cases h with ⟨pos, us, rfl, read⟩ | ⟨pos, us, rfl, read⟩ | ⟨pos, us, rfl, read⟩ | read |
    ⟨refused, read⟩
  · exact exact_block inner enough read
  · exact exact_choice inner (Nat.le_of_succ_le_succ enough) read
  · exact exact_loop inner (Nat.le_of_succ_le_succ enough) read
  · exact exact_declaration inner enough read
  · exact exact_evaluation inner enough read refused

theorem exactNested_forTokens (setting : Setting) (n : Nat) : ExactNested setting n := by
  induction n with
  | zero =>
    constructor
    · exact fun _ _ _ _ h => absurd h parses_mismatch
    all_goals exact fun _ _ _ _ h => absurd h parses_mismatch
  | succ n inner =>
    exact {
      statement := exact_statement inner
      expression := exact_atRank inner 1 (by omega) (by omega)
      conditional := exact_atRank inner 2 (by omega) (by omega)
      operand := exact_atRank inner 8 (by omega) (by omega) }

end MacroLift
