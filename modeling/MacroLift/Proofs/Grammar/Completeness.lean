import MacroLift.Proofs.Grammar.Completeness.Operand

namespace MacroLift

open MacroLift.Parser

variable {setting : Setting} {ts us rest rest' : List Token} {e b : Expr} {next : Option Lexeme} {n rank : Nat}

theorem RunsExpr.of_repeated (low : 0 < rank) (high : rank ≤ 8)
    (h : ∀ n rest, ts.length ≤ n + 1 → ahead rest none = next → continuedRank next ≤ rank →
      (rank = 2 → continuedRank next ≠ 2) → ∀ b rest', Loops (roundAt (.forTokens n) rank) setting e rest b rest' →
      Parses (atRank (.forTokens n) rank) setting (ts ++ rest) b rest') : RunsExpr setting rank ts e next where
  primary := by omega
  postfixed := by omega
  ranked := fun _ _ => h

theorem runs_binary {left right : Expr} (op : BinaryOp) (pos : Pos)
    (first : RunsExpr setting op.rank ts left (some (.punct op.punct)))
    (second : RunsExpr setting (op.rank + 1) us right next) :
    RunsExpr setting op.rank (ts ++ ⟨.punct op.punct, pos⟩ :: us) (.binary left.pos op left right) next := by
  have bounds := op.rank_bounds
  refine .of_repeated (by omega) (by omega) fun n rest enough behind ranked _ b rest' loops => ?_
  simp only [List.length_append, List.length_cons] at enough
  rw [List.append_assoc]
  have read : Parses (atRank (.forTokens n) (op.rank + 1)) setting (us ++ rest) right rest :=
    second.parses (by omega) (by omega) (by omega) behind (by omega)
  refine first.ranked (by omega) (by omega) n _ (by omega) rfl (by simp) (by omega) b rest' (.round ?_ ?_ loops)
  · rw [roundAt_of_binary (by omega)]
    exact parses_operatorRound_some.mpr ⟨_, _, op, right, rfl, binaryOpAt?_eq_some.mpr ⟨rfl, rfl⟩, read, rfl⟩
  · simp only [List.length_append, List.length_cons]
    omega

theorem runs_assign {target value : Expr} (op : AssignOp) (pos : Pos) (derived : Derives (.expr 2) us value)
    (first : RunsExpr setting 1 ts target (some (.punct op.punct)))
    (second : RunsExpr setting 2 us value next) :
    RunsExpr setting 1 (ts ++ ⟨.punct op.punct, pos⟩ :: us) (.assign target.pos op target value) next := by
  refine .of_repeated (by omega) (by omega) fun n rest enough behind ranked _ b rest' loops => ?_
  simp only [List.length_append, List.length_cons] at enough
  rw [List.append_assoc]
  have read := second.conditional derived (n := n) (by omega) behind ranked
  refine first.ranked (by omega) (by omega) n _ (by omega) rfl (by simp) (by omega) b rest' (.round ?_ ?_ loops)
  · exact parses_operatorRound_some.mpr ⟨_, _, op, value, rfl, assignOp?_eq_some.mpr rfl, read, rfl⟩
  · simp only [List.length_append, List.length_cons]
    omega

theorem loops_conditional {nested : Nested} (h : Loops (roundAt nested 2) setting e rest b rest') :
    e = b ∧ rest = rest' := by
  cases h with
  | done => exact ⟨rfl, rfl⟩
  | round first =>
    obtain ⟨t, us, op, right, rfl, means, -⟩ := parses_operatorRound_some.mp first
    cases means

theorem runs_ternary {vs : List Token} {condition whenTrue whenFalse : Expr} (questionPos colonPos : Pos)
    (derived : Derives (.expr 2) us whenTrue) (derived' : Derives (.expr 2) vs whenFalse)
    (test : RunsExpr setting 3 ts condition (some (.punct .question)))
    (first : RunsExpr setting 2 us whenTrue (some (.punct .colon)))
    (second : RunsExpr setting 2 vs whenFalse next) :
    RunsExpr setting 2 (ts ++ ⟨.punct .question, questionPos⟩ :: us ++ ⟨.punct .colon, colonPos⟩ :: vs)
      (.ternary condition.pos condition whenTrue whenFalse) next := by
  refine .of_repeated (by omega) (by omega) fun n rest enough behind ranked noQuestion b rest' loops => ?_
  obtain ⟨rfl, rfl⟩ := loops_conditional loops
  simp only [List.length_append, List.length_cons] at enough
  simp only [List.append_assoc, List.cons_append]
  have stop := noQuestion rfl
  refine parses_conditional.mpr ⟨condition, _, test.parses (by omega) (by omega) (by omega) rfl ?_, .inr
    ⟨questionPos, colonPos, _, vs ++ rest, whenTrue, whenFalse, rfl, ?_, ?_, rfl⟩⟩
  · exact Nat.lt_succ_self 2
  · exact first.conditional derived (by omega) rfl (Nat.zero_le 1)
  · exact second.conditional derived' (by omega) behind (by omega)

theorem runs_tighter (low : 0 < rank) (high : rank < 9) (inner : RunsExpr setting (rank + 1) ts e next) :
    RunsExpr setting rank ts e next := by
  by_cases last : rank = 8
  · subst last
    exact runs_postfixed inner
  refine .of_repeated low (by omega) fun n rest enough behind ranked noQuestion b rest' loops => ?_
  have read : Parses (atRank (.forTokens n) (rank + 1)) setting (ts ++ rest) e rest :=
    inner.parses (by omega) (by omega) enough behind (by omega)
  by_cases conditional : rank = 2
  · subst conditional
    obtain ⟨rfl, rfl⟩ := loops_conditional loops
    refine parses_conditional.mpr ⟨e, rest, read, .inl ⟨rfl, fun question => ?_, rfl⟩⟩
    rw [← behind, question] at noQuestion
    exact noQuestion rfl rfl
  · have ranks : isRepeated rank = true := isRepeated_iff.mpr (by omega)
    rw [atRank_eq ranks, parses_bind]
    exact ⟨e, rest, read, loops.repeated⟩

theorem runs_operand {name : List Token} {pos : Pos} {label : Option String} (constraintPos openPos closePos : Pos)
    (constraint : String) (start : StartsAt (name ++ [⟨.string constraint, constraintPos⟩]) pos)
    (named : OperandName name label) (derived : Derives (.expr 1) ts e)
    (inner : RunsExpr setting 1 ts e (some (.punct .rightParen))) :
    Phrase.operand.Runs setting
      (name ++ ⟨.string constraint, constraintPos⟩ :: ⟨.punct .leftParen, openPos⟩ :: ts ++
        [⟨.punct .rightParen, closePos⟩])
      (.mk pos label constraint e) next := by
  intro n rest enough
  simp only [List.length_append, List.length_cons, List.length_nil] at enough
  simp only [List.append_assoc, List.cons_append, List.nil_append]
  have place : placeOf setting (name ++ ⟨.string constraint, constraintPos⟩ :: ⟨.punct .leftParen, openPos⟩ ::
      (ts ++ ⟨.punct .rightParen, closePos⟩ :: rest)) = pos := by
    have found := placeOf_of_startsAt setting start (⟨.punct .leftParen, openPos⟩ ::
      (ts ++ ⟨.punct .rightParen, closePos⟩ :: rest))
    simpa using found
  refine parses_asmOperand.mpr ⟨label, constraintPos, openPos, closePos, constraint, _, e,
    asmName_parses named (by simp), inner.expression derived (by omega) rfl rfl, by rw [place]⟩

theorem runs_operands {os : List AsmOperand} (derived : Derives .operands ts os)
    (inner : RunsList (fun n => asmOperand (.forTokens n)) setting ts os next) (enough : ts.length ≤ n)
    (behind : ahead rest none = next) (noComma : next ≠ some (.punct .comma))
    (noOperand : opensOperand next = false) :
    Parses (asmOperands (.forTokens n)) setting (ts ++ rest) os rest := by
  rcases inner.loops enough behind noComma with ⟨rfl, rfl⟩ | ⟨first, mid, read, more⟩
  · exact parses_asmOperands.mpr (.inr ⟨by rw [List.nil_append, behind]; exact noOperand, rfl, rfl⟩)
  · refine parses_asmOperands.mpr (.inl ⟨?_, first, mid, read, more⟩)
    obtain ⟨used, same, operand⟩ := sound_asmOperand (soundNested_forTokens setting n) read
    obtain ⟨⟨lexeme, pos⟩, us, rfl, start⟩ := operand.starts
    rw [same]
    dsimp only at start
    split at start
    · rfl
    · rfl
    · cases start

theorem runs_sections {vs : List Token} {outs ins : List AsmOperand} {texts : List String}
    (pos nextPos lastPos : Pos) (derived : Derives .operands ts outs) (derived' : Derives .operands us ins)
    (written : RunsList (fun n => asmOperand (.forTokens n)) setting ts outs (some (.punct .colon)))
    (read : RunsList (fun n => asmOperand (.forTokens n)) setting us ins (some (.punct .colon)))
    (clobbered : Clobbers vs texts) :
    Phrase.sections.Runs setting
      (⟨.punct .colon, pos⟩ :: ts ++ ⟨.punct .colon, nextPos⟩ :: us ++ ⟨.punct .colon, lastPos⟩ :: vs)
      (outs, ins, texts) next := by
  rintro rfl n rest enough behind
  simp only [List.length_append, List.length_cons] at enough
  simp only [List.append_assoc, List.cons_append]
  have outputs : Parses (asmOperands (.forTokens n)) setting
      (ts ++ ⟨.punct .colon, nextPos⟩ :: (us ++ ⟨.punct .colon, lastPos⟩ :: (vs ++ rest))) outs _ :=
    runs_operands derived written (by omega) rfl (by simp) rfl
  have inputs : Parses (asmOperands (.forTokens n)) setting (us ++ ⟨.punct .colon, lastPos⟩ :: (vs ++ rest)) ins _ :=
    runs_operands derived' read (by omega) rfl (by simp) rfl
  refine parses_asmSections.mpr (.inr ⟨pos, _, outs, _, rfl, outputs, .inr ⟨nextPos, _, ins, _, rfl, inputs,
    .inr ⟨lastPos, _, texts, rfl, clobbers_parses clobbered ?_ ?_, rfl⟩⟩⟩)
  · simp [behind]
  · simp [behind]

theorem runs_inputs (pos nextPos : Pos) {outs ins : List AsmOperand}
    (derived : Derives .operands ts outs) (derived' : Derives .operands us ins)
    (written : RunsList (fun n => asmOperand (.forTokens n)) setting ts outs (some (.punct .colon)))
    (read : RunsList (fun n => asmOperand (.forTokens n)) setting us ins next) :
    Phrase.sections.Runs setting (⟨.punct .colon, pos⟩ :: ts ++ ⟨.punct .colon, nextPos⟩ :: us)
      (outs, ins, []) next := by
  rintro rfl n rest enough behind
  simp only [List.length_append, List.length_cons] at enough
  simp only [List.append_assoc, List.cons_append]
  have outputs : Parses (asmOperands (.forTokens n)) setting (ts ++ ⟨.punct .colon, nextPos⟩ :: (us ++ rest)) outs _ :=
    runs_operands derived written (by omega) rfl (by simp) rfl
  have inputs := runs_operands derived' read (n := n) (by omega) behind (by simp) rfl
  exact parses_asmSections.mpr (.inr ⟨pos, _, outs, _, rfl, outputs, .inr ⟨nextPos, _, ins, rest, rfl, inputs,
    .inl ⟨rfl, by simp [behind], rfl⟩⟩⟩)

theorem runs_outputs (pos : Pos) {outs : List AsmOperand} (derived : Derives .operands ts outs)
    (written : RunsList (fun n => asmOperand (.forTokens n)) setting ts outs next) :
    Phrase.sections.Runs setting (⟨.punct .colon, pos⟩ :: ts) (outs, [], []) next := by
  rintro rfl n rest enough behind
  rw [List.length_cons] at enough
  rw [List.cons_append]
  have outputs := runs_operands derived written (n := n) (by omega) behind (by simp) rfl
  exact parses_asmSections.mpr (.inr ⟨pos, _, outs, rest, rfl, outputs, .inl ⟨rfl, by simp [behind], rfl⟩⟩)

theorem runs_block {body : List Stmt} (pos closePos : Pos)
    (inner : Phrase.statements.Runs setting ts body (some (.punct .rightBrace))) :
    Phrase.statement.Runs setting (⟨.punct .leftBrace, pos⟩ :: ts ++ [⟨.punct .rightBrace, closePos⟩])
      (.block pos body) next := by
  intro n rest enough _
  simp only [List.length_append, List.length_cons, List.length_nil] at enough
  simp only [List.cons_append, List.append_assoc, List.nil_append]
  have stop : Loops (statementRound (.forTokens n)) setting body (⟨.punct .rightBrace, closePos⟩ :: rest) body
      (⟨.punct .rightBrace, closePos⟩ :: rest) := .done (parses_statementRound_none.mpr ⟨rfl, rfl⟩)
  exact statement_brace.mpr (parses_block.mpr
    ⟨pos, closePos, _, body, rfl, (inner n _ (by omega) rfl _ _ stop).repeated, rfl⟩)

theorem runs_condition (openPos closePos : Pos) (derived : Derives (.expr 1) ts e)
    (inner : RunsExpr setting 1 ts e (some (.punct .rightParen))) (enough : ts.length ≤ n) (rest : List Token) :
    Parses (condition (.forTokens n)) setting
      (⟨.punct .leftParen, openPos⟩ :: (ts ++ ⟨.punct .rightParen, closePos⟩ :: rest)) e rest :=
  parses_condition.mpr ⟨openPos, closePos, _, rfl, inner.expression derived enough rfl rfl⟩

theorem runs_choice {test : Expr} {body : List Stmt} (pos openPos closePos : Pos)
    (derived : Derives (.expr 1) ts test) (condition : RunsExpr setting 1 ts test (some (.punct .rightParen)))
    (whenTrue : Phrase.branch.Runs setting us body next) (noElse : next ≠ some (.keyword .elseKw)) :
    Phrase.statement.Runs setting
      (⟨.keyword .ifKw, pos⟩ :: ⟨.punct .leftParen, openPos⟩ :: ts ++ ⟨.punct .rightParen, closePos⟩ :: us)
      (.choice pos test body []) next := by
  intro n rest enough behind
  simp only [List.length_append, List.length_cons] at enough
  simp only [List.cons_append, List.append_assoc]
  have tested := runs_condition openPos closePos derived condition (n := n) (by omega) (us ++ rest)
  exact statement_if.mpr (parses_choice.mpr
    ⟨test, _, body, rest, tested, whenTrue n rest (by omega) behind, .inl
      ⟨rfl, by rw [behind]; exact noElse, rfl⟩⟩)

theorem runs_choiceElse {vs : List Token} {test : Expr} {body other : List Stmt}
    (pos openPos closePos elsePos : Pos)
    (derived : Derives (.expr 1) ts test) (condition : RunsExpr setting 1 ts test (some (.punct .rightParen)))
    (whenTrue : Phrase.branch.Runs setting us body (some (.keyword .elseKw)))
    (whenFalse : Phrase.branch.Runs setting vs other next) :
    Phrase.statement.Runs setting
      (⟨.keyword .ifKw, pos⟩ :: ⟨.punct .leftParen, openPos⟩ :: ts ++ ⟨.punct .rightParen, closePos⟩ :: us ++
        ⟨.keyword .elseKw, elsePos⟩ :: vs)
      (.choice pos test body other) next := by
  intro n rest enough behind
  simp only [List.length_append, List.length_cons] at enough
  simp only [List.cons_append, List.append_assoc]
  have tested := runs_condition openPos closePos derived condition (n := n) (by omega)
    (us ++ ⟨.keyword .elseKw, elsePos⟩ :: (vs ++ rest))
  exact statement_if.mpr (parses_choice.mpr
    ⟨test, _, body, _, tested, whenTrue n _ (by omega) rfl, .inr
      ⟨elsePos, _, other, rfl, whenFalse n rest (by omega) behind, rfl⟩⟩)

theorem runs_loop {semicolon : List Token} {test : Expr} {body : List Stmt} {hasSemicolon : Bool}
    (pos whilePos openPos closePos : Pos) (derived : Derives (.expr 1) us test)
    (inner : Phrase.branch.Runs setting ts body (some (.keyword .whileKw)))
    (condition : RunsExpr setting 1 us test (some (.punct .rightParen)))
    (stop : Optional (.punct .semicolon) semicolon hasSemicolon)
    (noStop : hasSemicolon = false → next ≠ some (.punct .semicolon)) :
    Phrase.statement.Runs setting
      (⟨.keyword .doKw, pos⟩ :: ts ++ ⟨.keyword .whileKw, whilePos⟩ :: ⟨.punct .leftParen, openPos⟩ :: us ++
        ⟨.punct .rightParen, closePos⟩ :: semicolon)
      (.loop pos body test) next := by
  intro n rest enough behind
  simp only [List.length_append, List.length_cons] at enough
  simp only [List.cons_append, List.append_assoc]
  have tested := runs_condition openPos closePos derived condition (n := n) (by omega) (semicolon ++ rest)
  exact statement_do.mpr (parses_loop.mpr
    ⟨body, whilePos, _, test, _, semicolon, hasSemicolon, inner n _ (by omega) rfl, tested, rfl, stop,
      fun missing => by rw [behind]; exact noStop missing, rfl⟩)

theorem runs_declare {before behind vs : List Token} {pos : Pos} {type : CType} {name : Ident} {value : Expr}
    {isStaticBefore isStaticBehind : Bool} (assignPos stopPos : Pos) (start : StartsAt (before ++ ts) pos)
    (static : Optional (.keyword .staticKw) before isStaticBefore) (typed : TypeName ts type)
    (late : Optional (.keyword .staticKw) behind isStaticBehind) (once : isStaticBefore = true → behind = [])
    (names : Names us name) (derived : Derives (.expr 1) vs value)
    (initial : RunsExpr setting 1 vs value (some (.punct .semicolon))) :
    Phrase.statement.Runs setting
      (before ++ ts ++ behind ++ us ++ ⟨.punct .assign, assignPos⟩ :: vs ++ [⟨.punct .semicolon, stopPos⟩])
      (.declare pos type name value (isStaticBefore || isStaticBehind)) next := by
  intro n rest enough _
  simp only [List.length_append, List.length_cons, List.length_nil] at enough
  simp only [List.cons_append, List.append_assoc, List.nil_append]
  obtain ⟨namePos, text, more, rfl⟩ := names.head
  obtain ⟨t, ws, rfl, leads⟩ := typed.leads
  have plain := typed.letters t (by simp)
  have noStatic : t.lexeme ≠ .keyword .staticKw := by
    intro same
    rw [same] at plain
    cases plain
  have opens : opensStatement (some t.lexeme) = false := by
    revert plain
    unfold Lexeme.inType opensStatement
    split <;> simp_all
  have typeRun : Parses ctype setting
      (t :: ws ++ (behind ++ (⟨.name text, namePos⟩ :: more ++ (⟨.punct .assign, assignPos⟩ :: (vs ++
        ⟨.punct .semicolon, stopPos⟩ :: rest))))) type _ :=
    typed.parses (by cases late <;> simp) (by cases late <;> simp) (by cases late <;> simp)
  refine (parses_statement_plain ?_).mpr (.inl (parses_declaration.mpr ⟨before, isStaticBefore, type, _, behind,
    isStaticBehind, name, _, assignPos, stopPos, _, value, static, ?_, ⟨_, rfl, typeRun⟩, late, once, ?_, rfl,
    names.parses (by simp), initial.expression derived (by omega) rfl rfl, ?_⟩))
  · cases static with
    | absent => exact opens
    | present => rfl
  · intro absent
    cases static with
    | present => cases absent
    | absent => simpa using noStatic
  · intro _ absent
    cases late with
    | present => cases absent
    | absent => simp
  · have place := placeOf_of_startsAt setting start (behind ++ (⟨.name text, namePos⟩ :: more ++
      (⟨.punct .assign, assignPos⟩ :: (vs ++ ⟨.punct .semicolon, stopPos⟩ :: rest))))
    simp only [List.append_assoc] at place
    rw [place]

theorem runs_eval (pos : Pos) (derived : Derives (.expr 1) ts e)
    (inner : RunsExpr setting 1 ts e (some (.punct .semicolon))) (noDeclaration : ¬ OpensDeclaration ts) :
    Phrase.statement.Runs setting (ts ++ [⟨.punct .semicolon, pos⟩]) (.eval e.pos e) next := by
  intro n rest enough _
  rw [List.length_append, List.length_singleton] at enough
  rw [List.append_assoc, List.singleton_append]
  have plain := opensStatement_of_leads derived.starts (⟨.punct .semicolon, pos⟩ :: rest)
  refine (parses_statement_plain plain).mpr (.inr ⟨fails_declaration derived noDeclaration, ?_⟩)
  exact parses_evaluation.mpr ⟨e, pos, inner.parses (by omega) (by omega) (by omega) rfl
    (by simp [continuedRank]), rfl⟩

theorem statement_nested {s : Stmt} (inner : Phrase.statement.Runs setting ts s next)
    (derived : Derives .statement ts s) (enough : ts.length ≤ n) (behind : ahead rest none = next) :
    Parses (Nested.forTokens n).statement setting (ts ++ rest) s rest := by
  obtain ⟨t, us, rfl, -⟩ := derived.starts
  cases n with
  | zero => simp at enough
  | succ n => exact inner n rest enough behind

theorem runs_branch {s : Stmt} (inner : Phrase.statement.Runs setting ts s next)
    (derived : Derives .statement ts s) :
    Phrase.branch.Runs setting ts (branchOf s) next := by
  intro n rest enough behind
  exact parses_branch.mpr ⟨s, statement_nested inner derived enough behind, rfl⟩

theorem runs_moreStatements {body : List Stmt} {s : Stmt}
    (first : Phrase.statements.Runs setting ts body (ahead us next))
    (derived : Derives .statement us s) (last : Phrase.statement.Runs setting us s next) :
    Phrase.statements.Runs setting (ts ++ us) (body ++ [s]) next := by
  intro n rest enough behind b rest' loops
  rw [List.length_append] at enough
  rw [List.append_assoc]
  refine first n (us ++ rest) (by omega) (by rw [ahead_append, behind]) b rest' (.round ?_ ?_ loops)
  · refine parses_statementRound_some.mpr ⟨?_, s, statement_nested last derived (by omega) behind, rfl⟩
    obtain ⟨⟨lexeme, pos⟩, vs, rfl, start⟩ := derived.starts
    rw [List.cons_append, ahead_cons]
    unfold endsBlock
    split
    · rename_i same
      cases same
    · rename_i same
      cases same
      cases start
    · rfl
  · obtain ⟨t, vs, rfl, -⟩ := derived.starts
    simp only [List.cons_append, List.length_cons, List.length_append]
    omega

theorem Reads.runs {phrase : Phrase} {tree : phrase.Tree} (h : Reads setting.parameters phrase ts tree next) :
    phrase.Runs setting ts tree next := by
  induction h with
  | name names => exact runs_name names
  | number pos text found pasted unpasted => exact runs_number pos text found pasted unpasted
  | character pos text => exact runs_character pos text
  | piece pieces => exact runs_piece pieces
  | pieces pieces => exact runs_pieces pieces
  | parens openPos closePos inner ih => exact runs_parens openPos closePos inner.derives ih
  | base inner more ih => exact runs_base inner.derives ih more
  | call openPos closePos callee inner noCast noAssembly ih ih' =>
    exact runs_call openPos closePos callee.derives inner.derives ih (ih' rfl) noCast noAssembly
  | field isArrow pos owner names ih => exact runs_field isArrow pos owner.derives ih names
  | closed inner whole follow ih => exact runs_closed inner.derives ih whole follow
  | chained inner follow noCast ih => exact runs_chained inner.derives ih follow noCast
  | step pos isStep inner _ noCast ih => exact runs_step pos isStep inner.derives ih noCast
  | assembly openPos firstPos closePos first opener isWord marked more behind _ noCast ih ih' =>
    exact runs_assembly openPos firstPos closePos first opener.derives behind.derives ih isWord marked
      more (ih' rfl) noCast
  | cast openPos closePos type operand noParameter ih =>
    exact runs_cast openPos closePos type operand.derives ih noParameter
  | addressOf pos operand ih => exact runs_addressOf pos operand.derives ih
  | before op pos operand ih => exact runs_before op pos operand.derives ih
  | binary op pos _ _ first second => exact runs_binary op pos first second
  | ternary questionPos colonPos _ first second ih ih' ih'' =>
    exact runs_ternary questionPos colonPos first.derives second.derives ih ih' ih''
  | assign op pos _ second ih ih' => exact runs_assign op pos second.derives ih ih'
  | tighter low high _ ih => exact runs_tighter low high ih
  | noArguments => exact fun _ _ _ _ _ => .inl ⟨rfl, rfl⟩
  | argument inner ih =>
    exact fun stop => runsList_one fun n rest enough behind => ih.expression inner.derives enough behind stop
  | moreArguments commaPos _ some last ih ih' =>
    exact fun stop => runsList_more commaPos (ih rfl) some fun n rest enough behind =>
      ih'.expression last.derives enough behind stop
  | operand constraintPos openPos closePos constraint start named inner ih =>
    exact runs_operand constraintPos openPos closePos constraint start named inner.derives ih
  | noOperands => exact fun _ _ _ _ => .inl ⟨rfl, rfl⟩
  | oneOperand _ ih => exact runsList_one fun n rest enough _ => ih n rest enough
  | moreOperands commaPos _ some _ ih ih' =>
    exact runsList_more commaPos ih some fun n rest enough _ => ih' n rest enough
  | noSections =>
    rintro rfl n rest _ behind
    exact parses_asmSections.mpr (.inl ⟨rfl, by simp [behind], rfl⟩)
  | outputs pos written ih => exact runs_outputs pos written.derives ih
  | inputs pos nextPos written read ih ih' => exact runs_inputs pos nextPos written.derives read.derives ih ih'
  | clobbers pos nextPos lastPos written read clobbered ih ih' =>
    exact runs_sections pos nextPos lastPos written.derives read.derives ih ih' clobbered
  | block pos closePos _ ih => exact runs_block pos closePos ih
  | choice pos openPos closePos condition _ noElse ih ih' =>
    exact runs_choice pos openPos closePos condition.derives ih ih' noElse
  | choiceElse pos openPos closePos elsePos condition _ _ ih ih' ih'' =>
    exact runs_choiceElse pos openPos closePos elsePos condition.derives ih ih' ih''
  | loop pos whilePos openPos closePos _ condition stop noStop ih ih' =>
    exact runs_loop pos whilePos openPos closePos condition.derives ih ih' stop noStop
  | declare assignPos stopPos start static typed late once names initial ih =>
    exact runs_declare assignPos stopPos start static typed late once names initial.derives ih
  | eval pos inner noDeclaration ih => exact runs_eval pos inner.derives ih noDeclaration
  | splicedBranch inner ih => exact runs_branch ih inner.derives
  | bareBranch inner bare ih =>
    have whole := runs_branch ih inner.derives
    unfold branchOf at whole
    split at whole
    · exact absurd rfl (bare _ _)
    · exact whole
  | noStatements => exact fun _ _ _ _ _ _ loops => loops
  | moreStatements _ last ih ih' => exact runs_moreStatements ih last.derives ih'

end MacroLift
