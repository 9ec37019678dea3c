import MacroLift.Proofs.Grammar.Productions.Operator

namespace MacroLift.Parser

variable {setting : Setting} {nested : Nested} {ts rest : List Token} {e b : Expr}

def statementRound (nested : Nested) (read : List Stmt) : Parser (Option (List Stmt)) := do
  match ← peek with
  | none | some (.punct .rightBrace) => pure none
  | _ => do
    let statement ← nested.statement
    pure (some (read ++ [statement]))

theorem blockBody_eq (nested : Nested) : blockBody nested = repeated (statementRound nested) [] := by
  unfold blockBody
  congr 1

def endsBlock : Option Lexeme → Bool
  | none | some (.punct .rightBrace) => true
  | _ => false

theorem parses_statementRound_some {read body : List Stmt} :
    Parses (statementRound nested read) setting ts (some body) rest ↔
      endsBlock (ahead ts none) = false ∧ ∃ s, Parses nested.statement setting ts s rest ∧ body = read ++ [s] := by
  rw [statementRound, parses_peek_bind]
  unfold endsBlock
  split
  · simp
  · simp
  · simp only [parses_bind, parses_pure, Option.some.injEq, true_and]
    constructor
    · rintro ⟨s, _, first, rfl, rfl⟩
      exact ⟨s, first, rfl⟩
    · rintro ⟨s, first, rfl⟩
      exact ⟨s, rest, first, rfl, rfl⟩

theorem parses_statementRound_none {read : List Stmt} :
    Parses (statementRound nested read) setting ts none rest ↔ ts = rest ∧ endsBlock (ahead ts none) = true := by
  rw [statementRound, parses_peek_bind]
  unfold endsBlock
  split <;> simp

theorem parses_block {s : Stmt} : Parses (block nested) setting ts s rest ↔
    ∃ pos closePos us body, ts = ⟨.punct .leftBrace, pos⟩ :: us ∧
      Parses (repeated (statementRound nested) []) setting us body (⟨.punct .rightBrace, closePos⟩ :: rest) ∧
      s = .block pos body := by
  rw [block, parses_place_bind, blockBody_eq]
  simp only [parses_bind, parses_expect, parses_pure]
  constructor
  · rintro ⟨_, us, ⟨pos, rfl⟩, body, _, inner, _, _, ⟨closePos, rfl⟩, rfl, rfl⟩
    exact ⟨pos, closePos, us, body, rfl, inner, rfl⟩
  · rintro ⟨pos, closePos, us, body, rfl, inner, rfl⟩
    exact ⟨(), us, ⟨pos, rfl⟩, body, _, inner, (), rest, ⟨closePos, rfl⟩, rfl, rfl⟩

theorem parses_branch {body : List Stmt} : Parses (branch nested) setting ts body rest ↔
    ∃ s, Parses nested.statement setting ts s rest ∧ body = branchOf s := by
  simp only [branch, parses_bind, parses_pure]
  constructor
  · rintro ⟨s, _, read, rfl, rfl⟩
    exact ⟨s, read, rfl⟩
  · rintro ⟨s, read, rfl⟩
    exact ⟨s, rest, read, rfl, rfl⟩

theorem parses_condition : Parses (condition nested) setting ts b rest ↔
    ∃ openPos closePos us, ts = ⟨.punct .leftParen, openPos⟩ :: us ∧
      Parses nested.expression setting us b (⟨.punct .rightParen, closePos⟩ :: rest) := by
  simp only [condition, parses_bind, parses_expect, parses_pure]
  constructor
  · rintro ⟨_, us, ⟨openPos, rfl⟩, e, _, read, _, _, ⟨closePos, rfl⟩, rfl, rfl⟩
    exact ⟨openPos, closePos, us, rfl, read⟩
  · rintro ⟨openPos, closePos, us, rfl, read⟩
    exact ⟨(), us, ⟨openPos, rfl⟩, b, _, read, (), rest, ⟨closePos, rfl⟩, rfl, rfl⟩

theorem parses_choice {s : Stmt} {t : Token} : Parses (choice nested) setting (t :: ts) s rest ↔
    ∃ test mid body last, Parses (condition nested) setting ts test mid ∧
      Parses (branch nested) setting mid body last ∧
      ((last = rest ∧ ahead last none ≠ some (.keyword .elseKw) ∧ s = .choice t.pos test body []) ∨
        ∃ elsePos us other, last = ⟨.keyword .elseKw, elsePos⟩ :: us ∧
          Parses (branch nested) setting us other rest ∧ s = .choice t.pos test body other) := by
  rw [choice, parses_place_bind, parses_skip_bind, List.tail_cons]
  simp only [parses_bind]
  constructor
  · rintro ⟨test, mid, condition, body, last, whenTrue, found, us, mark, h⟩
    refine ⟨test, mid, body, last, condition, whenTrue, ?_⟩
    rcases parses_accept.mp mark with ⟨rfl, elsePos, rfl⟩ | ⟨rfl, rfl, none⟩
    · simp only [if_true, parses_bind, parses_pure] at h
      obtain ⟨other, _, whenFalse, rfl, rfl⟩ := h
      exact .inr ⟨elsePos, us, other, rfl, whenFalse, rfl⟩
    · rw [if_neg Bool.false_ne_true, parses_pure] at h
      exact .inl ⟨h.2, none, h.1.symm⟩
  · rintro ⟨test, mid, body, last, condition, whenTrue, ⟨rfl, none, rfl⟩ | ⟨elsePos, us, other, rfl,
      whenFalse, rfl⟩⟩
    · refine ⟨test, mid, condition, body, last, whenTrue, false, last, parses_accept_false.mpr ⟨rfl, none⟩, ?_⟩
      rw [if_neg Bool.false_ne_true, parses_pure]
      exact ⟨rfl, rfl⟩
    · refine ⟨test, mid, condition, body, _, whenTrue, true, us, parses_accept_true.mpr ⟨elsePos, rfl⟩, ?_⟩
      simp only [if_true, parses_bind, parses_pure]
      exact ⟨other, rest, whenFalse, rfl, rfl⟩

theorem parses_loop {s : Stmt} {t : Token} : Parses (loop nested) setting (t :: ts) s rest ↔
    ∃ body whilePos us test last semicolon hasSemicolon,
      Parses (branch nested) setting ts body (⟨.keyword .whileKw, whilePos⟩ :: us) ∧
      Parses (condition nested) setting us test last ∧ last = semicolon ++ rest ∧
      Optional (.punct .semicolon) semicolon hasSemicolon ∧
      (hasSemicolon = false → ahead rest none ≠ some (.punct .semicolon)) ∧ s = .loop t.pos body test := by
  rw [loop, parses_place_bind, parses_skip_bind, List.tail_cons]
  simp only [parses_bind, parses_expect, parses_pure]
  constructor
  · rintro ⟨body, _, inner, _, us, ⟨whilePos, rfl⟩, test, last, condition, found, _, mark, rfl, rfl⟩
    rcases parses_accept.mp mark with ⟨rfl, stopPos, rfl⟩ | ⟨rfl, rfl, none⟩
    · exact ⟨body, whilePos, us, test, _, _, true, inner, condition, rfl, .present stopPos, by simp, rfl⟩
    · exact ⟨body, whilePos, us, test, _, [], false, inner, condition, rfl, .absent, fun _ => none, rfl⟩
  · rintro ⟨body, whilePos, us, test, last, semicolon, hasSemicolon, inner, condition, rfl, stop, noStop, rfl⟩
    refine ⟨body, _, inner, (), us, ⟨whilePos, rfl⟩, test, _, condition, hasSemicolon, rest, ?_, rfl, rfl⟩
    cases stop with
    | present pos => exact parses_accept_true.mpr ⟨pos, rfl⟩
    | absent => exact parses_accept_false.mpr ⟨rfl, noStop rfl⟩

def staticBehind (isStaticBefore : Bool) : Parser Bool :=
  if isStaticBefore then pure true else accept (.keyword .staticKw)

theorem declaration_eq (nested : Nested) : declaration nested = (do
    let pos ← place
    let isStaticBefore ← accept (.keyword .staticKw)
    let type ← ctype
    let isStatic ← staticBehind isStaticBefore
    let name ← ident
    expect (.punct .assign) "'=' in declaration"
    let value ← nested.expression
    expect (.punct .semicolon) "';'"
    pure (.declare pos type name value isStatic)) := by
  unfold declaration
  congr 1
  funext pos
  congr 1
  funext isStaticBefore
  congr 1
  funext type
  cases isStaticBefore <;> rfl

theorem parses_declaration {s : Stmt} : Parses (declaration nested) setting ts s rest ↔
    ∃ before isStaticBefore type mid behind isStaticBehind name late assignPos stopPos us value,
      Optional (.keyword .staticKw) before isStaticBefore ∧
      (isStaticBefore = false → ahead ts none ≠ some (.keyword .staticKw)) ∧
      (∃ vs, ts = before ++ vs ∧ Parses ctype setting vs type mid) ∧
      Optional (.keyword .staticKw) behind isStaticBehind ∧ (isStaticBefore = true → behind = []) ∧
      (isStaticBefore = false → isStaticBehind = false → ahead mid none ≠ some (.keyword .staticKw)) ∧
      mid = behind ++ late ∧ Parses ident setting late name (⟨.punct .assign, assignPos⟩ :: us) ∧
      Parses nested.expression setting us value (⟨.punct .semicolon, stopPos⟩ :: rest) ∧
      s = .declare (placeOf setting ts) type name value (isStaticBefore || isStaticBehind) := by
  rw [declaration_eq, parses_place_bind]
  simp only [parses_bind, parses_expect, parses_pure]
  constructor
  · rintro ⟨isStaticBefore, vs, mark, type, mid, typed, isStatic, late, mark', name, _, named, _, us,
      ⟨assignPos, rfl⟩, value, _, read, _, _, ⟨stopPos, rfl⟩, rfl, rfl⟩
    rcases parses_accept.mp mark with ⟨rfl, pos, rfl⟩ | ⟨rfl, rfl, none⟩
    · rw [staticBehind, if_pos rfl, parses_pure] at mark'
      obtain ⟨rfl, rfl⟩ := mark'
      exact ⟨_, true, type, mid, [], false, name, mid, assignPos, stopPos, us, value, .present pos, by simp,
        ⟨vs, rfl, typed⟩, .absent, fun _ => rfl, by simp, rfl, named, read, rfl⟩
    · rw [staticBehind, if_neg Bool.false_ne_true] at mark'
      rcases parses_accept.mp mark' with ⟨rfl, pos, rfl⟩ | ⟨rfl, rfl, none'⟩
      · exact ⟨[], false, type, _, _, true, name, late, assignPos, stopPos, us, value, .absent, fun _ => none,
          ⟨_, rfl, typed⟩, .present pos, by simp, by simp, rfl, named, read, rfl⟩
      · exact ⟨[], false, type, mid, [], false, name, mid, assignPos, stopPos, us, value, .absent, fun _ => none,
          ⟨_, rfl, typed⟩, .absent, fun _ => rfl, fun _ _ => none', rfl, named, read, rfl⟩
  · rintro ⟨before, isStaticBefore, type, mid, behind, isStaticBehind, name, late, assignPos, stopPos, us,
      value, static, none, ⟨vs, rfl, typed⟩, static', once, none', rfl, named, read, rfl⟩
    refine ⟨isStaticBefore, vs, ?_, type, _, typed, isStaticBefore || isStaticBehind, late, ?_, name, _,
      named, (), us, ⟨assignPos, rfl⟩, value, _, read, (), rest, ⟨stopPos, rfl⟩, rfl, rfl⟩
    · cases static with
      | present pos => exact parses_accept_true.mpr ⟨pos, rfl⟩
      | absent => exact parses_accept_false.mpr ⟨rfl, none rfl⟩
    · cases isStaticBefore with
      | true =>
        cases once rfl
        rw [staticBehind, if_pos rfl, parses_pure]
        exact ⟨rfl, rfl⟩
      | false =>
        rw [staticBehind, if_neg Bool.false_ne_true]
        cases static' with
        | present pos => exact parses_accept_true.mpr ⟨pos, rfl⟩
        | absent => exact parses_accept_false.mpr ⟨rfl, none' rfl rfl⟩

theorem parses_evaluation {s : Stmt} : Parses (evaluation nested) setting ts s rest ↔
    ∃ e pos, Parses (expression nested) setting ts e (⟨.punct .semicolon, pos⟩ :: rest) ∧ s = .eval e.pos e := by
  simp only [evaluation, parses_bind, parses_expect, parses_pure]
  constructor
  · rintro ⟨e, _, read, _, _, ⟨pos, rfl⟩, rfl, rfl⟩
    exact ⟨e, pos, read, rfl⟩
  · rintro ⟨e, pos, read, rfl⟩
    exact ⟨e, _, read, (), rest, ⟨pos, rfl⟩, rfl, rfl⟩

def opensStatement : Option Lexeme → Bool
  | some (.punct .leftBrace) | some (.keyword .ifKw) | some (.keyword .doKw) => true
  | _ => false

theorem opensStatement_of_leads (h : Leads startsOperand ts) (rest : List Token) :
    opensStatement (ahead (ts ++ rest) none) = false := by
  obtain ⟨⟨lexeme, pos⟩, us, rfl, start⟩ := h
  rw [List.cons_append, ahead_cons]
  unfold opensStatement
  split
  · rename_i same
    cases same
    cases start
  · rename_i same
    cases same
    cases start
  · rename_i same
    cases same
    cases start
  · rfl

theorem parses_statement_plain {s : Stmt} (plain : opensStatement (ahead ts none) = false) :
    Parses (statement nested) setting ts s rest ↔
      Parses (declaration nested) setting ts s rest ∨
        (Fails (declaration nested) setting ts ∧ Parses (evaluation nested) setting ts s rest) := by
  rw [statement, parses_peek_bind]
  split
  case h_1 opened | h_2 opened | h_3 opened =>
    rw [opened] at plain
    cases plain
  case h_4 =>
    rw [parses_bind]
    constructor
    · rintro ⟨found, mid, tried, h⟩
      cases found with
      | some result =>
        obtain ⟨rfl, rfl⟩ := parses_pure.mp h
        exact .inl (parses_attempt_some.mp tried)
      | none =>
        obtain ⟨rfl, failed⟩ := parses_attempt_none.mp tried
        exact .inr ⟨failed, h⟩
    · rintro (read | ⟨failed, read⟩)
      · exact ⟨some s, rest, parses_attempt_some.mpr read, parses_pure.mpr ⟨rfl, rfl⟩⟩
      · exact ⟨none, _, parses_attempt_none.mpr ⟨rfl, failed⟩, read⟩

theorem statement_brace {pos : Pos} {s : Stmt} :
    Parses (statement nested) setting (⟨.punct .leftBrace, pos⟩ :: ts) s rest ↔
    Parses (block nested) setting (⟨.punct .leftBrace, pos⟩ :: ts) s rest := by
  rw [statement, parses_peek_bind, ahead_cons]

theorem statement_if {pos : Pos} {s : Stmt} :
    Parses (statement nested) setting (⟨.keyword .ifKw, pos⟩ :: ts) s rest ↔
    Parses (choice nested) setting (⟨.keyword .ifKw, pos⟩ :: ts) s rest := by
  rw [statement, parses_peek_bind, ahead_cons]

theorem statement_do {pos : Pos} {s : Stmt} :
    Parses (statement nested) setting (⟨.keyword .doKw, pos⟩ :: ts) s rest ↔
    Parses (loop nested) setting (⟨.keyword .doKw, pos⟩ :: ts) s rest := by
  rw [statement, parses_peek_bind, ahead_cons]

theorem statement_cases {s : Stmt} (h : Parses (statement nested) setting ts s rest) :
    (∃ pos us, ts = ⟨.punct .leftBrace, pos⟩ :: us ∧ Parses (block nested) setting ts s rest) ∨
    (∃ pos us, ts = ⟨.keyword .ifKw, pos⟩ :: us ∧ Parses (choice nested) setting ts s rest) ∨
    (∃ pos us, ts = ⟨.keyword .doKw, pos⟩ :: us ∧ Parses (loop nested) setting ts s rest) ∨
    Parses (declaration nested) setting ts s rest ∨
    (Fails (declaration nested) setting ts ∧ Parses (evaluation nested) setting ts s rest) := by
  cases opens : opensStatement (ahead ts none) with
  | false => exact .inr (.inr (.inr ((parses_statement_plain opens).mp h)))
  | true =>
    unfold opensStatement at opens
    split at opens
    case h_1 first =>
      obtain ⟨pos, us, rfl⟩ := exists_of_ahead first
      exact .inl ⟨pos, us, rfl, statement_brace.mp h⟩
    case h_2 first =>
      obtain ⟨pos, us, rfl⟩ := exists_of_ahead first
      exact .inr (.inl ⟨pos, us, rfl, statement_if.mp h⟩)
    case h_3 first =>
      obtain ⟨pos, us, rfl⟩ := exists_of_ahead first
      exact .inr (.inr (.inl ⟨pos, us, rfl, statement_do.mp h⟩))
    case h_4 => cases opens

theorem declaration_cases {s : Stmt} (h : Parses (declaration nested) setting ts s rest) :
    ∃ before type behind name us pos target ident isStaticBefore isStaticBehind assignPos stopPos value,
      ts = before ++ type ++ behind ++ name ++ ⟨.punct .assign, assignPos⟩ :: us ∧
      StartsAt (before ++ type) pos ∧ Optional (.keyword .staticKw) before isStaticBefore ∧
      TypeName type target ∧ Optional (.keyword .staticKw) behind isStaticBehind ∧
      (isStaticBefore = true → behind = []) ∧ Names name ident ∧
      Parses nested.expression setting us value (⟨.punct .semicolon, stopPos⟩ :: rest) ∧
      s = .declare pos target ident value (isStaticBefore || isStaticBehind) := by
  obtain ⟨before, isStaticBefore, target, mid, behind, isStaticBehind, ident, late, assignPos, stopPos, us, value,
    static, -, ⟨vs, rfl, typed⟩, static', once, -, rfl, named, read, rfl⟩ := parses_declaration.mp h
  obtain ⟨type, rfl, typeName⟩ := parses_ctype typed
  obtain ⟨name, rfl, names⟩ := parses_ident named
  have nonempty : before ++ type ≠ [] := List.append_ne_nil_of_right_ne_nil _ typeName.leads.ne_nil
  have start := startsAt_of_ne_nil setting nonempty (behind ++ (name ++ ⟨.punct .assign, assignPos⟩ :: us))
  rw [List.append_assoc] at start
  exact ⟨before, type, behind, name, us, _, target, ident, isStaticBefore, isStaticBehind, assignPos, stopPos, value,
    by simp, start, static, typeName, static', once, names, read, rfl⟩

end MacroLift.Parser
