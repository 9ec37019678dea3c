import MacroLift.Grammar.Macro
import MacroLift.Proofs.Grammar.Exactness

namespace MacroLift

open MacroLift.Parser

variable {setting : Setting} {ts us rest : List Token} {e : Expr} {s : Stmt} {b : Body} {n : Nat}

/-- `body ::= <empty> | statement | expression`, up to the end of the text. -/
inductive DerivesBody (setting : Setting) : List Token → Body → Prop where
  | empty : DerivesBody setting [] (.statement setting.stop (.block setting.stop []))
  | statement {ts : List Token} {s : Stmt} {pos : Pos} (start : StartsAt ts pos) (inner : Derives .statement ts s) :
      DerivesBody setting ts (.statement pos s)
  | expression {ts : List Token} {e : Expr} {pos : Pos} (start : StartsAt ts pos) (inner : Derives (.expr 1) ts e) :
      DerivesBody setting ts (.expression pos e)

inductive ReadsBody (setting : Setting) : List Token → Body → Prop where
  | empty : ReadsBody setting [] (.statement setting.stop (.block setting.stop []))
  | statement {ts : List Token} {s : Stmt} {pos : Pos} (start : StartsAt ts pos)
      (inner : Reads setting.parameters .statement ts s none) : ReadsBody setting ts (.statement pos s)
  | expression {ts : List Token} {e : Expr} {pos : Pos} (start : StartsAt ts pos)
      (inner : Reads setting.parameters (.expr 1) ts e none) : ReadsBody setting ts (.expression pos e)

theorem ReadsBody.derives (h : ReadsBody setting ts b) : DerivesBody setting ts b := by
  cases h with
  | empty => exact .empty
  | statement start inner => exact .statement start inner.derives
  | expression start inner => exact .expression start inner.derives

theorem parses_whole {α : Type} {p : Parser α} {a : α} :
    Parses (whole p) setting ts a rest ↔ Parses p setting ts a [] ∧ rest = [] := by
  simp only [whole, parses_bind, parses_expectEnd, parses_pure]
  constructor
  · rintro ⟨a, _, read, _, _, ⟨rfl, rfl⟩, rfl, rfl⟩
    exact ⟨read, rfl⟩
  · rintro ⟨read, rfl⟩
    exact ⟨a, [], read, (), [], ⟨rfl, rfl⟩, rfl, rfl⟩

theorem startsAt_placeOf (setting : Setting) (nonempty : ts ≠ []) : StartsAt ts (placeOf setting ts) := by
  have start := startsAt_of_ne_nil setting nonempty []
  rwa [List.append_nil] at start

theorem proper_nil : Proper setting [] := .of_mark rfl rfl

theorem readsBody_of_body (h : body setting ts = .ok b) : ReadsBody setting ts b := by
  have inner := exactNested_forTokens setting ts.length
  unfold body at h
  dsimp only at h
  split at h
  · cases h
    rename_i none
    rw [List.isEmpty_iff] at none
    subst none
    exact .empty
  · rename_i some
    rw [List.isEmpty_iff] at some
    have start := startsAt_placeOf setting some
    split at h
    · rename_i s rest asStatement
      cases h
      obtain ⟨read, -⟩ := parses_whole.mp asStatement
      obtain ⟨used, same, reading⟩ := inner.statement (Nat.le_refl _) read
      rw [List.append_nil] at same
      subst same
      exact .statement start reading
    · split at h
      · cases h
      · split at h
        · rename_i e rest asExpression
          cases h
          obtain ⟨read, -⟩ := parses_whole.mp asExpression
          obtain ⟨used, same, reading⟩ := inner.expression (Nat.le_refl _) read proper_nil
          rw [List.append_nil] at same
          subst same
          exact .expression start reading
        · split at h <;> cases h

def FailsWith {α : Type} (p : Parser α) (setting : Setting) (ts : List Token) (failure : Failure) : Prop :=
  (p setting ts).outcome = .error failure

theorem failsWith_then {α β : Type} {p : Parser α} {f : α → Parser β} {a : α} {failure : Failure}
    (h : Parses p setting ts a rest) (failed : FailsWith (f a) setting rest failure) :
    FailsWith (p >>= f) setting ts failure := by
  have read : (p setting ts).outcome = .ok (a, rest) := h
  rw [FailsWith, outcome_bind, read]
  exact failed

theorem failsWith_first {α β : Type} {p : Parser α} {failure : Failure} (f : α → Parser β)
    (h : FailsWith p setting ts failure) : FailsWith (p >>= f) setting ts failure := by
  have failed : (p setting ts).outcome = .error failure := h
  rw [FailsWith, outcome_bind, failed]

theorem failsWith_expect {lexeme : Lexeme} {description : String} (h : ahead ts none ≠ some lexeme) :
    FailsWith (expect lexeme description) setting ts (mismatchAt setting ts (.missingToken description)) := by
  rw [expect]
  exact failsWith_then (parses_accept_false.mpr ⟨rfl, h⟩) rfl

theorem failsWith_statement_of_evaluation {nested : Nested} {failure : Failure}
    (plain : opensStatement (ahead ts none) = false) (refused : Fails (declaration nested) setting ts)
    (evaluated : FailsWith (evaluation nested) setting ts failure) :
    FailsWith (whole (statement nested)) setting ts failure := by
  refine failsWith_first _ ?_
  rw [statement]
  refine failsWith_then (parses_peek.mpr ⟨rfl, rfl⟩) ?_
  split
  case h_1 opened | h_2 opened | h_3 opened =>
    rw [opened] at plain
    cases plain
  case h_4 => exact failsWith_then (parses_attempt_none.mpr ⟨rfl, refused⟩) evaluated

theorem failsWith_statement {nested : Nested} (plain : opensStatement (ahead ts none) = false)
    (refused : Fails (declaration nested) setting ts) (read : Parses (expression nested) setting ts e rest)
    (noSemicolon : ahead rest none ≠ some (.punct .semicolon)) :
    FailsWith (whole (statement nested)) setting ts (mismatchAt setting rest (.missingToken "';'")) := by
  refine failsWith_statement_of_evaluation plain refused ?_
  rw [evaluation]
  exact failsWith_then read (failsWith_first _ (failsWith_expect noSemicolon))

/-- What can be neither in the head of a declaration nor behind its value, nor an operator. -/
def endsDeclaration (next : Option Lexeme) : Prop :=
  continuedRank next = 0 ∧ next.any Lexeme.inHeader = false ∧ next ≠ some (.punct .semicolon)

theorem fails_declaration_of_reads (reading : Reads setting.parameters (.expr 1) ts e (ahead rest none))
    (ends : endsDeclaration (ahead rest none)) (enough : ts.length ≤ n + 1) :
    Fails (declaration (.forTokens n)) setting (ts ++ rest) := by
  obtain ⟨noOperator, noHeader, noSemicolon⟩ := ends
  refine fails_of_not_parses fun s rest' parsed => ?_
  obtain ⟨before, type, behind, name, vs, pos, target, ident, isStaticBefore, isStaticBehind, assignPos, stopPos,
    value, same, -, static, typed, late, -, names, read, -⟩ := declaration_cases parsed
  -- the mark of the declaration stands inside the expression, which ends behind it
  have inside : ∃ ws, ts = before ++ type ++ behind ++ name ++ ⟨.punct .assign, assignPos⟩ :: ws ∧
      vs = ws ++ rest := by
    rcases List.append_eq_append_iff.mp same with ⟨cs, eq, rfl⟩ | ⟨cs, rfl, eq⟩
    · cases cs with
      | nil => cases noOperator
      | cons c cs =>
        have letter := header_letters static typed late names c (by rw [eq]; simp)
        rw [List.cons_append, ahead_cons, Option.any_some, letter] at noHeader
        cases noHeader
    · cases cs with
      | nil =>
        subst eq
        cases noOperator
      | cons c cs =>
        cases eq
        exact ⟨cs, rfl, rfl⟩
  obtain ⟨ws, rfl, rfl⟩ := inside
  obtain ⟨owner, starPos, typeIdent, rfl, rfl, rfl, typeNames⟩ :=
    pointer_of_header static typed late names reading.derives
  simp only [List.length_append, List.length_cons] at enough
  have product : [] ++ (owner ++ [⟨.punct .star, starPos⟩]) ++ [] ++ name ++ ⟨.punct .assign, assignPos⟩ :: ws =
      owner ++ ⟨.punct .star, starPos⟩ :: name ++ ⟨.punct .assign, assignPos⟩ :: ws := by simp
  obtain ⟨value', initial⟩ := reading.declared typeNames names rfl (by omega) product
  have read' : Parses (Nested.forTokens n).expression setting (ws ++ rest) value' rest :=
    initial.parses_expression (by omega) noOperator
  obtain ⟨-, rfl⟩ := read.unique read'
  exact noSemicolon rfl

theorem failsWith_statement_of_reads (reading : Reads setting.parameters (.expr 1) ts e (ahead rest none))
    (ends : endsDeclaration (ahead rest none)) (enough : ts.length ≤ n) :
    FailsWith (whole (Nested.forTokens n).statement) setting (ts ++ rest)
      (mismatchAt setting rest (.missingToken "';'")) := by
  have leads : Leads startsOperand ts := reading.derives.starts
  have long := List.length_pos_iff.mpr leads.ne_nil
  obtain ⟨n, rfl⟩ : ∃ m, n = m + 1 := ⟨n - 1, by omega⟩
  have refused := fails_declaration_of_reads reading ends enough
  have read : Parses (expression (.forTokens n)) setting (ts ++ rest) e rest :=
    reading.runs.parses (by omega) (by omega) enough rfl (by have stop := ends.1; omega)
  exact failsWith_statement (opensStatement_of_leads leads rest) refused read ends.2.2

theorem placeOf_eq {pos : Pos} (start : StartsAt ts pos) : placeOf setting ts = pos := by
  have found := placeOf_of_startsAt setting start []
  rwa [List.append_nil] at found

theorem ReadsBody.body_eq (h : ReadsBody setting ts b) : body setting ts = .ok b := by
  cases h with
  | empty => rfl
  | @statement _ s pos start inner =>
    have nonempty : ts ≠ [] := inner.derives.starts.ne_nil
    have read : Parses (Nested.forTokens ts.length).statement setting (ts ++ []) s [] :=
      statement_nested inner.runs inner.derives (Nat.le_refl _) rfl
    rw [List.append_nil] at read
    have asStatement := parses_whole.mpr ⟨read, rfl⟩
    unfold Parses at asStatement
    unfold body
    simp only [List.isEmpty_iff, nonempty, if_false, asStatement, placeOf_eq start]
  | @expression _ e pos start inner =>
    have nonempty : ts ≠ [] := inner.derives.starts.ne_nil
    have noStatement : FailsWith (whole (Nested.forTokens ts.length).statement) setting (ts ++ []) _ :=
      failsWith_statement_of_reads inner ⟨rfl, rfl, by simp⟩ (Nat.le_refl _)
    have read : Parses (Nested.forTokens ts.length).expression setting (ts ++ []) e [] :=
      inner.parses_expression (Nat.le_refl _) rfl
    rw [List.append_nil] at noStatement read
    have asExpression := parses_whole.mpr ⟨read, rfl⟩
    unfold Parses at asExpression
    unfold FailsWith at noStatement
    unfold body
    simp only [List.isEmpty_iff, nonempty, if_false, noStatement, asExpression, placeOf_eq start]
    rfl

theorem body_eq_ok_iff : body setting ts = .ok b ↔ ReadsBody setting ts b :=
  ⟨readsBody_of_body, ReadsBody.body_eq⟩

theorem endsDeclaration_of_unsupported {l : Lexeme} {construct : String}
    (foreign : unsupported? l = some construct) :
    endsDeclaration (some l) := by
  unfold unsupported? at foreign
  split at foreign
  case h_10 => cases foreign
  all_goals exact ⟨rfl, rfl, nofun⟩

theorem body_unsupported {op : Token} {construct : String}
    (reading : Reads setting.parameters (.expr 1) ts e (some op.lexeme))
    (foreign : unsupported? op.lexeme = some construct) :
    body setting (ts ++ op :: rest) = .error ⟨.unsupported construct, op.pos⟩ := by
  have nonempty : ts ++ op :: rest ≠ [] := by simp
  have noStatement : FailsWith (whole (Nested.forTokens (ts ++ op :: rest).length).statement) setting
      (ts ++ op :: rest) _ :=
    failsWith_statement_of_reads reading (endsDeclaration_of_unsupported foreign) (by simp)
  have failure : mismatchAt setting (op :: rest) (.missingToken "';'") = ⟨.unsupported construct, op.pos⟩ := by
    simp [mismatchAt, foreign, failureAt, placeOf]
  rw [failure] at noStatement
  unfold FailsWith at noStatement
  unfold body
  simp only [List.isEmpty_iff, nonempty, if_false, noStatement]
  rfl

end MacroLift
