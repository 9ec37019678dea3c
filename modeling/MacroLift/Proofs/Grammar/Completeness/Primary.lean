import MacroLift.Proofs.Grammar.Attempts

namespace MacroLift

open MacroLift.Parser

variable {setting : Setting} {ts us rest rest' : List Token} {e b : Expr} {next : Option Lexeme} {n rank : Nat}

def continuedRank : Option Lexeme → Nat
  | some (.punct p) =>
    match p with
    | .assign | .plusAssign | .minusAssign | .starAssign | .slashAssign | .percentAssign | .shiftLeftAssign
    | .shiftRightAssign | .andAssign | .xorAssign | .orAssign => 1
    | .question => 2
    | .equal | .notEqual => 3
    | .less | .lessEq | .greater | .greaterEq => 4
    | .shiftLeft | .shiftRight => 5
    | .plus | .minus => 6
    | .star | .slash => 7
    | _ => 0
  | _ => 0

@[simp] theorem continuedRank_binary (op : BinaryOp) : continuedRank (some (.punct op.punct)) = op.rank := by
  cases op <;> rfl

@[simp] theorem continuedRank_assign (op : AssignOp) : continuedRank (some (.punct op.punct)) = 1 := by
  cases op <;> rfl

theorem continuedRank_le (next : Option Lexeme) : continuedRank next ≤ 7 := by
  unfold continuedRank
  split
  · split <;> omega
  · omega

theorem BinaryOp.rank_bounds (op : BinaryOp) : 3 ≤ op.rank ∧ op.rank ≤ 7 := by
  cases op <;> simp [BinaryOp.rank]

def endsPrimary : Option Lexeme → Bool
  | some (.string _) | some (.punct .hash) | some (.punct .paste) => false
  | _ => true

theorem endsPrimary_of_follows (h : followsOperand next = true) : endsPrimary next = true := by
  unfold endsPrimary
  split
  · cases h
  · cases h
  · cases h
  · rfl

theorem linksOn_of_follows (h : followsOperand next = true) : linksOn next = false := by
  unfold linksOn
  split
  · cases h
  · cases h
  · cases h
  · rfl

theorem postfixOp?_of_follows (h : followsOperand next = true) : next.bind postfixOp? = none := by
  cases found : next.bind postfixOp? with
  | none => rfl
  | some op =>
    obtain ⟨l, rfl, means⟩ := Option.bind_eq_some_iff.mp found
    obtain ⟨isStep, rfl⟩ := postfixOp?_eq_some.mp means
    cases op with
    | increment | decrement => cases h
    | _ => cases isStep

theorem loops_stop {nested : Nested} (h : continuedRank (ahead rest none) ≠ rank) :
    Loops (roundAt nested rank) setting e rest e rest := by
  refine .done ?_
  unfold roundAt
  split
  · refine parses_operatorRound_none.mpr ⟨rfl, ?_⟩
    cases found : (ahead rest none).bind assignOp? with
    | none => rfl
    | some op =>
      obtain ⟨l, same, means⟩ := Option.bind_eq_some_iff.mp found
      cases assignOp?_eq_some.mp means
      rw [same, continuedRank_assign] at h
      exact absurd rfl h
  · refine parses_operatorRound_none.mpr ⟨rfl, ?_⟩
    cases found : (ahead rest none).bind (binaryOpAt? rank) with
    | none => rfl
    | some op =>
      obtain ⟨l, same, means⟩ := Option.bind_eq_some_iff.mp found
      obtain ⟨ranked, rfl⟩ := binaryOpAt?_eq_some.mp means
      rw [same, continuedRank_binary] at h
      exact absurd ranked h

/-- How an expression is read, with a lexeme behind it. An operation of the same rank may go on behind it. -/
structure RunsExpr (setting : Setting) (rank : Nat) (ts : List Token) (e : Expr) (next : Option Lexeme) : Prop where
  primary : rank = 10 → ∀ n rest, ts.length ≤ n + 1 → ahead rest none = next → endsPrimary next = true →
    Parses (primary (.forTokens n)) setting (ts ++ rest) e rest
  postfixed : rank = 9 → ∀ n rest, ts.length ≤ n + 1 → ahead rest none = next →
    Parses (postfixed (.forTokens n)) setting (ts ++ rest) e rest ∧ Fails (cast (.forTokens n)) setting (ts ++ rest)
  ranked : 0 < rank → rank ≤ 8 → ∀ n rest, ts.length ≤ n + 1 → ahead rest none = next → continuedRank next ≤ rank →
    (rank = 2 → continuedRank next ≠ 2) → ∀ b rest', Loops (roundAt (.forTokens n) rank) setting e rest b rest' →
    Parses (atRank (.forTokens n) rank) setting (ts ++ rest) b rest'

/-- How calls and fields are read: from what stands for itself at the front, link by link. What is cast to a
    name in parentheses cannot be what is behind that name. -/
structure RunsChain (setting : Setting) (ts : List Token) (e : Expr) (next : Option Lexeme) : Prop where
  noCast : ∀ n rest, ts.length ≤ n + 1 → ahead rest none = next → ∀ openPos name closePos ident more,
    ts = ⟨.punct .leftParen, openPos⟩ :: name ++ ⟨.punct .rightParen, closePos⟩ :: more → Names name ident →
    more ≠ [] → Fails (Nested.forTokens n).operand setting (more ++ rest)
  links : ∀ n rest, ts.length ≤ n + 1 → ahead rest none = next → endsPrimary next = true →
    (opensAssembly e = true → Fails (assembly (.forTokens n) e.pos) setting rest) →
    ∃ first mid, Parses (primary (.forTokens n)) setting (ts ++ rest) first mid ∧ isClosed first = false ∧
      (opensAssembly first = true → Fails (assembly (.forTokens n) first.pos) setting mid) ∧
      ∀ b rest', Loops (chainLink (.forTokens n)) setting e rest b rest' →
        Loops (chainLink (.forTokens n)) setting first mid b rest'

def RunsList {α : Type} (p : Nat → Parser α) (setting : Setting) (ts : List Token) (as : List α)
    (next : Option Lexeme) : Prop :=
  ∀ n rest, ts.length ≤ n → ahead rest none = next →
    (as = [] ∧ ts = []) ∨ ∃ first mid, Parses (p n) setting (ts ++ rest) first mid ∧
      (as.length = 1 → mid = rest) ∧ (as.length ≠ 1 → ahead mid none = some (.punct .comma)) ∧
      ∀ bs rest', Loops (commaRound (p n)) setting as rest bs rest' →
        Loops (commaRound (p n)) setting [first] mid bs rest'

def Phrase.Runs (setting : Setting) : (phrase : Phrase) → List Token → phrase.Tree → Option Lexeme → Prop
  | .expr rank, ts, e, next => RunsExpr setting rank ts e next
  | .chain, ts, e, next => RunsChain setting ts e next
  | .arguments, ts, es, next => continuedRank next = 0 →
    RunsList (fun n => (Nested.forTokens n).expression) setting ts es next
  | .operand, ts, o, _ => ∀ n rest, ts.length ≤ n → Parses (asmOperand (.forTokens n)) setting (ts ++ rest) o rest
  | .operands, ts, os, next => RunsList (fun n => asmOperand (.forTokens n)) setting ts os next
  | .sections, ts, parts, next => next = some (.punct .rightParen) → ∀ n rest, ts.length ≤ n →
    ahead rest none = next → Parses (asmSections (.forTokens n)) setting (ts ++ rest) parts rest
  | .statement, ts, s, next => ∀ n rest, ts.length ≤ n + 1 → ahead rest none = next →
    Parses (Parser.statement (.forTokens n)) setting (ts ++ rest) s rest
  | .branch, ts, body, next => ∀ n rest, ts.length ≤ n → ahead rest none = next →
    Parses (Parser.branch (.forTokens n)) setting (ts ++ rest) body rest
  | .statements, ts, body, next => ∀ n rest, ts.length ≤ n → ahead rest none = next →
    ∀ b rest', Loops (statementRound (.forTokens n)) setting body rest b rest' →
      Loops (statementRound (.forTokens n)) setting [] (ts ++ rest) b rest'

theorem RunsExpr.parses (h : RunsExpr setting rank ts e next) (low : 0 < rank) (high : rank ≤ 8)
    (enough : ts.length ≤ n + 1) (behind : ahead rest none = next) (stop : continuedRank next < rank) :
    Parses (atRank (.forTokens n) rank) setting (ts ++ rest) e rest :=
  h.ranked low high n rest enough behind (by omega) (by omega) e rest (loops_stop (by rw [behind]; omega))

theorem RunsExpr.nested (h : RunsExpr setting rank ts e next) (low : 0 < rank) (high : rank ≤ 8)
    (derived : Derives (.expr rank) ts e) (enough : ts.length ≤ n) (behind : ahead rest none = next)
    (stop : continuedRank next < rank) :
    ∃ m, n = m + 1 ∧ Parses (atRank (.forTokens m) rank) setting (ts ++ rest) e rest := by
  obtain ⟨t, us, rfl, -⟩ := derived.starts
  rw [List.length_cons] at enough
  cases n with
  | zero => omega
  | succ m => exact ⟨m, rfl, h.parses low high (by rw [List.length_cons]; omega) behind stop⟩

theorem RunsExpr.expression (h : RunsExpr setting 1 ts e next) (derived : Derives (.expr 1) ts e)
    (enough : ts.length ≤ n) (behind : ahead rest none = next) (stop : continuedRank next = 0) :
    Parses (Nested.forTokens n).expression setting (ts ++ rest) e rest := by
  obtain ⟨m, rfl, read⟩ := h.nested (by omega) (by omega) derived enough behind (by omega)
  exact read

theorem RunsExpr.conditional (h : RunsExpr setting 2 ts e next) (derived : Derives (.expr 2) ts e)
    (enough : ts.length ≤ n) (behind : ahead rest none = next) (stop : continuedRank next ≤ 1) :
    Parses (Nested.forTokens n).conditional setting (ts ++ rest) e rest := by
  obtain ⟨m, rfl, read⟩ := h.nested (by omega) (by omega) derived enough behind (by omega)
  exact read

theorem RunsExpr.operand (h : RunsExpr setting 8 ts e next) (derived : Derives (.expr 8) ts e)
    (enough : ts.length ≤ n) (behind : ahead rest none = next) :
    Parses (Nested.forTokens n).operand setting (ts ++ rest) e rest := by
  have stop := continuedRank_le next
  obtain ⟨m, rfl, read⟩ := h.nested (by omega) (by omega) derived enough behind (by omega)
  exact read

theorem RunsExpr.of_primary (h : ∀ n rest, ts.length ≤ n + 1 → ahead rest none = next → endsPrimary next = true →
    Parses (Parser.primary (.forTokens n)) setting (ts ++ rest) e rest) : RunsExpr setting 10 ts e next where
  primary := fun _ => h
  postfixed := by omega
  ranked := by omega

theorem noPaste_of_endsPrimary (h : endsPrimary (ahead rest none) = true) :
    ahead rest none ≠ some (.punct .paste) := by
  intro same
  rw [same] at h
  cases h

theorem noString_of_endsPrimary (h : endsPrimary (ahead rest none) = true) (text : String) :
    ahead rest none ≠ some (.string text) := by
  intro same
  rw [same] at h
  cases h

theorem noHash_of_endsPrimary (h : endsPrimary (ahead rest none) = true) :
    ahead rest none ≠ some (.punct .hash) := by
  intro same
  rw [same] at h
  cases h

theorem runs_name {ident : Ident} (names : Names ts ident) :
    RunsExpr setting 10 ts (.name ident.pos ident) next := by
  refine .of_primary fun n rest _ behind ends => ?_
  subst behind
  have read : Parses Parser.ident setting (ts ++ rest) ident rest := names.parses (noPaste_of_endsPrimary ends)
  cases names with
  | simple pos text => exact parses_primary_name.mpr ⟨_, read, rfl⟩
  | pasted pos text => exact parses_primary_name.mpr ⟨_, read, rfl⟩

theorem runs_number {suffixes : List Token} {value : Number} {marks : Marks} (pos : Pos) (text : String)
    (found : Number.ofText? text = some value) (pasted : Suffixes value.marks suffixes marks)
    (unpasted : value.isFloat = true → suffixes = []) :
    RunsExpr setting 10 (⟨.number text, pos⟩ :: suffixes) (.number pos { value with marks }) next := by
  refine .of_primary fun n rest _ behind ends => ?_
  subst behind
  exact parses_primary_number.mpr (number_parses found pasted unpasted (noPaste_of_endsPrimary ends))

theorem runs_character (pos : Pos) (text : String) :
    RunsExpr setting 10 [⟨.character text, pos⟩] (.character pos text) next :=
  .of_primary fun _ _ _ _ _ => parses_primary_character.mpr ⟨rfl, rfl⟩

theorem Pieces.leadsPiece {more : List Expr} (h : Pieces ts (e :: more)) : Leads Lexeme.startsPiece ts := by
  cases h with
  | text => exact leads_cons rfl _
  | mark => exact leads_cons rfl _

theorem runs_piece (pieces : Pieces ts [e]) : RunsExpr setting 10 ts e next := by
  refine .of_primary fun n rest _ behind ends => ?_
  subst behind
  rw [parses_primary_strings (pieces.leadsPiece.append rest)]
  exact pieces.parses_one (noString_of_endsPrimary ends) (noHash_of_endsPrimary ends)

theorem runs_pieces {first second : Expr} {more : List Expr} (pieces : Pieces ts (first :: second :: more)) :
    RunsExpr setting 10 ts (.concat first.pos (first :: second :: more)) next := by
  refine .of_primary fun n rest _ behind ends => ?_
  subst behind
  rw [parses_primary_strings (pieces.leadsPiece.append rest)]
  exact pieces.parses_many (noString_of_endsPrimary ends) (noHash_of_endsPrimary ends)

theorem runs_parens (openPos closePos : Pos) (derived : Derives (.expr 1) ts e)
    (inner : RunsExpr setting 1 ts e (some (.punct .rightParen))) :
    RunsExpr setting 10 (⟨.punct .leftParen, openPos⟩ :: ts ++ [⟨.punct .rightParen, closePos⟩]) e next := by
  refine .of_primary fun n rest enough _ _ => ?_
  simp only [List.length_append, List.length_cons, List.length_nil] at enough
  simp only [List.cons_append, List.append_assoc, List.nil_append]
  exact parses_primary_parens.mpr ⟨closePos, inner.expression derived (by omega) rfl rfl⟩

theorem runsList_one {α : Type} {p : Nat → Parser α} {a : α}
    (h : ∀ n rest, ts.length ≤ n → ahead rest none = next → Parses (p n) setting (ts ++ rest) a rest) :
    RunsList p setting ts [a] next := by
  intro n rest enough behind
  exact .inr ⟨a, rest, h n rest enough behind, fun _ => rfl, fun many => absurd rfl many, fun _ _ more => more⟩

theorem runsList_more {α : Type} {p : Nat → Parser α} {as : List α} {a : α} (commaPos : Pos)
    (first : RunsList p setting ts as (some (.punct .comma))) (some : as ≠ [])
    (last : ∀ n rest, us.length ≤ n → ahead rest none = next → Parses (p n) setting (us ++ rest) a rest) :
    RunsList p setting (ts ++ ⟨.punct .comma, commaPos⟩ :: us) (as ++ [a]) next := by
  intro n rest enough behind
  simp only [List.length_append, List.length_cons] at enough
  rcases first n (⟨.punct .comma, commaPos⟩ :: (us ++ rest)) (by omega) rfl with
    ⟨none, -⟩ | ⟨head, mid, read, one, many, more⟩
  · exact absurd none some
  · refine .inr ⟨head, mid, by simpa using read, ?_, ?_, ?_⟩
    · intro single
      simp only [List.length_append, List.length_cons, List.length_nil] at single
      exact absurd (List.length_eq_zero_iff.mp (by omega)) some
    · intro _
      by_cases single : as.length = 1
      · rw [one single]
        rfl
      · exact many single
    · intro bs rest' loops
      refine more bs rest' (.round ?_ ?_ loops)
      · exact parses_commaRound_some.mpr ⟨commaPos, _, a, rfl, last n rest (by omega) behind, rfl⟩
      · simp only [List.length_append, List.length_cons]
        omega

theorem RunsList.loops {α : Type} {p : Nat → Parser α} {as : List α} (h : RunsList p setting ts as next)
    (enough : ts.length ≤ n) (behind : ahead rest none = next) (noComma : next ≠ some (.punct .comma)) :
    (as = [] ∧ ts = []) ∨ ∃ first mid, Parses (p n) setting (ts ++ rest) first mid ∧
      Parses (repeated (commaRound (p n)) [first]) setting mid as rest := by
  rcases h n rest enough behind with none | ⟨first, mid, read, -, -, more⟩
  · exact .inl none
  · have stop : Loops (commaRound (p n)) setting as rest as rest :=
      .done (parses_commaRound_none.mpr ⟨rfl, by rw [behind]; exact noComma⟩)
    exact .inr ⟨first, mid, read, (more as rest stop).repeated⟩

end MacroLift
