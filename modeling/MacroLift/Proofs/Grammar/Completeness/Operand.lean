import MacroLift.Proofs.Grammar.Completeness.Primary

namespace MacroLift

open MacroLift.Parser

variable {setting : Setting} {ts us rest rest' : List Token} {e b : Expr} {next : Option Lexeme} {n rank : Nat}

theorem Derives.inParens {name : List Token} {openPos closePos : Pos} {ident : Ident}
    (h : Derives (.expr 10) (⟨.punct .leftParen, openPos⟩ :: name ++ ⟨.punct .rightParen, closePos⟩ :: us) e)
    (names : Names name ident) : us = [] ∧ e = .name ident.pos ident := by
  obtain ⟨inner, closePos', more, e', same, derived, last⟩ :=
    h.parenthesised openPos (name ++ ⟨.punct .rightParen, closePos⟩ :: us) (by omega) rfl
  obtain ⟨rfl, rfl⟩ := last rfl
  have whole := Balanced.eq_of_append_close (balanced_of_leaf names.leaf) derived.balanced same
  subst whole
  simp only [List.append_cancel_left_eq, List.cons.injEq] at same
  exact ⟨same.2, derived.namesItself ident names⟩

theorem Derives.chain_inParens {name vs ws : List Token} {openPos closePos : Pos} {ident : Ident}
    (h : Derives .chain ts e) (names : Names name ident)
    (same : ts ++ vs = ⟨.punct .leftParen, openPos⟩ :: name ++ ⟨.punct .rightParen, closePos⟩ :: ws) :
    ∃ more, ts = ⟨.punct .leftParen, openPos⟩ :: name ++ ⟨.punct .rightParen, closePos⟩ :: more ∧
      ws = more ++ vs := by
  obtain ⟨t, us, rfl, -⟩ := h.starts
  simp only [List.cons_append, List.cons.injEq] at same
  obtain ⟨rfl, same⟩ := same
  obtain ⟨inner, closePos', more, e', rfl, derived⟩ := h.parenthesised openPos us rfl
  rw [List.append_assoc, List.cons_append] at same
  have whole := Balanced.eq_of_append_close derived.balanced (balanced_of_leaf names.leaf) same
  subst whole
  simp only [List.append_cancel_left_eq, List.cons.injEq, Token.mk.injEq, true_and] at same
  obtain ⟨rfl, rfl⟩ := same
  exact ⟨more, rfl, rfl⟩

theorem runs_base (derived : Derives (.expr 10) ts e) (inner : RunsExpr setting 10 ts e next)
    (more : isClosed e = false) : RunsChain setting ts e next where
  noCast := by
    rintro n rest enough behind openPos name closePos ident us rfl names some
    exact absurd (derived.inParens names).1 some
  links := by
    intro n rest enough behind ends noAssembly
    exact ⟨e, rest, inner.primary rfl n rest enough behind ends, more, noAssembly, fun _ _ loops => loops⟩

theorem fails_operand_of_arguments {arguments : List Expr} {openPos closePos : Pos}
    (derived : Derives .arguments us arguments)
    (inner : RunsList (fun n => (Nested.forTokens n).expression) setting us
      arguments (some (.punct .rightParen))) (notOne : arguments.length ≠ 1) (enough : us.length + 1 ≤ n) :
    Fails (Nested.forTokens n).operand setting
      (⟨.punct .leftParen, openPos⟩ :: us ++ ⟨.punct .rightParen, closePos⟩ :: rest) := by
  refine fails_of_not_parses fun b rest' parsed => ?_
  rcases parses_operand_parens parsed derived.balanced with ⟨target, typed⟩ | ⟨m, e, rfl, expr, read⟩
  · cases derived with
    | noArguments =>
      obtain ⟨_, _, same, -⟩ := typed.leads
      cases same
    | argument => exact notOne rfl
    | moreArguments commaPos =>
      have letter := typed.letters ⟨.punct .comma, commaPos⟩ (by simp)
      cases letter
  · rcases inner m (⟨.punct .rightParen, closePos⟩ :: rest) (by omega) rfl with
      ⟨-, rfl⟩ | ⟨first, mid, read', -, many, -⟩
    · obtain ⟨_, _, same, -⟩ := expr.starts
      cases same
    · obtain ⟨-, rfl⟩ := read.unique read'
      cases many notOne

theorem noClose_of_parses (h : Parses (Nested.forTokens n).expression setting ts e rest) :
    ahead ts none ≠ some (.punct .rightParen) := by
  obtain ⟨used, rfl, derived⟩ := (soundNested_forTokens setting n).expression h
  obtain ⟨⟨lexeme, pos⟩, us, rfl, start⟩ := derived.starts
  intro same
  cases same
  cases start

theorem runs_call {pos : Pos} {ident : Ident} {arguments : List Expr} (openPos closePos : Pos)
    (derived : Derives .chain ts (.name pos ident)) (derived' : Derives .arguments us arguments)
    (callee : RunsChain setting ts (.name pos ident) (some (.punct .leftParen)))
    (inner : RunsList (fun n => (Nested.forTokens n).expression) setting us arguments (some (.punct .rightParen)))
    (noCast : MayCast setting.parameters ts (some (.punct .leftParen)) → arguments.length ≠ 1)
    (noAssembly : opensAssembly (.name pos ident) = true → ¬ IsTemplate us) :
    RunsChain setting (ts ++ ⟨.punct .leftParen, openPos⟩ :: us ++ [⟨.punct .rightParen, closePos⟩])
      (.call pos ident arguments) next where
  noCast := by
    intro n rest enough _ openPos' name closePos' owner more same names some
    simp only [List.length_append, List.length_cons, List.length_nil] at enough
    rw [List.append_assoc] at same
    obtain ⟨before, rfl, rfl⟩ := derived.chain_inParens names same
    -- the call is the first link behind the name in parentheses, or there is one before it
    by_cases direct : before = []
    · subst direct
      have notOne := noCast ⟨owner, ⟨openPos', name, closePos', rfl, names⟩, rfl, by simp [continuesOperand]⟩
      simp only [List.length_append, List.length_cons, List.length_nil] at enough
      have fails : Fails (Nested.forTokens n).operand setting
          (⟨.punct .leftParen, openPos⟩ :: us ++ ⟨.punct .rightParen, closePos⟩ :: rest) :=
        fails_operand_of_arguments derived' inner notOne (by omega)
      simpa using fails
    · have fails := callee.noCast n (⟨.punct .leftParen, openPos⟩ :: us ++ ⟨.punct .rightParen, closePos⟩ :: rest)
        (by omega) rfl openPos' name closePos' owner before rfl names direct
      simpa using fails
  links := by
    intro n rest enough behind _ _
    simp only [List.length_append, List.length_cons, List.length_nil] at enough
    have refused : opensAssembly (.name pos ident) = true → Fails (assembly (.forTokens n) pos) setting
        (⟨.punct .leftParen, openPos⟩ :: us ++ ⟨.punct .rightParen, closePos⟩ :: rest) :=
      fun opens => fails_assembly_of_arguments derived' (noAssembly opens)
    obtain ⟨first, mid, read, more, noAssembly', link⟩ := callee.links n
      (⟨.punct .leftParen, openPos⟩ :: us ++ ⟨.punct .rightParen, closePos⟩ :: rest) (by omega) rfl rfl refused
    refine ⟨first, mid, by simpa using read, more, noAssembly', fun b rest' loops => link b rest'
      (.round ?_ ?_ loops)⟩
    · refine parses_chainLink_some.mpr (.inl ⟨openPos, _, rfl, parses_call.mpr ⟨pos, ident, rfl, ?_⟩⟩)
      have enough' : us.length ≤ n := by omega
      have behind' : ahead (⟨.punct .rightParen, closePos⟩ :: rest) none = some (.punct .rightParen) := rfl
      rcases inner.loops enough' behind' (by simp) with ⟨rfl, rfl⟩ | ⟨first, mid, read, more⟩
      · exact .inl ⟨closePos, rfl, rfl⟩
      · refine .inr ⟨noClose_of_parses read, first, mid, arguments, closePos, ?_, more, rfl⟩
        simpa using read
    · simp only [List.length_append, List.length_cons]
      omega

theorem runs_field {name : Ident} (isArrow : Bool) (pos : Pos) (derived : Derives .chain ts e)
    (owner : RunsChain setting ts e (some (.punct (fieldPunct isArrow)))) (names : Names us name) :
    RunsChain setting (ts ++ ⟨.punct (fieldPunct isArrow), pos⟩ :: us) (.field e.pos e name isArrow) next where
  noCast := by
    intro n rest enough _ openPos inner closePos ident more same innerNames some
    simp only [List.length_append, List.length_cons] at enough
    obtain ⟨before, rfl, rfl⟩ := derived.chain_inParens innerNames same
    by_cases direct : before = []
    · subst direct
      exact fails_operand_of_ahead n (by cases isArrow <;> rfl)
    · have fails := owner.noCast n (⟨.punct (fieldPunct isArrow), pos⟩ :: us ++ rest) (by omega) rfl openPos inner
        closePos ident before rfl innerNames direct
      simpa using fails
  links := by
    intro n rest enough behind ends _
    simp only [List.length_append, List.length_cons] at enough
    obtain ⟨first, mid, read, more, noAssembly, link⟩ := owner.links n
      (⟨.punct (fieldPunct isArrow), pos⟩ :: us ++ rest) (by omega) rfl (by cases isArrow <;> rfl)
      (fun _ => fails_assembly_of_ahead (by simp) (by cases isArrow <;> simp [fieldPunct]))
    refine ⟨first, mid, by simpa using read, more, noAssembly, fun b rest' loops => link b rest'
      (.round ?_ ?_ loops)⟩
    · subst behind
      exact parses_chainLink_some.mpr (.inr ⟨isArrow, pos, us ++ rest, name, rfl,
        names.parses (noPaste_of_endsPrimary ends), rfl⟩)
    · simp only [List.length_append, List.length_cons]
      omega

theorem RunsExpr.of_postfixed (h : ∀ n rest, ts.length ≤ n + 1 → ahead rest none = next →
    Parses (Parser.postfixed (.forTokens n)) setting (ts ++ rest) e rest ∧
      Fails (Parser.cast (.forTokens n)) setting (ts ++ rest)) : RunsExpr setting 9 ts e next where
  primary := by omega
  postfixed := fun _ => h
  ranked := by omega

theorem runs_closed (derived : Derives (.expr 10) ts e) (inner : RunsExpr setting 10 ts e next)
    (whole : isClosed e = true) (follow : followsOperand next = true) : RunsExpr setting 9 ts e next := by
  refine .of_postfixed fun n rest enough behind => ⟨?_, ?_⟩
  · have read := inner.primary rfl n rest enough behind (endsPrimary_of_follows follow)
    exact parses_postfixed.mpr ⟨e, rest, read, .inl ⟨whole, rfl, rfl⟩⟩
  · refine fails_of_not_parses fun b rest' parsed => ?_
    obtain ⟨openPos, name, closePos, ident, more, operand, rfl, names, -⟩ :=
      parses_cast_of_chain parsed derived.starts (derived.parenthesised.chain_of_expr (by omega) e)
    obtain ⟨-, rfl⟩ := derived.inParens names
    cases whole

theorem RunsChain.parses {b : Expr} {vs : List Token} (h : RunsChain setting ts e next)
    (enough : ts.length ≤ n + 1)
    (behind : ahead rest none = next) (ends : endsPrimary next = true) (noLink : linksOn next = false)
    (noAssembly : next ≠ some (.keyword .volatileKw))
    (ending : (∃ op pos, op.isStep = true ∧ rest = ⟨.punct op.punct, pos⟩ :: vs ∧ b = .unary e.pos op .after e) ∨
      (rest = vs ∧ next.bind postfixOp? = none ∧ b = e)) :
    Parses (postfixed (.forTokens n)) setting (ts ++ rest) b vs := by
  subst behind
  have refused : opensAssembly e = true → Fails (assembly (.forTokens n) e.pos) setting rest := by
    refine fun _ => fails_assembly_of_ahead noAssembly fun paren => ?_
    rw [paren] at noLink
    cases noLink
  obtain ⟨first, mid, read, more, noAssembly', link⟩ := h.links n rest enough rfl ends refused
  have stop : Loops (chainLink (.forTokens n)) setting e rest e rest :=
    .done (parses_chainLink_none.mpr ⟨rfl, noLink⟩)
  refine parses_postfixed.mpr ⟨first, mid, read, .inr (.inr ⟨more, noAssembly', ?_⟩)⟩
  exact parses_chain.mpr ⟨e, rest, (link e rest stop).repeated, ending⟩

theorem RunsChain.fails_cast (h : RunsChain setting ts e next) (derived : Derives .chain ts e)
    (enough : ts.length ≤ n + 1) (behind : ahead rest none = next)
    (refused : ∀ ident, InParens ts ident → ¬ (ident.isOneOf setting.parameters = true ∧
      next.any continuesOperand = true) →
      Fails (Nested.forTokens n).operand setting rest) :
    Fails (Parser.cast (.forTokens n)) setting (ts ++ rest) := by
  subst behind
  refine fails_of_not_parses fun b rest' parsed => ?_
  obtain ⟨openPos, name, closePos, ident, more, operand, rfl, names, -, noParameter, read⟩ :=
    parses_cast_of_chain parsed derived.starts derived.parenthesised
  by_cases direct : more = []
  · subst direct
    exact read.not_fails (refused ident ⟨openPos, name, closePos, rfl, names⟩ noParameter)
  · exact read.not_fails (h.noCast n rest enough rfl openPos name closePos ident more rfl names direct)

theorem noVolatile_of_follows (h : followsOperand next = true) : next ≠ some (.keyword .volatileKw) := by
  rintro rfl
  cases h

theorem runs_chained (derived : Derives .chain ts e) (inner : RunsChain setting ts e next)
    (follow : followsOperand next = true) (noCast : ¬ MayCast setting.parameters ts next) :
    RunsExpr setting 9 ts e next := by
  refine .of_postfixed fun n rest enough behind => ⟨?_, ?_⟩
  · exact inner.parses enough behind (endsPrimary_of_follows follow) (linksOn_of_follows follow)
      (noVolatile_of_follows follow) (.inr ⟨rfl, postfixOp?_of_follows follow, rfl⟩)
  · refine inner.fails_cast derived enough behind fun ident parens noParameter => fails_operand_of_ahead n ?_
    rw [behind]
    exact Bool.eq_false_iff.mpr fun start => noCast ⟨ident, parens, start, noParameter⟩

theorem runs_step {op : UnaryOp} (pos : Pos) (isStep : op.isStep = true) (derived : Derives .chain ts e)
    (inner : RunsChain setting ts e (some (.punct op.punct)))
    (noCast : MayCast setting.parameters ts (some (.punct op.punct)) → next.any startsOperand = false) :
    RunsExpr setting 9 (ts ++ [⟨.punct op.punct, pos⟩]) (.unary e.pos op .after e) next := by
  refine .of_postfixed fun n rest enough behind => ?_
  rw [List.length_append, List.length_singleton] at enough
  rw [List.append_assoc, List.singleton_append]
  constructor
  · refine inner.parses (by omega) rfl ?_ ?_ (by simp) (.inl ⟨op, pos, isStep, rfl, rfl⟩)
    · cases op <;> rfl
    · cases op <;> rfl
  · refine inner.fails_cast derived (by omega) rfl fun ident parens noParameter => ?_
    have noStart := noCast ⟨ident, parens, by cases op <;> rfl, noParameter⟩
    refine fails_of_not_parses fun b rest' parsed => ?_
    cases n with
    | zero => exact absurd parsed parses_mismatch
    | succ n =>
      obtain ⟨e, read, rfl⟩ := parses_prefixed_operator.mp parsed
      exact read.not_fails (fails_operand_of_ahead n (by rw [behind]; exact noStart))

section

variable {head volatile template sections : List Token} {pos namePos openPos firstPos closePos : Pos}
  {word first : String} {isVolatile : Bool} {lines : List String}
  {parts : List AsmOperand × List AsmOperand × List String}

theorem templateLines_of_sections (derived : Derives .sections sections parts) (more : Template template lines) :
    templateLines setting (template ++ (sections ++ ⟨.punct .rightParen, closePos⟩ :: rest)) =
      .ok (lines, sections ++ ⟨.punct .rightParen, closePos⟩ :: rest) := by
  have stop : ahead (sections ++ ⟨.punct .rightParen, closePos⟩ :: rest) none = some (.punct .rightParen) ∨
      ahead (sections ++ ⟨.punct .rightParen, closePos⟩ :: rest) none = some (.punct .colon) := by
    cases derived with
    | noSections => exact .inl rfl
    | outputs | inputs | clobbers => exact .inr rfl
  refine more.run (fun text => ?_) ?_
  · rcases stop with stop | stop <;> rw [stop] <;> simp
  · rcases stop with stop | stop <;> rw [stop] <;> simp

theorem fails_cast_of_assembly (derived : Derives (.expr 10) head (.name pos (.simple namePos word)))
    (derived' : Derives .sections sections parts) (marked : Optional (.keyword .volatileKw) volatile isVolatile)
    (more : Template template lines)
    (noCast : MayCast setting.parameters head (some (.punct .leftParen)) → volatile = [] → sections = [] →
      ∃ t ∈ template, t.lexeme = .punct .comma) :
    Fails (cast (.forTokens n)) setting (head ++ (volatile ++ ⟨.punct .leftParen, openPos⟩ ::
      ⟨.string first, firstPos⟩ :: (template ++ (sections ++ ⟨.punct .rightParen, closePos⟩ :: rest)))) := by
  refine fails_of_not_parses fun b rest' parsed => ?_
  obtain ⟨namePos', name, closePos', ident, ws, operand, rfl, names, -, -, read⟩ :=
    parses_cast_of_chain parsed derived.starts
      (derived.parenthesised.chain_of_expr (by omega) (.name pos (.simple namePos word)))
  obtain ⟨rfl, -⟩ := derived.inParens names
  cases marked with
  | present => exact read.not_fails (fails_operand_of_ahead n rfl)
  | absent =>
    have isTemplate :=
      noCast ⟨ident, ⟨namePos', name, closePos', rfl, names⟩, rfl, by simp [continuesOperand]⟩ rfl
    have fails : Fails (Nested.forTokens n).operand setting (⟨.punct .leftParen, openPos⟩ ::
        ⟨.string first, firstPos⟩ :: template ++ sections ++ ⟨.punct .rightParen, closePos⟩ :: rest) :=
      fails_operand_of_template more derived' isTemplate
    refine read.not_fails ?_
    simpa using fails

end

theorem runs_assembly {head volatile template sections : List Token} {pos namePos : Pos} {word : String}
    {isVolatile : Bool} {lines : List String} {parts : List AsmOperand × List AsmOperand × List String}
    (openPos firstPos closePos : Pos) (first : String)
    (derived : Derives (.expr 10) head (.name pos (.simple namePos word)))
    (derived' : Derives .sections sections parts)
    (opener : RunsExpr setting 10 head (.name pos (.simple namePos word))
      (ahead volatile (some (.punct .leftParen))))
    (isWord : isAssemblyWord word = true) (marked : Optional (.keyword .volatileKw) volatile isVolatile)
    (more : Template template lines)
    (behind : ∀ n rest, sections.length ≤ n → ahead rest none = some (.punct .rightParen) →
      Parses (asmSections (.forTokens n)) setting (sections ++ rest) parts rest)
    (noCast : MayCast setting.parameters head (some (.punct .leftParen)) → volatile = [] → sections = [] →
      ∃ t ∈ template, t.lexeme = .punct .comma) :
    RunsExpr setting 9
      (head ++ volatile ++ ⟨.punct .leftParen, openPos⟩ :: ⟨.string first, firstPos⟩ :: template ++ sections ++
        [⟨.punct .rightParen, closePos⟩])
      (.assembly pos (first :: lines) parts.1 parts.2.1 parts.2.2 isVolatile) next := by
  refine .of_postfixed fun n rest enough _ => ?_
  simp only [List.length_append, List.length_cons, List.length_nil] at enough
  let args := ⟨.punct .leftParen, openPos⟩ :: ⟨.string first, firstPos⟩ :: (template ++ (sections ++
    ⟨.punct .rightParen, closePos⟩ :: rest))
  have split : head ++ volatile ++ ⟨.punct .leftParen, openPos⟩ :: ⟨.string first, firstPos⟩ :: template ++
    sections ++ [⟨.punct .rightParen, closePos⟩] ++ rest = head ++ (volatile ++ args) := by simp [args]
  have front : ahead (volatile ++ args) none = ahead volatile (some (.punct .leftParen)) := by simp [args]
  rw [split]
  constructor
  · have read := opener.primary rfl n (volatile ++ args) (by omega) front (by cases marked <;> rfl)
    refine parses_postfixed.mpr ⟨_, _, read, .inr (.inl ⟨rfl, isWord, parses_assembly.mpr ?_⟩)⟩
    exact ⟨volatile, isVolatile, openPos, firstPos, closePos, first, _, lines, _, parts, marked, rfl,
      templateLines_of_sections derived' more, behind n _ (by omega) rfl, rfl⟩
  · exact fails_cast_of_assembly derived derived' marked more noCast

theorem RunsExpr.of_prefixed (h : ∀ n rest, ts.length ≤ n + 1 → ahead rest none = next →
    Parses (Parser.prefixed (.forTokens n)) setting (ts ++ rest) e rest) : RunsExpr setting 8 ts e next where
  primary := by omega
  postfixed := by omega
  ranked := by
    intro _ _ n rest enough behind _ _ b rest' loops
    cases loops with
    | done => exact h n rest enough behind
    | round first =>
      obtain ⟨t, us, op, right, rfl, means, -⟩ := parses_operatorRound_some.mp first
      cases means

theorem runs_cast {target : CType} (openPos closePos : Pos) (type : TypeName ts target)
    (derived : Derives (.expr 8) us e) (operand : RunsExpr setting 8 us e next)
    (noParameter : ¬ ((bareName? target).any setting.parameters.contains = true ∧
      (ahead us next).any continuesOperand = true)) :
    RunsExpr setting 8 (⟨.punct .leftParen, openPos⟩ :: ts ++ ⟨.punct .rightParen, closePos⟩ :: us)
      (.cast openPos target e) next := by
  refine .of_prefixed fun n rest enough behind => ?_
  simp only [List.length_append, List.length_cons] at enough
  rw [List.cons_append, List.cons_append, List.append_assoc, List.cons_append]
  refine parses_prefixed_parens.mpr (.inl (parses_cast.mpr
    ⟨openPos, closePos, target, _, us ++ rest, e, rfl, ?_, ?_, operand.operand derived (by omega) behind, rfl⟩))
  · exact type.parses (by simp) (by simp) (by simp)
  · rw [ahead_append, behind]
    exact noParameter

theorem runs_addressOf (pos : Pos) (derived : Derives (.expr 8) ts e) (operand : RunsExpr setting 8 ts e next) :
    RunsExpr setting 8 (⟨.punct .ampersand, pos⟩ :: ts) (.addressOf pos e) next := by
  refine .of_prefixed fun n rest enough behind => ?_
  rw [List.length_cons] at enough
  exact parses_prefixed_ampersand.mpr ⟨e, operand.operand derived (by omega) behind, rfl⟩

theorem runs_before (op : UnaryOp) (pos : Pos) (derived : Derives (.expr 8) ts e)
    (operand : RunsExpr setting 8 ts e next) :
    RunsExpr setting 8 (⟨.punct op.punct, pos⟩ :: ts) (.unary pos op .before e) next := by
  refine .of_prefixed fun n rest enough behind => ?_
  rw [List.length_cons] at enough
  exact parses_prefixed_operator.mpr ⟨e, operand.operand derived (by omega) behind, rfl⟩

theorem runs_postfixed (inner : RunsExpr setting 9 ts e next) : RunsExpr setting 8 ts e next := by
  refine .of_prefixed fun n rest enough behind => ?_
  obtain ⟨read, noCast⟩ := inner.postfixed rfl n rest enough behind
  obtain ⟨first, mid, primary, -⟩ := parses_postfixed.mp read
  obtain ⟨⟨lexeme, pos⟩, us, same, start⟩ := leads_of_parses_primary primary
  rw [same] at read noCast ⊢
  by_cases parens : lexeme = .punct .leftParen
  · subst parens
    exact parses_prefixed_parens.mpr (.inr ⟨noCast, read⟩)
  · refine (parses_prefixed_primary ?_ ?_ ?_).mpr read
    · cases found : (ahead (⟨lexeme, pos⟩ :: us) none).bind prefixOp? with
      | none => rfl
      | some op =>
        cases prefixOp?_eq_some.mp found
        cases op <;> cases start
    · rintro ⟨⟩
      cases start
    · rintro ⟨⟩
      exact parens rfl

end MacroLift
