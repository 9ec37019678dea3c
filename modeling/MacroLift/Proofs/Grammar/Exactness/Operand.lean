import MacroLift.Proofs.Grammar.Exactness.Primary

namespace MacroLift

open MacroLift.Parser

variable {setting : Setting} {ts us rest rest' : List Token} {e b : Expr} {next : Option Lexeme} {n rank : Nat}

theorem exact_fields {nested : Nested} (h : Rounds (chainLink nested) setting e ts b rest)
    (notName : ∀ pos ident, e ≠ .name pos ident) (ends : linksOn (ahead rest none) = false) :
    ∃ more, ts = more ++ rest ∧
      (∀ used, Reads setting.parameters .chain used e (ahead ts none) →
        Reads setting.parameters .chain (used ++ more) b (ahead rest none)) ∧
      ∀ (nested : Nested) (e : Expr), ∃ b, Loops (chainLink nested) setting e ts b rest := by
  induction h with
  | done e ts =>
    exact ⟨[], rfl, fun used read => by simpa using read,
      fun nested e => ⟨e, .done (parses_chainLink_none.mpr ⟨rfl, ends⟩)⟩⟩
  | round first _ ih =>
    rcases parses_chainLink_some.mp first with ⟨openPos, us, rfl, called⟩ | ⟨isArrow, pos, us, name, rfl,
      named, rfl⟩
    · obtain ⟨pos, ident, rfl, -⟩ := parses_call.mp called
      exact absurd rfl (notName pos ident)
    · obtain ⟨more, rfl, read, loops⟩ := ih (by simp) ends
      obtain ⟨nameTokens, rfl, names⟩ := parses_ident named
      refine ⟨⟨.punct (fieldPunct isArrow), pos⟩ :: nameTokens ++ more, by simp, fun used owner => ?_,
        fun nested e => ?_⟩
      · have whole := read _ (.field isArrow pos owner names)
        simpa using whole
      · obtain ⟨b, behind⟩ := loops nested (.field e.pos e name isArrow)
        refine ⟨b, .round (parses_chainLink_some.mpr (.inr ⟨isArrow, pos, _, name, rfl, named, rfl⟩)) ?_ behind⟩
        simp only [List.length_cons, List.length_append]
        omega

theorem exists_parses_chain {nested : Nested} (links : Loops (chainLink nested) setting e ts b rest) :
    ∃ b rest', Parses (chain nested e) setting ts b rest' := by
  cases found : (ahead rest none).bind postfixOp? with
  | none => exact ⟨b, rest, parses_chain.mpr ⟨b, rest, links.repeated, .inr ⟨rfl, found, rfl⟩⟩⟩
  | some op =>
    obtain ⟨l, first, means⟩ := Option.bind_eq_some_iff.mp found
    obtain ⟨isStep, rfl⟩ := postfixOp?_eq_some.mp means
    obtain ⟨pos, rest', rfl⟩ := exists_of_ahead first
    exact ⟨_, rest', parses_chain.mpr ⟨b, _, links.repeated, .inl ⟨op, pos, isStep, rfl, rfl⟩⟩⟩

theorem parses_operand_of_fields {ws : List Token} {openPos closePos : Pos}
    (reading : Reads setting.parameters (.expr 1) us e (some (.punct .rightParen))) (enough : us.length + 2 ≤ n)
    (loops : ∀ (nested : Nested) (e : Expr), ∃ b, Loops (chainLink nested) setting e ws b rest) :
    ∃ b rest', Parses (Nested.forTokens n).operand setting
      (⟨.punct .leftParen, openPos⟩ :: us ++ ⟨.punct .rightParen, closePos⟩ :: ws) b rest' := by
  obtain ⟨n, rfl⟩ : ∃ m, n = m + 1 := ⟨n - 1, by omega⟩
  rw [List.cons_append]
  rcases parses_or_fails (cast (.forTokens n)) setting
    (⟨.punct .leftParen, openPos⟩ :: (us ++ ⟨.punct .rightParen, closePos⟩ :: ws)) with ⟨b, rest', read⟩ | refused
  · exact ⟨b, rest', parses_prefixed_parens.mpr (.inl read)⟩
  have inner : Parses (primary (.forTokens n)) setting
      (⟨.punct .leftParen, openPos⟩ :: (us ++ ⟨.punct .rightParen, closePos⟩ :: ws)) e ws :=
    parses_primary_parens.mpr ⟨closePos, reading.parses_expression (by omega) rfl⟩
  have postfixed : ∃ b rest', Parses (postfixed (.forTokens n)) setting
      (⟨.punct .leftParen, openPos⟩ :: (us ++ ⟨.punct .rightParen, closePos⟩ :: ws)) b rest' := by
    cases closed : isClosed e with
    | true => exact ⟨e, ws, parses_postfixed.mpr ⟨e, ws, inner, .inl ⟨closed, rfl, rfl⟩⟩⟩
    | false =>
      by_cases assembled : opensAssembly e = true ∧
          ∃ b rest', Parses (assembly (.forTokens n) e.pos) setting ws b rest'
      · obtain ⟨opens, b, rest', read⟩ := assembled
        exact ⟨b, rest', parses_postfixed.mpr ⟨e, ws, inner, .inr (.inl ⟨closed, opens, read⟩)⟩⟩
      · have failed : opensAssembly e = true → Fails (assembly (.forTokens n) e.pos) setting ws := fun opens =>
          fails_of_not_parses fun b rest' read => assembled ⟨opens, b, rest', read⟩
        obtain ⟨b, links⟩ := loops (.forTokens n) e
        obtain ⟨b, rest', read⟩ := exists_parses_chain links
        exact ⟨b, rest', parses_postfixed.mpr ⟨e, ws, inner, .inr (.inr ⟨closed, failed, read⟩)⟩⟩
  obtain ⟨b, rest', read⟩ := postfixed
  exact ⟨b, rest', parses_prefixed_parens.mpr (.inr ⟨refused, read⟩)⟩

theorem InParens.length {ident : Ident} (h : InParens ts ident) : 3 ≤ ts.length := by
  obtain ⟨_, name, _, rfl, names⟩ := h
  obtain ⟨_, _, _, rfl⟩ := names.head
  simp

theorem parses_cast_of_inParens {nested : Nested} {ident : Ident} (parens : InParens ts ident)
    (noParameter : ¬ (ident.isOneOf setting.parameters = true ∧ (ahead us none).any continuesOperand = true))
    (operand : Parses nested.operand setting us e rest) : ∃ b, Parses (cast nested) setting (ts ++ us) b rest := by
  obtain ⟨openPos, name, closePos, rfl, names⟩ := parens
  have start : StartsAt ([] ++ [] ++ name) ident.pos := by
    cases names <;> rfl
  have noConst : AllConst [] := by simp [AllConst]
  have type : TypeName name (.named ident.pos ident false) := by
    have typed := TypeName.intro start noConst .absent names noConst (.none _)
    simpa using typed
  refine ⟨.cast openPos (.named ident.pos ident false) e, parses_cast.mpr ⟨openPos, closePos, _, _, us, e,
    by simp; rfl, ?_, by rwa [bareName?_any], operand, rfl⟩⟩
  exact type.parses (by simp) (by simp) (by simp)

theorem Reads.single_argument {parameters : List String} {arguments : List Expr}
    (h : Reads parameters .arguments ts arguments next) (one : arguments.length = 1) :
    ∃ e, arguments = [e] ∧ Reads parameters (.expr 1) ts e next := by
  cases h with
  | noArguments => cases one
  | argument inner => exact ⟨_, rfl, inner⟩
  | moreArguments _ _ some =>
    simp only [List.length_append, List.length_singleton, Nat.add_eq_right, List.length_eq_zero_iff] at one
    exact absurd one some

variable {used mid last : List Token} {first linked : Expr}

theorem exact_call (inner : ExactNested setting n) {openPos : Pos}
    (reading : Reads setting.parameters (.expr 10) used first (some (.punct .leftParen)))
    (more : isClosed first = false)
    (noAssembly : opensAssembly first = true →
      Fails (assembly (.forTokens n) first.pos) setting (⟨.punct .leftParen, openPos⟩ :: ts))
    (refused : Fails (cast (.forTokens n)) setting (used ++ ⟨.punct .leftParen, openPos⟩ :: ts))
    (h : Parses (call (.forTokens n) first) setting ts e rest) (enough : used.length + (ts.length + 1) ≤ n + 1)
    (loops : ∀ (nested : Nested) (e : Expr), ∃ b, Loops (chainLink nested) setting e rest b rest') :
    ∃ behind, ts = behind ++ rest ∧ (∀ pos ident, e ≠ .name pos ident) ∧
      Reads setting.parameters .chain (used ++ ⟨.punct .leftParen, openPos⟩ :: behind) e (ahead rest none) := by
  obtain ⟨pos, ident, rfl, ending⟩ := parses_call.mp h
  obtain ⟨tokens, arguments, closePos, rfl, rfl, inside⟩ : ∃ tokens arguments closePos,
      ts = tokens ++ ⟨.punct .rightParen, closePos⟩ :: rest ∧ e = .call pos ident arguments ∧
        Reads setting.parameters .arguments tokens arguments (some (.punct .rightParen)) := by
    rcases ending with ⟨closePos, rfl, rfl⟩ | ⟨-, head, mid, arguments, closePos, read, others, rfl⟩
    · exact ⟨[], [], closePos, rfl, rfl, .noArguments⟩
    · obtain ⟨tokens, rfl, inside⟩ := exact_arguments inner read others (by omega) (.of_mark rfl rfl)
      exact ⟨tokens, arguments, closePos, rfl, rfl, inside⟩
  simp only [List.length_append, List.length_cons] at enough
  refine ⟨tokens ++ [⟨.punct .rightParen, closePos⟩], by simp, by simp, ?_⟩
  -- a cast would have been read in place of the call, and so would inline assembly
  have noCast : MayCast setting.parameters used (some (.punct .leftParen)) → arguments.length ≠ 1 := by
    rintro ⟨name, parens, -, noParameter⟩ one
    obtain ⟨e, rfl, argument⟩ := inside.single_argument one
    have long := parens.length
    have operand : ∃ b rest', Parses (Nested.forTokens n).operand setting
        (⟨.punct .leftParen, openPos⟩ :: tokens ++ ⟨.punct .rightParen, closePos⟩ :: rest) b rest' :=
      parses_operand_of_fields argument (by omega) loops
    obtain ⟨b, after, operand⟩ := operand
    obtain ⟨c, read⟩ := parses_cast_of_inParens parens (by simpa using noParameter) operand
    exact read.not_fails (by simpa using refused)
  have noTemplate : opensAssembly (.name pos ident) = true → ¬ IsTemplate tokens := by
    rintro opens ⟨pos', text, template, lines, rfl, more⟩
    have read : Parses (assembly (.forTokens n) pos) setting
        (⟨.punct .leftParen, openPos⟩ :: (⟨.string text, pos'⟩ :: template ++
          ⟨.punct .rightParen, closePos⟩ :: rest)) (.assembly pos (text :: lines) [] [] [] false) rest :=
      parses_assembly.mpr ⟨[], false, openPos, pos', closePos, text, _, lines, _, ([], [], []), .absent, rfl,
        more.run (by simp) (by simp), parses_asmSections.mpr (.inl ⟨rfl, by simp, rfl⟩), rfl⟩
    exact read.not_fails (noAssembly opens)
  have whole : Reads setting.parameters .chain
      (used ++ ⟨.punct .leftParen, openPos⟩ :: tokens ++ [⟨.punct .rightParen, closePos⟩])
        (.call pos ident arguments)
      (ahead rest none) := .call openPos closePos (.base reading more) inside noCast noTemplate
  simpa using whole

theorem exact_links (inner : ExactNested setting n)
    (reading : Reads setting.parameters (.expr 10) used first (ahead mid none)) (more : isClosed first = false)
    (noAssembly : opensAssembly first = true → Fails (assembly (.forTokens n) first.pos) setting mid)
    (refused : Fails (cast (.forTokens n)) setting (used ++ mid)) (enough : used.length + mid.length ≤ n + 1)
    (links : Rounds (chainLink (.forTokens n)) setting first mid linked last)
    (ends : linksOn (ahead last none) = false) :
    ∃ behind, mid = behind ++ last ∧
      Reads setting.parameters .chain (used ++ behind) linked (ahead last none) := by
  cases links with
  | done => exact ⟨[], rfl, by simpa using .base reading more⟩
  | @round _ second _ _ _ _ link rest =>
    rcases parses_chainLink_some.mp link with ⟨openPos, us, rfl, called⟩ | ⟨isArrow, pos, us, name, rfl,
      named, rfl⟩
    · rw [List.length_cons] at enough
      obtain ⟨pos, ident, rfl, ending⟩ := parses_call.mp called
      have notName : ∀ pos' ident', second ≠ .name pos' ident' := by
        rcases ending with ⟨_, -, rfl⟩ | ⟨-, _, _, _, _, -, -, rfl⟩ <;> simp
      obtain ⟨fields, rfl, read, loops⟩ := exact_fields rest notName ends
      obtain ⟨behind, rfl, -, whole⟩ := exact_call inner reading more noAssembly refused called (by omega) loops
      refine ⟨⟨.punct .leftParen, openPos⟩ :: behind ++ fields, by simp, ?_⟩
      simpa using read _ whole
    · obtain ⟨nameTokens, rfl, names⟩ := parses_ident named
      obtain ⟨fields, rfl, read, -⟩ := exact_fields rest (by simp) ends
      refine ⟨⟨.punct (fieldPunct isArrow), pos⟩ :: nameTokens ++ fields, by simp, ?_⟩
      simpa using read _ (.field isArrow pos (.base reading more) names)

theorem exact_chain (inner : ExactNested setting n)
    (reading : Reads setting.parameters (.expr 10) used first (ahead mid none)) (more : isClosed first = false)
    (noAssembly : opensAssembly first = true → Fails (assembly (.forTokens n) first.pos) setting mid)
    (refused : Fails (cast (.forTokens n)) setting (used ++ mid)) (enough : used.length + mid.length ≤ n + 1)
    (h : Parses (chain (.forTokens n) first) setting mid b rest) (proper : Proper setting rest) :
    ∃ behind, mid = behind ++ rest ∧ Reads setting.parameters (.expr 9) (used ++ behind) b (ahead rest none) := by
  obtain ⟨linked, last, links, ending⟩ := parses_chain.mp h
  have rounds := rounds_of_repeated (fun _ _ _ stop => (parses_chainLink_none.mp stop).1.symm) links
  have ends : linksOn (ahead last none) = false := by
    rcases ending with ⟨op, pos, isStep, rfl, -⟩ | ⟨rfl, -⟩
    · cases op <;> rfl
    · exact linksOn_of_follows proper.follows
  obtain ⟨behind, rfl, chain⟩ := exact_links inner reading more noAssembly refused enough rounds ends
  rw [List.length_append] at enough
  rcases ending with ⟨op, pos, isStep, rfl, rfl⟩ | ⟨rfl, -, rfl⟩
  · refine ⟨behind ++ [⟨.punct op.punct, pos⟩], by simp, ?_⟩
    have noCast : MayCast setting.parameters (used ++ behind) (some (.punct op.punct)) →
        (ahead rest none).any startsOperand = false := by
      rintro ⟨ident, parens, -, noParameter⟩
      refine Bool.eq_false_iff.mpr fun start => ?_
      obtain ⟨us, vs, e, rfl, reading'⟩ := proper.operand start
      have long := parens.length
      simp only [List.length_append, List.length_cons] at enough long
      obtain ⟨n, rfl⟩ : ∃ m, n = m + 1 := ⟨n - 1, by omega⟩
      have operand : Parses (Nested.forTokens (n + 1)).operand setting (⟨.punct op.punct, pos⟩ :: (us ++ vs))
          (.unary pos op .before e) vs :=
        parses_prefixed_operator.mpr ⟨e, reading'.parses_operand (by omega), rfl⟩
      obtain ⟨c, read⟩ := parses_cast_of_inParens parens noParameter operand
      exact read.not_fails (by simpa using refused)
    simpa using Reads.step pos isStep chain proper.follows noCast
  · refine ⟨behind, rfl, .chained chain proper.follows ?_⟩
    rintro ⟨ident, parens, start, noParameter⟩
    obtain ⟨us, vs, e, rfl, reading'⟩ := proper.operand start
    have long := parens.length
    simp only [List.length_append] at enough long
    have operand : Parses (Nested.forTokens n).operand setting (us ++ vs) e vs :=
      reading'.parses_operand (by omega)
    obtain ⟨c, read⟩ := parses_cast_of_inParens parens noParameter operand
    exact read.not_fails (by simpa using refused)

theorem Reads.loosen {parameters : List String} {low : Nat} (h : Reads parameters (.expr rank) ts e next)
    (some : 0 < low) (le : low ≤ rank) (high : rank ≤ 9) : Reads parameters (.expr low) ts e next := by
  obtain ⟨distance, rfl⟩ := Nat.exists_eq_add_of_le le
  clear le
  induction distance with
  | zero => exact h
  | succ distance ih => exact ih (.tighter (by omega) (by omega) h) (by omega)

theorem Template.pieces {lines : List String} (h : Template ts lines)
    (noComma : ∀ t ∈ ts, t.lexeme ≠ .punct .comma) :
    ∃ pieces, Pieces ts pieces := by
  induction h with
  | nil => exact ⟨[], .nil⟩
  | adjacent pos text _ ih =>
    obtain ⟨pieces, more⟩ := ih fun t member => noComma t (by simp [member])
    exact ⟨_, .text pos text more⟩
  | comma => exact absurd rfl (noComma _ List.mem_cons_self)

theorem Reads.of_pieces {parameters : List String} {pieces : List Expr} (pos : Pos) (text : String)
    (h : Pieces ts pieces) (follow : followsOperand next = true) :
    ∃ e, Reads parameters (.expr 1) (⟨.string text, pos⟩ :: ts) e next := by
  have closed : ∃ e, Reads parameters (.expr 9) (⟨.string text, pos⟩ :: ts) e next := by
    cases pieces with
    | nil => exact ⟨_, .closed (.piece (.text pos text h)) rfl follow⟩
    | cons => exact ⟨_, .closed (.pieces (.text pos text h)) rfl follow⟩
  obtain ⟨e, reading⟩ := closed
  exact ⟨e, reading.loosen (by omega) (by omega) (by omega)⟩

theorem exact_assembly (inner : ExactNested setting n) {pos namePos : Pos} {word : String}
    (reading : Reads setting.parameters (.expr 10) used (.name pos (.simple namePos word)) (ahead mid none))
    (isWord : isAssemblyWord word = true) (refused : Fails (cast (.forTokens n)) setting (used ++ mid))
    (enough : used.length + mid.length ≤ n + 1) (h : Parses (assembly (.forTokens n) pos) setting mid b rest)
    (proper : Proper setting rest) :
    ∃ behind, mid = behind ++ rest ∧ Reads setting.parameters (.expr 9) (used ++ behind) b (ahead rest none) := by
  obtain ⟨volatile, isVolatile, openPos, firstPos, closePos, text, us, lines, mid, parts, marked, rfl,
    template, behind, rfl⟩ := parses_assembly.mp h
  obtain ⟨tokens, rfl, more, -, -⟩ := templateLines_split template
  simp only [List.length_append, List.length_cons] at enough
  have nonempty := List.length_pos_iff.mpr reading.derives.starts.ne_nil
  obtain ⟨sections, rfl, readSections⟩ := exact_asmSections inner (by omega) behind (.of_mark rfl rfl)
  have noCast : MayCast setting.parameters used (some (.punct .leftParen)) → volatile = [] → sections = [] →
      ∃ t ∈ tokens, t.lexeme = .punct .comma := by
    rintro ⟨ident, parens, -, noParameter⟩ rfl rfl
    refine Classical.byContradiction fun none => ?_
    obtain ⟨pieces, strings⟩ := more.pieces fun t member comma => none ⟨t, member, comma⟩
    have closed : followsOperand (some (.punct .rightParen)) = true := rfl
    obtain ⟨e, argument⟩ := Reads.of_pieces firstPos text strings closed
    have stop : ∀ (nested : Nested) (e : Expr), ∃ b, Loops (chainLink nested) setting e rest b rest :=
      fun nested e => ⟨e, .done (parses_chainLink_none.mpr ⟨rfl, linksOn_of_follows proper.follows⟩)⟩
    have long := parens.length
    have operand : ∃ b rest', Parses (Nested.forTokens n).operand setting (⟨.punct .leftParen, openPos⟩ ::
        (⟨.string text, firstPos⟩ :: tokens) ++ ⟨.punct .rightParen, closePos⟩ :: rest) b rest' :=
      parses_operand_of_fields argument (by rw [List.length_cons]; omega) stop
    obtain ⟨c, after, operand⟩ := operand
    obtain ⟨d, read⟩ := parses_cast_of_inParens parens (by simpa using noParameter) operand
    exact read.not_fails (by simpa using refused)
  refine ⟨volatile ++ ⟨.punct .leftParen, openPos⟩ :: ⟨.string text, firstPos⟩ :: tokens ++ sections ++
    [⟨.punct .rightParen, closePos⟩], by simp, ?_⟩
  have opener : Reads setting.parameters (.expr 10) used (.name pos (.simple namePos word))
      (ahead volatile (some (.punct .leftParen))) := by simpa using reading
  have whole :=
    Reads.assembly openPos firstPos closePos text opener isWord marked more readSections proper.follows noCast
  simpa using whole

theorem exact_postfixed (inner : ExactNested setting n) (enough : ts.length ≤ n + 1)
    (h : Parses (postfixed (.forTokens n)) setting ts b rest) (refused : Fails (cast (.forTokens n)) setting ts)
    (proper : Proper setting rest) :
    ∃ used, ts = used ++ rest ∧ Reads setting.parameters (.expr 9) used b (ahead rest none) := by
  obtain ⟨e, mid, first, ending⟩ := parses_postfixed.mp h
  obtain ⟨used, rfl, reading⟩ := exact_primary inner enough first
  rw [List.length_append] at enough
  rcases ending with ⟨closed, rfl, rfl⟩ | ⟨-, opens, read⟩ | ⟨more, noAssembly, read⟩
  · exact ⟨used, rfl, .closed reading closed proper.follows⟩
  · obtain ⟨pos, namePos, word, rfl, isWord⟩ := opensAssembly_eq_true opens
    obtain ⟨behind, rfl, last⟩ := exact_assembly inner reading isWord refused enough read proper
    exact ⟨used ++ behind, by simp, last⟩
  · obtain ⟨behind, rfl, last⟩ := exact_chain inner reading more noAssembly refused enough read proper
    exact ⟨used ++ behind, by simp, last⟩

theorem exact_cast (inner : ExactNested setting n) : Exact (.expr 8) (cast (.forTokens n)) setting (n + 1) := by
  intro ts b rest enough h proper
  obtain ⟨openPos, closePos, target, mid, us, operand, rfl, typed, noParameter, read, rfl⟩ := parses_cast.mp h
  obtain ⟨type, rfl, typeName⟩ := parses_ctype typed
  simp only [List.length_cons, List.length_append] at enough
  obtain ⟨used, rfl, reading⟩ := inner.operand (by omega) read proper
  rw [ahead_append] at noParameter
  exact ⟨_, by simp, .cast openPos closePos typeName reading noParameter⟩

theorem exact_prefixed (inner : ExactNested setting n) :
    Exact (.expr 8) (prefixed (.forTokens n)) setting (n + 1) := by
  intro ts b rest enough h proper
  rcases prefixed_cases h with read | ⟨refused, read⟩ | ⟨pos, us, e, rfl, read, rfl⟩ | ⟨op, pos, us, e, rfl, read,
    rfl⟩
  · exact exact_cast inner enough read proper
  · obtain ⟨used, same, reading⟩ := exact_postfixed inner enough read refused proper
    exact ⟨used, same, .tighter (by omega) (by omega) reading⟩
  · rw [List.length_cons] at enough
    obtain ⟨used, rfl, reading⟩ := inner.operand (by omega) read proper
    exact ⟨_, rfl, .addressOf pos reading⟩
  · rw [List.length_cons] at enough
    obtain ⟨used, rfl, reading⟩ := inner.operand (by omega) read proper
    exact ⟨_, rfl, .before op pos reading⟩

end MacroLift
