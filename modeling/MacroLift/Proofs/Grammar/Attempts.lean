import MacroLift.Proofs.Grammar.Balance
import MacroLift.Proofs.Grammar.Soundness

namespace MacroLift

open MacroLift.Parser

variable {setting : Setting} {nested : Nested} {ts us rest : List Token} {e : Expr}

theorem PastedNames.unique {first second : List String} (h : PastedNames ts first) (h' : PastedNames ts second) :
    first = second := by
  induction h generalizing second with
  | nil =>
    cases h'
    rfl
  | cons _ _ _ _ ih =>
    cases h' with
    | cons _ _ _ more => rw [ih more]

theorem Names.unique {first second : Ident} (h : Names ts first) (h' : Names ts second) : first = second := by
  cases h with
  | simple =>
    cases h' with
    | simple => rfl
    | pasted _ _ more many =>
      cases more
      exact absurd rfl many
  | pasted _ _ more many =>
    cases h' with
    | simple =>
      cases more
      exact absurd rfl many
    | pasted _ _ more' _ => rw [more.unique more']

def Phrase.NamesItself : (phrase : Phrase) → List Token → phrase.Tree → Prop
  | .expr _, ts, e | .chain, ts, e => ∀ ident, Names ts ident → e = .name ident.pos ident
  | _, _, _ => True

theorem Derives.namesItself {phrase : Phrase} {ts : List Token} {tree : phrase.Tree} (h : Derives phrase ts tree) :
    phrase.NamesItself ts tree := by
  have other : ∀ {ts : List Token} {ident : Ident} {t : Token}, Names ts ident → t ∈ ts →
      t.lexeme.inName = false → False := by
    intro ts ident t names member mark
    have letter := names.letters t member
    rw [mark] at letter
    cases letter
  induction h with
  | name names =>
    intro ident names'
    rw [names.unique names']
  | number | character | parens | cast | addressOf =>
    exact fun ident names => (other names (List.mem_cons_self ..) rfl).elim
  | before op => exact fun ident names => (other names (List.mem_cons_self ..) (by cases op <;> rfl)).elim
  | piece pieces | pieces pieces =>
    intro ident names
    cases pieces with
    | text => exact (other names (List.mem_cons_self ..) rfl).elim
    | mark => exact (other names (List.mem_cons_self ..) rfl).elim
  | base _ _ ih | closed _ _ ih | chained _ ih | tighter _ _ _ ih => exact ih
  | call openPos =>
    exact fun ident names => (other (t := ⟨.punct .leftParen, openPos⟩) names (by simp) rfl).elim
  | field isArrow pos =>
    refine fun ident names => (other (t := ⟨.punct (if isArrow then .arrow else .dot), pos⟩) names
      (by simp) ?_).elim
    cases isArrow <;> rfl
  | @step _ _ op pos =>
    refine fun ident names => (other (t := ⟨.punct op.punct, pos⟩) names (by simp) ?_).elim
    cases op <;> rfl
  | assembly openPos =>
    exact fun ident names => (other (t := ⟨.punct .leftParen, openPos⟩) names (by simp) rfl).elim
  | binary op pos =>
    refine fun ident names => (other (t := ⟨.punct op.punct, pos⟩) names (by simp) ?_).elim
    cases op <;> rfl
  | ternary questionPos =>
    exact fun ident names => (other (t := ⟨.punct .question, questionPos⟩) names (by simp) rfl).elim
  | assign op pos =>
    refine fun ident names => (other (t := ⟨.punct op.punct, pos⟩) names (by simp) ?_).elim
    cases op <;> rfl
  | _ => trivial

theorem TypeName.of_operand {type : CType} (typed : TypeName ts type) (goes : Phrase.chain.GoesOn (ts ++ us))
    (start : Leads startsOperand (ts ++ us)) :
    ∃ name ident, Names name ident ∧
      ((ts = name ∧ type = .named ident.pos ident false) ∨
        ∃ pos, ts = name ++ [⟨.punct .star, pos⟩] ∧ Leads startsOperand us) := by
  cases typed with
  | @intro before word name behind levels isStruct ident _ pos first constBefore struct names constBehind
    pointers =>
    -- no operand begins with `const` or `struct`, and behind a name there is a mark
    cases constBefore.eq_nil_of_leads (by simpa using start)
    have noWord : word = [] ∧ isStruct = false := struct.absent_of_leads rfl (by simpa using start)
    obtain ⟨rfl, rfl⟩ := noWord
    simp only [List.nil_append] at first goes start ⊢
    have noBehind : behind = [] := by
      cases behind with
      | nil => rfl
      | cons t behind =>
        have const := constBehind t (by simp)
        have follows := (goes name t (behind ++ levels ++ us) ident names (by simp)).1
        rw [const] at follows
        cases follows
    subst noBehind
    have place : pos = ident.pos := by
      cases names <;> cases first <;> rfl
    subst place
    refine ⟨name, ident, names, ?_⟩
    cases pointers with
    | none => exact .inl ⟨by simp, rfl⟩
    | @star _ _ consts more starPos const pointers =>
      have leads := (goes name ⟨.punct .star, starPos⟩ (consts ++ more ++ us) ident names (by simp)).2 rfl
      cases const.eq_nil_of_leads (by simpa using leads)
      cases pointers with
      | none => exact .inr ⟨starPos, by simp, leads⟩
      | star => cases leads.head

theorem TypeName.names_of_derives {type : CType} (typed : TypeName ts type) (derived : Derives (.expr 1) ts e) :
    ∃ ident, Names ts ident ∧ type = .named ident.pos ident false ∧ e = .name ident.pos ident := by
  have goes : Phrase.chain.GoesOn (ts ++ []) := by
    rw [List.append_nil]
    exact derived.goesOn
  have start : Leads startsOperand (ts ++ []) := by
    rw [List.append_nil]
    exact derived.starts
  obtain ⟨name, ident, names, ⟨rfl, same⟩ | ⟨pos, -, leads⟩⟩ := typed.of_operand goes start
  · exact ⟨ident, names, same, derived.namesItself ident names⟩
  · exact absurd rfl leads.ne_nil

/-- What a phrase that begins with a parenthesis has in it. -/
def Phrase.Parenthesised : (phrase : Phrase) → List Token → phrase.Tree → Prop
  | .expr rank, ts, tree => ∀ openPos us, 9 ≤ rank → ts = ⟨.punct .leftParen, openPos⟩ :: us →
      ∃ inner closePos more e, us = inner ++ ⟨.punct .rightParen, closePos⟩ :: more ∧ Derives (.expr 1) inner e ∧
        (rank = 10 → more = [] ∧ e = tree)
  | .chain, ts, _ => ∀ openPos us, ts = ⟨.punct .leftParen, openPos⟩ :: us →
      ∃ inner closePos more e, us = inner ++ ⟨.punct .rightParen, closePos⟩ :: more ∧ Derives (.expr 1) inner e
  | _, _, _ => True

theorem Phrase.Parenthesised.chain_of_expr {rank : Nat} (h : (Phrase.expr rank).Parenthesised ts e)
    (high : 9 ≤ rank) (tree : Expr) : Phrase.chain.Parenthesised ts tree := by
  intro openPos us same
  obtain ⟨inner, closePos, more, e, rfl, derived, -⟩ := h openPos us high same
  exact ⟨inner, closePos, more, e, rfl, derived⟩

theorem Derives.parenthesised {phrase : Phrase} {ts : List Token} {tree : phrase.Tree}
    (h : Derives phrase ts tree) :
    phrase.Parenthesised ts tree := by
  have behind : ∀ {ts vs : List Token} {e : Expr} (b : Expr), Leads startsOperand ts →
      Phrase.chain.Parenthesised ts e → Phrase.chain.Parenthesised (ts ++ vs) b := by
    rintro _ vs _ _ ⟨t, us, rfl, -⟩ part openPos ws same
    cases same
    obtain ⟨inner, closePos, more, e, rfl, derived⟩ := part openPos us rfl
    exact ⟨inner, closePos, more ++ vs, e, by simp, derived⟩
  have loose : ∀ {ts : List Token} {e : Expr}, Phrase.chain.Parenthesised ts e →
    (Phrase.expr 9).Parenthesised ts e := by
    intro ts e part openPos us _ same
    obtain ⟨inner, closePos, more, e, rfl, derived⟩ := part openPos us same
    exact ⟨inner, closePos, more, e, rfl, derived, by omega⟩
  induction h with
  | name names =>
    rintro openPos us _ rfl
    obtain ⟨_, _, _, same⟩ := names.head
    cases same
  | number | character =>
    intro openPos us _ same
    cases same
  | piece pieces | pieces pieces =>
    rintro openPos us _ rfl
    cases pieces
  | parens openPos closePos inner =>
    intro _ us _ same
    cases same
    exact ⟨_, closePos, [], _, rfl, inner, fun _ => ⟨rfl, rfl⟩⟩
  | base _ _ ih => exact ih.chain_of_expr (by omega) _
  | call _ _ callee _ ih => rw [List.append_assoc]; exact behind _ callee.starts ih
  | field _ _ owner _ ih => exact behind _ owner.starts ih
  | closed _ _ ih => exact loose (ih.chain_of_expr (by omega) _)
  | chained _ ih => exact loose ih
  | step _ _ inner ih => exact loose (behind _ inner.starts ih)
  | @assembly _ _ _ _ pos namePos word _ _ _ _ _ _ _ opener _ _ _ _ ih =>
    simp only [List.append_assoc]
    exact loose (behind _ opener.starts (ih.chain_of_expr (by omega) (.name pos (.simple namePos word))))
  | binary op =>
    intro _ _ high
    cases op <;> simp [BinaryOp.rank] at high
  | _ => first | trivial | (intro _ _ high; omega)

@[simp] theorem bareName?_any {pos : Pos} {ident : Ident} {isStruct : Bool} (names : List String) :
    (bareName? (.named pos ident isStruct)).any names.contains = ident.isOneOf names := by
  cases ident <;> rfl

theorem parses_cast_of_chain {b : Expr} {rest' : List Token}
    (h : Parses (cast nested) setting (ts ++ rest) b rest')
    (start : Leads startsOperand ts) (part : Phrase.chain.Parenthesised ts e) :
    ∃ openPos name closePos ident more operand,
      ts = ⟨.punct .leftParen, openPos⟩ :: name ++ ⟨.punct .rightParen, closePos⟩ :: more ∧ Names name ident ∧
      Derives (.expr 1) name (.name ident.pos ident) ∧
      ¬ (ident.isOneOf setting.parameters = true ∧ (ahead (more ++ rest) none).any continuesOperand = true) ∧
      Parses nested.operand setting (more ++ rest) operand rest' := by
  obtain ⟨openPos, closePos, target, mid, us, operand, same, typed, noParameter, read, rfl⟩ := parses_cast.mp h
  obtain ⟨type, rfl, typeName⟩ := parses_ctype typed
  obtain ⟨t, ws, rfl, -⟩ := start
  simp only [List.cons_append, List.cons.injEq] at same
  obtain ⟨rfl, same⟩ := same
  obtain ⟨inner, closePos', more, e, rfl, derived⟩ := part openPos ws rfl
  rw [List.append_assoc, List.cons_append] at same
  have whole := Balanced.eq_of_append_close derived.balanced (balanced_of_leaf typeName.leaf) same
  subst whole
  obtain ⟨ident, names, rfl, rfl⟩ := typeName.names_of_derives derived
  simp only [List.append_cancel_left_eq, List.cons.injEq, Token.mk.injEq, true_and] at same
  obtain ⟨rfl, rfl⟩ := same
  rw [bareName?_any] at noParameter
  exact ⟨openPos, inner, _, ident, more, operand, rfl, names, derived, noParameter, read⟩

theorem fails_operand_of_ahead (n : Nat) (h : (ahead rest none).any startsOperand = false) :
    Fails (Nested.forTokens n).operand setting rest := by
  refine fails_of_not_parses fun e rest' parsed => ?_
  obtain ⟨used, rfl, derived⟩ := (soundNested_forTokens setting n).operand parsed
  obtain ⟨t, us, rfl, start⟩ := derived.starts
  rw [List.cons_append, ahead_cons, Option.any_some, start] at h
  cases h

theorem parses_operand_parens {n : Nat} {b : Expr} {rest' : List Token} {openPos closePos : Pos}
    (h : Parses (Nested.forTokens n).operand setting
      (⟨.punct .leftParen, openPos⟩ :: us ++ ⟨.punct .rightParen, closePos⟩ :: rest) b rest')
    (balanced : Balanced us) :
    (∃ target, TypeName us target) ∨ ∃ m e, n = m + 1 ∧ Derives (.expr 1) us e ∧
      Parses (Nested.forTokens m).expression setting (us ++ ⟨.punct .rightParen, closePos⟩ :: rest) e
        (⟨.punct .rightParen, closePos⟩ :: rest) := by
  cases n with
  | zero => exact absurd h parses_mismatch
  | succ n =>
    rw [List.cons_append] at h
    -- a closing parenthesis behind balanced tokens stands at one place only
    rcases parses_prefixed_parens.mp h with read | ⟨-, read⟩
    · obtain ⟨_, closePos', target, mid, vs, operand, same, typed, -⟩ := parses_cast.mp read
      obtain ⟨type, rfl, typeName⟩ := parses_ctype typed
      have whole := Balanced.eq_of_append_close balanced (balanced_of_leaf typeName.leaf) (List.cons.inj same).2
      subst whole
      exact .inl ⟨target, typeName⟩
    · obtain ⟨e, mid, first, -⟩ := parses_postfixed.mp read
      obtain ⟨closePos', read⟩ := parses_primary_parens.mp first
      obtain ⟨used, same, derived⟩ := (soundNested_forTokens setting n).expression read
      have whole := Balanced.eq_of_append_close balanced derived.balanced same
      subst whole
      rw [List.append_cancel_left_eq] at same
      rw [← same] at read
      exact .inr ⟨n, e, rfl, derived, read⟩

theorem fails_assembly_of_ahead {start : Pos} (noVolatile : ahead ts none ≠ some (.keyword .volatileKw))
    (noParen : ahead ts none ≠ some (.punct .leftParen)) : Fails (assembly nested start) setting ts := by
  refine fails_of_not_parses fun b rest' parsed => ?_
  obtain ⟨_, _, _, _, _, _, _, _, _, _, marked, rfl, -⟩ := parses_assembly.mp parsed
  cases marked with
  | absent => exact noParen rfl
  | present => exact noVolatile rfl

theorem fails_assembly_of_arguments {start openPos closePos : Pos} {arguments : List Expr}
    (derived : Derives .arguments us arguments) (noTemplate : ¬ IsTemplate us) :
    Fails (assembly nested start) setting
    (⟨.punct .leftParen, openPos⟩ :: us ++ ⟨.punct .rightParen, closePos⟩ :: rest) := by
  refine fails_of_not_parses fun b rest' parsed => ?_
  obtain ⟨volatile, isVolatile, _, firstPos, closePos', first, vs, lines, mid, parts, marked, same,
    template, behind, rfl⟩ := parses_assembly.mp parsed
  obtain ⟨used, rfl, more, -, -⟩ := templateLines_split template
  cases marked with
  | present => cases same
  | absent =>
    have split : us ++ ⟨.punct .rightParen, closePos⟩ :: rest = (⟨.string first, firstPos⟩ :: used) ++ mid := by
      simpa using (List.cons.inj same).2
    have letters : ∀ t ∈ ⟨.string first, firstPos⟩ :: used, t.lexeme.inTemplate = true :=
      List.forall_mem_cons.mpr ⟨rfl, more.letters⟩
    -- the template ends behind the arguments, with them, or inside them
    rcases List.append_eq_append_iff.mp split with ⟨cs, eq, eq'⟩ | ⟨cs, rfl, eq'⟩
    · cases cs with
      | nil => exact noTemplate ⟨firstPos, first, used, lines, by simpa using eq.symm, more⟩
      | cons c cs =>
        cases eq'
        have letter := letters ⟨.punct .rightParen, closePos⟩ (by rw [eq]; simp)
        cases letter
    · cases cs with
      | nil => exact noTemplate ⟨firstPos, first, used, lines, by simp, more⟩
      | cons c cs =>
        subst eq'
        have noColon := derived.unsectioned (⟨.string first, firstPos⟩ :: used) c cs letters rfl
        rcases parses_asmSections.mp behind with ⟨same, -⟩ | ⟨pos, _, _, _, same, -⟩
        · cases same
          have depth := derived.balanced 0
          have flat : Balanced (⟨.string first, firstPos⟩ :: used) := balanced_of_letters letters rfl rfl
          rw [openAfter_append, flat 0] at depth
          cases depth
        · cases same
          exact noColon rfl

theorem fails_operand_of_template {n : Nat} {template sections : List Token} {lines : List String}
    {parts : List AsmOperand × List AsmOperand × List String} {openPos firstPos closePos : Pos} {first : String}
    (more : Template template lines) (behind : Derives .sections sections parts)
    (isTemplate : sections = [] → ∃ t ∈ template, t.lexeme = .punct .comma) :
    Fails (Nested.forTokens n).operand setting
      (⟨.punct .leftParen, openPos⟩ :: ⟨.string first, firstPos⟩ :: template ++ sections ++
        ⟨.punct .rightParen, closePos⟩ :: rest) := by
  refine fails_of_not_parses fun b rest' parsed => ?_
  have letters : ∀ t ∈ ⟨.string first, firstPos⟩ :: template, t.lexeme.inTemplate = true :=
    List.forall_mem_cons.mpr ⟨rfl, more.letters⟩
  have balanced : Balanced ((⟨.string first, firstPos⟩ :: template) ++ sections) :=
    (balanced_of_letters letters rfl rfl).append behind.balanced
  -- strings are no type, and in no expression does a comma or a colon follow them
  rcases parses_operand_parens (by simpa using parsed) balanced with ⟨target, typed⟩ | ⟨m, e, -, derived, -⟩
  · have letter := typed.letters ⟨.string first, firstPos⟩ (by simp)
    cases letter
  · have unsectioned := derived.unsectioned
    cases behind with
    | noSections =>
      obtain ⟨t, member, comma⟩ := isTemplate rfl
      obtain ⟨before, after, rfl⟩ := List.append_of_mem member
      refine (unsectioned (⟨.string first, firstPos⟩ :: before) t after ?_ (by simp)).2 comma
      exact fun u inside => letters u (List.mem_append_left (t :: after) inside)
    | outputs pos => exact (unsectioned _ _ _ letters rfl).1 rfl
    | inputs pos => exact (unsectioned _ ⟨.punct .colon, pos⟩ _ letters rfl).1 rfl
    | clobbers pos => exact (unsectioned _ ⟨.punct .colon, pos⟩ _ letters rfl).1 rfl

theorem pointer_of_header {before type behind name ws : List Token} {isStaticBefore isStaticBehind : Bool}
    {target : CType} {ident : Ident} {assignPos : Pos}
    (static : Optional (.keyword .staticKw) before isStaticBefore)
    (typed : TypeName type target) (late : Optional (.keyword .staticKw) behind isStaticBehind)
    (names : Names name ident)
    (derived : Derives (.expr 1) (before ++ type ++ behind ++ name ++ ⟨.punct .assign, assignPos⟩ :: ws) e) :
    ∃ owner starPos typeIdent, before = [] ∧ type = owner ++ [⟨.punct .star, starPos⟩] ∧ behind = [] ∧
      Names owner typeIdent := by
  have start := derived.starts
  have goes := derived.goesOn
  simp only [List.append_assoc] at start goes
  obtain ⟨rfl, rfl⟩ := static.absent_of_leads rfl start
  simp only [List.nil_append] at start goes
  obtain ⟨owner, typeIdent, typeNames, ⟨rfl, -⟩ | ⟨starPos, rfl, leads⟩⟩ := typed.of_operand goes start
  · cases late with
    | present pos =>
      have follows := (goes _ ⟨.keyword .staticKw, pos⟩ _ _ typeNames rfl).1
      cases follows
    | absent =>
      obtain ⟨namePos, text, more, rfl⟩ := names.head
      have follows :=
        (goes _ ⟨.name text, namePos⟩ (more ++ ⟨.punct .assign, assignPos⟩ :: ws) _ typeNames (by simp)).1
      cases follows
  · exact ⟨owner, starPos, typeIdent, rfl, rfl, (late.absent_of_leads rfl leads).1, typeNames⟩

def Lexeme.inHeader : Lexeme → Bool
  | .keyword .staticKw => true
  | l => l.inType

theorem header_letters {before type behind name : List Token} {isStaticBefore isStaticBehind : Bool}
    {target : CType}
    {ident : Ident} (static : Optional (.keyword .staticKw) before isStaticBefore) (typed : TypeName type target)
    (late : Optional (.keyword .staticKw) behind isStaticBehind) (names : Names name ident) :
    ∀ t ∈ before ++ type ++ behind ++ name, t.lexeme.inHeader = true := by
  have ofType : ∀ {l : Lexeme}, l.inType = true → l.inHeader = true := by
    intro l letter
    unfold Lexeme.inHeader
    split
    · rfl
    · exact letter
  intro t member
  simp only [List.mem_append] at member
  rcases member with ((member | member) | member) | member
  · rw [static.letters t member]
    rfl
  · exact ofType (typed.letters t member)
  · rw [late.letters t member]
    rfl
  · exact ofType (names.inType t member)

theorem fails_declaration {pos : Pos} (derived : Derives (.expr 1) us e) (noDeclaration : ¬ OpensDeclaration us) :
    Fails (declaration nested) setting (us ++ ⟨.punct .semicolon, pos⟩ :: rest) := by
  refine fails_of_not_parses fun s rest' parsed => ?_
  obtain ⟨before, type, behind, name, vs, _, target, ident, isStaticBefore, isStaticBehind, assignPos, stopPos,
    value, same, -, static, typed, late, -, names, -, -⟩ := declaration_cases parsed
  obtain ⟨cs, rfl, -⟩ | ⟨-, same, -⟩ := split_letters (header_letters static typed late names) rfl same
  · obtain ⟨owner, starPos, typeIdent, rfl, rfl, rfl, typeNames⟩ :=
      pointer_of_header static typed late names derived
    exact noDeclaration ⟨owner, starPos, name, assignPos, cs, typeIdent, ident, by simp, typeNames, names⟩
  · cases same

end MacroLift
