import MacroLift.Proofs.Grammar.Runs.Literals

namespace MacroLift.Parser

variable {setting : Setting} {nested : Nested} {ts rest : List Token} {e b : Expr}

abbrev fieldPunct (isArrow : Bool) : Punct :=
  if isArrow then .arrow else .dot

def isParameter (target : CType) : Parser Bool :=
  fun setting ts => ⟨.ok ((bareName? target).any setting.parameters.contains, ts), none⟩

@[simp] theorem parses_isParameter {target : CType} {found : Bool} :
    Parses (isParameter target) setting ts found rest ↔
    (bareName? target).any setting.parameters.contains = found ∧ ts = rest := by
  simp [Parses, isParameter]

theorem cast_eq (nested : Nested) : cast nested = (do
    let pos ← place
    expect (.punct .leftParen) "'('"
    let target ← ctype
    expect (.punct .rightParen) "')'"
    let next ← peek
    if (← isParameter target) && next.any continuesOperand then
      failAt (.stated .syntactic "macro parameter is not a type" none) pos
    let operand ← nested.operand
    pure (.cast pos target operand)) := rfl

theorem parses_cast : Parses (cast nested) setting ts b rest ↔
    ∃ openPos closePos target mid us operand, ts = ⟨.punct .leftParen, openPos⟩ :: mid ∧
      Parses ctype setting mid target (⟨.punct .rightParen, closePos⟩ :: us) ∧
      ¬ ((bareName? target).any setting.parameters.contains = true ∧
        (ahead us none).any continuesOperand = true) ∧
      Parses nested.operand setting us operand rest ∧ b = .cast openPos target operand := by
  rw [cast_eq]
  simp only [parses_bind, parses_place, parses_expect, parses_peek, parses_isParameter]
  constructor
  · rintro ⟨_, _, ⟨rfl, rfl⟩, _, mid, ⟨openPos, rfl⟩, target, _, typed, _, us, ⟨closePos, rfl⟩, _, _,
      ⟨rfl, rfl⟩, _, _, ⟨rfl, rfl⟩, h⟩
    split at h
    · simp at h
    · rename_i noParameter
      simp only [parses_bind, parses_pure] at h
      obtain ⟨operand, _, read, rfl, rfl⟩ := h
      exact ⟨openPos, closePos, target, mid, us, operand, rfl, typed, by simpa using noParameter, read, rfl⟩
  · rintro ⟨openPos, closePos, target, mid, us, operand, rfl, typed, noParameter, read, rfl⟩
    refine ⟨openPos, _, ⟨rfl, rfl⟩, (), mid, ⟨openPos, rfl⟩, target, _, typed, (), us, ⟨closePos, rfl⟩, _, _,
      ⟨rfl, rfl⟩, _, _, ⟨rfl, rfl⟩, ?_⟩
    rw [if_neg (by simpa using noParameter)]
    simp only [parses_bind, parses_pure]
    exact ⟨operand, rest, read, rfl, rfl⟩

theorem parses_call : Parses (call nested e) setting ts b rest ↔
    ∃ pos ident, e = .name pos ident ∧
      ((∃ closePos, ts = ⟨.punct .rightParen, closePos⟩ :: rest ∧ b = .call pos ident []) ∨
        (ahead ts none ≠ some (.punct .rightParen) ∧ ∃ first mid arguments closePos,
          Parses nested.expression setting ts first mid ∧
          Parses (moreArguments nested [first]) setting mid arguments (⟨.punct .rightParen, closePos⟩ :: rest) ∧
          b = .call pos ident arguments)) := by
  cases e with
  | name pos ident =>
    simp only [call, parses_bind]
    constructor
    · rintro ⟨found, mid, close, h⟩
      refine ⟨pos, ident, rfl, ?_⟩
      rcases parses_accept.mp close with ⟨rfl, closePos, rfl⟩ | ⟨rfl, rfl, noClose⟩
      · simp only [if_true, parses_pure] at h
        obtain ⟨rfl, rfl⟩ := h
        exact .inl ⟨closePos, rfl, rfl⟩
      · simp only [Bool.false_eq_true, if_false, parses_bind, parses_expect, parses_pure] at h
        obtain ⟨first, _, read, arguments, _, more, _, _, ⟨closePos, rfl⟩, rfl, rfl⟩ := h
        exact .inr ⟨noClose, first, _, arguments, closePos, read, more, rfl⟩
    · rintro ⟨_, _, same, ⟨closePos, rfl, rfl⟩ | ⟨noClose, first, mid, arguments, closePos, read, more, rfl⟩⟩
      · cases same
        exact ⟨true, rest, parses_accept_true.mpr ⟨closePos, rfl⟩, by simp⟩
      · cases same
        refine ⟨false, ts, parses_accept_false.mpr ⟨rfl, noClose⟩, ?_⟩
        simp only [Bool.false_eq_true, if_false, parses_bind, parses_expect, parses_pure]
        exact ⟨first, mid, read, arguments, _, more, (), _, ⟨closePos, rfl⟩, rfl, rfl⟩
  | _ => simp [call]

theorem parses_chainLink_some : Parses (chainLink nested e) setting ts (some b) rest ↔
    (∃ pos us, ts = ⟨.punct .leftParen, pos⟩ :: us ∧ Parses (call nested e) setting us b rest) ∨
      ∃ isArrow pos us name, ts = ⟨.punct (fieldPunct isArrow), pos⟩ :: us ∧ Parses ident setting us name rest ∧
        b = .field e.pos e name isArrow := by
  unfold chainLink
  simp only [parses_bind, parses_peek]
  constructor
  · rintro ⟨_, _, ⟨rfl, rfl⟩, h⟩
    obtain _ | ⟨⟨lexeme, pos⟩, us⟩ := ts
    · simp at h
    · simp only [ahead_cons] at h
      split at h
      · rename_i same
        cases same
        simp only [parses_bind, parses_skip, parses_pure, Option.some.injEq, List.tail_cons] at h
        obtain ⟨_, _, rfl, result, _, read, rfl, rfl⟩ := h
        exact .inl ⟨pos, _, rfl, read⟩
      · rename_i same
        cases same
        simp only [parses_bind, parses_skip, parses_pure, Option.some.injEq, List.tail_cons] at h
        obtain ⟨_, _, rfl, name, _, read, rfl, rfl⟩ := h
        exact .inr ⟨false, pos, _, name, rfl, read, rfl⟩
      · rename_i same
        cases same
        simp only [parses_bind, parses_skip, parses_pure, Option.some.injEq, List.tail_cons] at h
        obtain ⟨_, _, rfl, name, _, read, rfl, rfl⟩ := h
        exact .inr ⟨true, pos, _, name, rfl, read, rfl⟩
      · simp at h
  · rintro (⟨pos, us, rfl, read⟩ | ⟨isArrow, pos, us, name, rfl, read, rfl⟩)
    · refine ⟨_, _, ⟨rfl, rfl⟩, ?_⟩
      simp only [ahead_cons, parses_bind, parses_skip, parses_pure, List.tail_cons]
      exact ⟨(), us, rfl, b, rest, read, rfl, rfl⟩
    · refine ⟨_, _, ⟨rfl, rfl⟩, ?_⟩
      cases isArrow
      all_goals
        simp only [fieldPunct, Bool.false_eq_true, if_true, if_false, ahead_cons, parses_bind, parses_skip,
          parses_pure, List.tail_cons]
        exact ⟨(), us, rfl, name, rest, read, rfl, rfl⟩

def linksOn : Option Lexeme → Bool
  | some (.punct .leftParen) | some (.punct .dot) | some (.punct .arrow) => true
  | _ => false

theorem parses_chainLink_none :
    Parses (chainLink nested e) setting ts none rest ↔ ts = rest ∧ linksOn (ahead ts none) = false := by
  unfold chainLink linksOn
  simp only [parses_bind, parses_peek]
  constructor
  · rintro ⟨_, _, ⟨rfl, rfl⟩, h⟩
    split at h
    all_goals simp_all
  · rintro ⟨rfl, stop⟩
    refine ⟨_, _, ⟨rfl, rfl⟩, ?_⟩
    split at stop
    all_goals simp_all

theorem postfixOp?_eq_some {l : Lexeme} {op : UnaryOp} :
    postfixOp? l = some op ↔ op.isStep = true ∧ l = .punct op.punct := by
  constructor
  · intro h
    unfold postfixOp? at h
    split at h <;> cases h <;> exact ⟨rfl, rfl⟩
  · rintro ⟨isStep, rfl⟩
    cases op <;> first | rfl | cases isStep

theorem parses_chain : Parses (chain nested e) setting ts b rest ↔
    ∃ linked mid, Parses (repeated (chainLink nested) e) setting ts linked mid ∧
      ((∃ op pos, op.isStep = true ∧ mid = ⟨.punct op.punct, pos⟩ :: rest ∧
          b = .unary linked.pos op .after linked) ∨
        (mid = rest ∧ (ahead mid none).bind postfixOp? = none ∧ b = linked)) := by
  unfold chain
  simp only [parses_bind]
  constructor
  · rintro ⟨linked, mid, links, found, mid', next, h⟩
    refine ⟨linked, mid, links, ?_⟩
    cases found with
    | some op =>
      obtain ⟨⟨lexeme, pos⟩, rfl, means⟩ := parses_acceptAs_some.mp next
      obtain ⟨isStep, same⟩ := postfixOp?_eq_some.mp means
      cases same
      simp only [parses_pure] at h
      obtain ⟨rfl, rfl⟩ := h
      exact .inl ⟨op, pos, isStep, rfl, rfl⟩
    | none =>
      obtain ⟨rfl, none⟩ := parses_acceptAs_none.mp next
      simp only [parses_pure] at h
      obtain ⟨rfl, rfl⟩ := h
      exact .inr ⟨rfl, none, rfl⟩
  · rintro ⟨linked, mid, links, ⟨op, pos, isStep, rfl, rfl⟩ | ⟨rfl, none, rfl⟩⟩
    · exact ⟨linked, _, links, some op, rest,
        parses_acceptAs_some.mpr ⟨_, rfl, postfixOp?_eq_some.mpr ⟨isStep, rfl⟩⟩, by simp⟩
    · exact ⟨b, mid, links, Option.none, mid, parses_acceptAs_none.mpr ⟨rfl, none⟩, by simp⟩

theorem parses_asmOperand {o : AsmOperand} : Parses (asmOperand nested) setting ts o rest ↔
    ∃ label constraintPos openPos closePos constraint us e,
      Parses asmName setting ts label (⟨.string constraint, constraintPos⟩ :: ⟨.punct .leftParen, openPos⟩ :: us) ∧
      Parses nested.expression setting us e (⟨.punct .rightParen, closePos⟩ :: rest) ∧
      o = .mk (placeOf setting ts) label constraint e := by
  unfold asmOperand
  simp only [parses_bind, parses_place, parses_expectAs, parses_expect, parses_pure]
  constructor
  · rintro ⟨_, _, ⟨rfl, rfl⟩, label, _, named, constraint, _, ⟨⟨lexeme, constraintPos⟩, rfl, isString⟩, _, us,
      ⟨openPos, rfl⟩, e, _, read, _, _, ⟨closePos, rfl⟩, rfl, rfl⟩
    cases stringText?_eq_some isString
    exact ⟨label, constraintPos, openPos, closePos, constraint, us, e, named, read, rfl⟩
  · rintro ⟨label, constraintPos, openPos, closePos, constraint, us, e, named, read, rfl⟩
    exact ⟨_, _, ⟨rfl, rfl⟩, label, _, named, constraint, _, ⟨_, rfl, rfl⟩, (), us, ⟨openPos, rfl⟩, e, _,
      read, (), rest, ⟨closePos, rfl⟩, rfl, rfl⟩

def commaRound {α : Type} (p : Parser α) (read : List α) : Parser (Option (List α)) := do
  if ← accept (.punct .comma) then
    let a ← p
    pure (some (read ++ [a]))
  else pure none

theorem parses_commaRound_some {α : Type} {p : Parser α} {read next : List α} :
    Parses (commaRound p read) setting ts (some next) rest ↔
      ∃ pos us a, ts = ⟨.punct .comma, pos⟩ :: us ∧ Parses p setting us a rest ∧ next = read ++ [a] := by
  simp only [commaRound, parses_bind]
  constructor
  · rintro ⟨found, mid, comma, h⟩
    cases found with
    | false => simp at h
    | true =>
      obtain ⟨pos, rfl⟩ := parses_accept_true.mp comma
      simp only [if_true, parses_bind, parses_pure, Option.some.injEq] at h
      obtain ⟨a, _, first, rfl, rfl⟩ := h
      exact ⟨pos, mid, a, rfl, first, rfl⟩
  · rintro ⟨pos, us, a, rfl, first, rfl⟩
    refine ⟨true, us, parses_accept_true.mpr ⟨pos, rfl⟩, ?_⟩
    simp only [if_true, parses_bind, parses_pure]
    exact ⟨a, rest, first, rfl, rfl⟩

theorem parses_commaRound_none {α : Type} {p : Parser α} {read : List α} :
    Parses (commaRound p read) setting ts none rest ↔ ts = rest ∧ ahead ts none ≠ some (.punct .comma) := by
  simp only [commaRound, parses_bind]
  constructor
  · rintro ⟨found, mid, comma, h⟩
    cases found with
    | true => simp at h
    | false =>
      simp only [Bool.false_eq_true, if_false, parses_pure, true_and] at h
      subst h
      exact parses_accept_false.mp comma
  · rintro ⟨rfl, noComma⟩
    exact ⟨false, ts, parses_accept_false.mpr ⟨rfl, noComma⟩, by simp⟩

def opensOperand : Option Lexeme → Bool
  | some (.string _) | some (.punct .leftBracket) => true
  | _ => false

theorem parses_asmOperands {os : List AsmOperand} : Parses (asmOperands nested) setting ts os rest ↔
    (opensOperand (ahead ts none) = true ∧ ∃ first mid, Parses (asmOperand nested) setting ts first mid ∧
        Parses (repeated (commaRound (asmOperand nested)) [first]) setting mid os rest) ∨
      (opensOperand (ahead ts none) = false ∧ os = [] ∧ ts = rest) := by
  rw [asmOperands, parses_peek_bind]
  split
  case h_1 opened | h_2 opened =>
    rw [opened, parses_bind]
    constructor
    · exact fun read => .inl ⟨rfl, read⟩
    · rintro (⟨_, read⟩ | ⟨closed, _⟩)
      · exact read
      · cases closed
  case h_3 noString noBracket =>
    have closed : opensOperand (ahead ts none) = false := by
      unfold opensOperand
      split
      · exact absurd ‹_› (noString _)
      · exact absurd ‹_› noBracket
      · rfl
    rw [closed, parses_pure]
    constructor
    · rintro ⟨rfl, rfl⟩
      exact .inr ⟨rfl, rfl, rfl⟩
    · rintro (⟨opened, _⟩ | ⟨_, rfl, rfl⟩)
      · cases opened
      · exact ⟨rfl, rfl⟩

theorem parses_asmSections {parts : List AsmOperand × List AsmOperand × List String} :
    Parses (asmSections nested) setting ts parts rest ↔
      (ts = rest ∧ ahead ts none ≠ some (.punct .colon) ∧ parts = ([], [], [])) ∨
      ∃ pos us outs mid, ts = ⟨.punct .colon, pos⟩ :: us ∧ Parses (asmOperands nested) setting us outs mid ∧
        ((mid = rest ∧ ahead mid none ≠ some (.punct .colon) ∧ parts = (outs, [], [])) ∨
        ∃ pos us ins last, mid = ⟨.punct .colon, pos⟩ :: us ∧ Parses (asmOperands nested) setting us ins last ∧
          ((last = rest ∧ ahead last none ≠ some (.punct .colon) ∧ parts = (outs, ins, [])) ∨
          ∃ pos us texts, last = ⟨.punct .colon, pos⟩ :: us ∧ Parses clobbers setting us texts rest ∧
            parts = (outs, ins, texts))) := by
  unfold asmSections
  simp only [parses_bind]
  -- three colons in turn, and where one is missing the sections end
  constructor
  · rintro ⟨found, us, colon, h⟩
    rcases parses_accept.mp colon with ⟨rfl, pos, rfl⟩ | ⟨rfl, rfl, none⟩
    · simp only [if_true, parses_bind] at h
      obtain ⟨outs, mid, written, found, vs, colon, h⟩ := h
      refine .inr ⟨pos, us, outs, mid, rfl, written, ?_⟩
      rcases parses_accept.mp colon with ⟨rfl, pos, rfl⟩ | ⟨rfl, rfl, none⟩
      · simp only [if_true, parses_bind] at h
        obtain ⟨ins, last, read, found, ws, colon, h⟩ := h
        refine .inr ⟨pos, vs, ins, last, rfl, read, ?_⟩
        rcases parses_accept.mp colon with ⟨rfl, pos, rfl⟩ | ⟨rfl, rfl, none⟩
        · simp only [if_true, parses_bind, parses_pure] at h
          obtain ⟨texts, _, clobbered, rfl, rfl⟩ := h
          exact .inr ⟨pos, ws, texts, rfl, clobbered, rfl⟩
        · simp only [Bool.false_eq_true, if_false, parses_pure] at h
          exact .inl ⟨h.2, none, h.1.symm⟩
      · simp only [Bool.false_eq_true, if_false, parses_pure] at h
        exact .inl ⟨h.2, none, h.1.symm⟩
    · simp only [Bool.false_eq_true, if_false, parses_pure] at h
      exact .inl ⟨h.2, none, h.1.symm⟩
  · rintro (⟨rfl, none, rfl⟩ | ⟨pos, us, outs, mid, rfl, written, h⟩)
    · exact ⟨false, ts, parses_accept_false.mpr ⟨rfl, none⟩, by simp⟩
    · refine ⟨true, us, parses_accept_true.mpr ⟨pos, rfl⟩, ?_⟩
      simp only [if_true, parses_bind]
      refine ⟨outs, mid, written, ?_⟩
      rcases h with ⟨rfl, none, rfl⟩ | ⟨pos, us, ins, last, rfl, read, h⟩
      · exact ⟨false, mid, parses_accept_false.mpr ⟨rfl, none⟩, by simp⟩
      · refine ⟨true, us, parses_accept_true.mpr ⟨pos, rfl⟩, ?_⟩
        simp only [if_true, parses_bind]
        refine ⟨ins, last, read, ?_⟩
        rcases h with ⟨rfl, none, rfl⟩ | ⟨pos, us, texts, rfl, clobbered, rfl⟩
        · exact ⟨false, last, parses_accept_false.mpr ⟨rfl, none⟩, by simp⟩
        · refine ⟨true, us, parses_accept_true.mpr ⟨pos, rfl⟩, ?_⟩
          simp only [if_true, parses_bind, parses_pure]
          exact ⟨texts, rest, clobbered, rfl, rfl⟩

theorem parses_assembly {start : Pos} : Parses (assembly nested start) setting ts b rest ↔
    ∃ volatile isVolatile openPos firstPos closePos first us lines mid parts,
      Optional (.keyword .volatileKw) volatile isVolatile ∧
      ts = volatile ++ ⟨.punct .leftParen, openPos⟩ :: ⟨.string first, firstPos⟩ :: us ∧
      templateLines setting us = .ok (lines, mid) ∧
      Parses (asmSections nested) setting mid parts (⟨.punct .rightParen, closePos⟩ :: rest) ∧
      b = .assembly start (first :: lines) parts.1 parts.2.1 parts.2.2 isVolatile := by
  unfold assembly
  simp only [parses_bind, parses_expect, parses_expectAs, parses_ofTokens, parses_pure]
  constructor
  · rintro ⟨isVolatile, _, marked, _, _, ⟨openPos, rfl⟩, first, us, ⟨⟨lexeme, firstPos⟩, rfl, isString⟩,
      lines, mid, template, parts, _, behind, _, _, ⟨closePos, rfl⟩, rfl, rfl⟩
    cases stringText?_eq_some isString
    rcases parses_accept.mp marked with ⟨rfl, pos, rfl⟩ | ⟨rfl, rfl, -⟩
    · exact ⟨_, true, openPos, firstPos, closePos, first, us, lines, mid, parts, .present pos, rfl,
        template, behind, rfl⟩
    · exact ⟨_, false, openPos, firstPos, closePos, first, us, lines, mid, parts, .absent, rfl, template,
        behind, rfl⟩
  · rintro ⟨volatile, isVolatile, openPos, firstPos, closePos, first, us, lines, mid, parts, marked, rfl, template,
      behind, rfl⟩
    refine ⟨isVolatile, ⟨.punct .leftParen, openPos⟩ :: ⟨.string first, firstPos⟩ :: us, ?_, (), _,
      ⟨openPos, rfl⟩, first, us, ⟨_, rfl, rfl⟩, lines, mid, template, parts, _, behind, (), rest, ⟨closePos, rfl⟩, rfl, rfl⟩
    cases marked <;> simp

theorem parses_primary_strings (start : Leads Lexeme.startsPiece ts) :
    Parses (primary nested) setting ts b rest ↔ Parses strings setting ts b rest := by
  obtain ⟨⟨lexeme, pos⟩, us, rfl, first⟩ := start
  rw [primary, parses_peek_bind, ahead_cons]
  unfold Lexeme.startsPiece at first
  dsimp only at first ⊢
  split at first
  · rfl
  · rfl
  · cases first

theorem parses_primary_number {text : String} {pos : Pos} {us : List Token} :
    Parses (primary nested) setting (⟨.number text, pos⟩ :: us) b rest ↔
      Parses (number text) setting (⟨.number text, pos⟩ :: us) b rest := by
  rw [primary, parses_peek_bind, ahead_cons]

theorem parses_primary_character {text : String} {pos : Pos} {us : List Token} :
    Parses (primary nested) setting (⟨.character text, pos⟩ :: us) b rest ↔
      us = rest ∧ b = .character pos text := by
  rw [primary, parses_peek_bind, ahead_cons]
  dsimp only
  rw [parses_place_bind, parses_skip_bind, parses_pure]
  constructor
  · rintro ⟨rfl, rfl⟩
    exact ⟨rfl, rfl⟩
  · rintro ⟨rfl, rfl⟩
    exact ⟨rfl, rfl⟩

theorem parses_primary_name {text : String} {pos : Pos} {us : List Token} :
    Parses (primary nested) setting (⟨.name text, pos⟩ :: us) b rest ↔
      ∃ name, Parses ident setting (⟨.name text, pos⟩ :: us) name rest ∧ b = .name pos name := by
  rw [primary, parses_peek_bind, ahead_cons]
  dsimp only
  rw [parses_place_bind]
  simp only [parses_bind, parses_pure]
  constructor
  · rintro ⟨name, _, read, rfl, rfl⟩
    exact ⟨name, read, rfl⟩
  · rintro ⟨name, read, rfl⟩
    exact ⟨name, rest, read, rfl, rfl⟩

theorem parses_primary_parens {pos : Pos} {us : List Token} :
    Parses (primary nested) setting (⟨.punct .leftParen, pos⟩ :: us) b rest ↔
      ∃ closePos, Parses nested.expression setting us b (⟨.punct .rightParen, closePos⟩ :: rest) := by
  rw [primary, parses_peek_bind, ahead_cons]
  dsimp only
  rw [parses_skip_bind, List.tail_cons]
  simp only [parses_bind, parses_expect, parses_pure]
  constructor
  · rintro ⟨e, _, read, _, _, ⟨closePos, rfl⟩, rfl, rfl⟩
    exact ⟨closePos, read⟩
  · rintro ⟨closePos, read⟩
    exact ⟨b, _, read, (), rest, ⟨closePos, rfl⟩, rfl, rfl⟩

def startsPrimary : Lexeme → Bool
  | .name _ | .number _ | .string _ | .character _ | .punct .hash | .punct .leftParen => true
  | _ => false

theorem leads_of_parses_primary (h : Parses (primary nested) setting ts b rest) : Leads startsPrimary ts := by
  rw [primary, parses_peek_bind] at h
  obtain _ | ⟨⟨lexeme, pos⟩, us⟩ := ts
  · exact absurd h parses_mismatch
  · refine leads_cons ?_ us
    rw [ahead_cons] at h
    dsimp only at h ⊢
    split at h
    all_goals first | exact absurd h parses_mismatch | (rename_i same; cases same; rfl)

theorem primary_cases (h : Parses (primary nested) setting ts b rest) :
    (∃ used ident, ts = used ++ rest ∧ Names used ident ∧ b = .name ident.pos ident) ∨
    (∃ pos text suffixes value marks, ts = ⟨.number text, pos⟩ :: suffixes ++ rest ∧
      Number.ofText? text = some value ∧ Suffixes value.marks suffixes marks ∧
      (value.isFloat = true → suffixes = []) ∧ b = .number pos { value with marks }) ∨
    (∃ pos text, ts = ⟨.character text, pos⟩ :: rest ∧ b = .character pos text) ∨
    (∃ used, ts = used ++ rest ∧ Pieces used [b]) ∨
    (∃ used first second more, ts = used ++ rest ∧ Pieces used (first :: second :: more) ∧
      b = .concat first.pos (first :: second :: more)) ∨
    ∃ openPos us closePos, ts = ⟨.punct .leftParen, openPos⟩ :: us ∧
      Parses nested.expression setting us b (⟨.punct .rightParen, closePos⟩ :: rest) := by
  have strings (start : Leads Lexeme.startsPiece ts) : ∃ used, ts = used ++ rest ∧ (Pieces used [b] ∨
      ∃ first second more, b = .concat first.pos (first :: second :: more) ∧
        Pieces used (first :: second :: more)) :=
    parses_strings start ((parses_primary_strings start).mp h)
  obtain ⟨⟨lexeme, pos⟩, us, rfl, start⟩ := leads_of_parses_primary h
  unfold startsPrimary at start
  dsimp only at start
  split at start
  case h_1 text =>
    obtain ⟨ident, named, rfl⟩ := parses_primary_name.mp h
    obtain ⟨used, same, names⟩ := parses_ident named
    have place : ident.pos = pos := by cases names <;> cases same <;> rfl
    exact .inl ⟨used, ident, same, names, by rw [place]⟩
  case h_2 text =>
    obtain ⟨suffixes, value, marks, rfl, rfl, found, pasted, unpasted⟩ :=
      parses_number (parses_primary_number.mp h)
    exact .inr (.inl ⟨pos, text, suffixes, value, marks, rfl, found, pasted, unpasted, rfl⟩)
  case h_3 | h_5 =>
    obtain ⟨used, same, one | ⟨first, second, more, rfl, many⟩⟩ := strings (leads_cons rfl us)
    · exact .inr (.inr (.inr (.inl ⟨used, same, one⟩)))
    · exact .inr (.inr (.inr (.inr (.inl ⟨used, first, second, more, same, many, rfl⟩))))
  case h_4 text =>
    obtain ⟨rfl, rfl⟩ := parses_primary_character.mp h
    exact .inr (.inr (.inl ⟨pos, text, rfl, rfl⟩))
  case h_6 =>
    obtain ⟨closePos, read⟩ := parses_primary_parens.mp h
    exact .inr (.inr (.inr (.inr (.inr ⟨pos, us, closePos, rfl, read⟩))))
  case h_7 => cases start

theorem parses_postfixed : Parses (postfixed nested) setting ts b rest ↔
    ∃ e mid, Parses (primary nested) setting ts e mid ∧
      ((isClosed e = true ∧ b = e ∧ mid = rest) ∨
        (isClosed e = false ∧ opensAssembly e = true ∧ Parses (assembly nested e.pos) setting mid b rest) ∨
        (isClosed e = false ∧ (opensAssembly e = true → Fails (assembly nested e.pos) setting mid) ∧
          Parses (chain nested e) setting mid b rest)) := by
  rw [postfixed, parses_bind]
  refine exists_congr fun e => exists_congr fun mid => and_congr_right fun _ => ?_
  cases closed : isClosed e with
  | true =>
    rw [if_pos rfl, parses_pure]
    constructor
    · rintro ⟨rfl, rfl⟩
      exact .inl ⟨rfl, rfl, rfl⟩
    · rintro (⟨-, rfl, rfl⟩ | ⟨absent, -⟩ | ⟨absent, -⟩)
      · exact ⟨rfl, rfl⟩
      · cases absent
      · cases absent
  | false =>
    rw [if_neg Bool.false_ne_true]
    cases opens : opensAssembly e with
    | false => simp
    | true =>
      rw [if_pos rfl, parses_bind]
      constructor
      · rintro ⟨found, mid', tried, h⟩
        cases found with
        | some result =>
          obtain ⟨rfl, rfl⟩ := parses_pure.mp h
          exact .inr (.inl ⟨rfl, rfl, parses_attempt_some.mp tried⟩)
        | none =>
          obtain ⟨rfl, failed⟩ := parses_attempt_none.mp tried
          exact .inr (.inr ⟨rfl, fun _ => failed, h⟩)
      · rintro (⟨absent, -⟩ | ⟨-, -, read⟩ | ⟨-, failed, read⟩)
        · cases absent
        · exact ⟨some b, rest, parses_attempt_some.mpr read, parses_pure.mpr ⟨rfl, rfl⟩⟩
        · exact ⟨none, mid, parses_attempt_none.mpr ⟨rfl, failed rfl⟩, read⟩

theorem prefixOp?_eq_some {l : Lexeme} {op : UnaryOp} : prefixOp? l = some op ↔ l = .punct op.punct := by
  constructor
  · intro h
    unfold prefixOp? at h
    split at h <;> cases h <;> rfl
  · rintro rfl
    cases op <;> rfl

theorem parses_prefixed_parens {pos : Pos} {us : List Token} :
    Parses (prefixed nested) setting (⟨.punct .leftParen, pos⟩ :: us) b rest ↔
      Parses (cast nested) setting (⟨.punct .leftParen, pos⟩ :: us) b rest ∨
        (Fails (cast nested) setting (⟨.punct .leftParen, pos⟩ :: us) ∧
          Parses (postfixed nested) setting (⟨.punct .leftParen, pos⟩ :: us) b rest) := by
  rw [prefixed, parses_peek_bind, ahead_cons]
  dsimp only
  rw [parses_bind]
  constructor
  · rintro ⟨found, mid, tried, h⟩
    cases found with
    | some e =>
      obtain ⟨rfl, rfl⟩ := parses_pure.mp h
      exact .inl (parses_attempt_some.mp tried)
    | none =>
      obtain ⟨rfl, failed⟩ := parses_attempt_none.mp tried
      exact .inr ⟨failed, h⟩
  · rintro (read | ⟨failed, read⟩)
    · exact ⟨some b, rest, parses_attempt_some.mpr read, parses_pure.mpr ⟨rfl, rfl⟩⟩
    · exact ⟨none, _, parses_attempt_none.mpr ⟨rfl, failed⟩, read⟩

theorem parses_prefixed_ampersand {pos : Pos} {us : List Token} :
    Parses (prefixed nested) setting (⟨.punct .ampersand, pos⟩ :: us) b rest ↔
      ∃ e, Parses nested.operand setting us e rest ∧ b = .addressOf pos e := by
  rw [prefixed, parses_peek_bind, ahead_cons]
  dsimp only
  rw [parses_place_bind, parses_skip_bind, List.tail_cons]
  simp only [parses_bind, parses_pure]
  constructor
  · rintro ⟨e, _, read, rfl, rfl⟩
    exact ⟨e, read, rfl⟩
  · rintro ⟨e, read, rfl⟩
    exact ⟨e, rest, read, rfl, rfl⟩

theorem parses_prefixed_operator {op : UnaryOp} {pos : Pos} {us : List Token} :
    Parses (prefixed nested) setting (⟨.punct op.punct, pos⟩ :: us) b rest ↔
      ∃ e, Parses nested.operand setting us e rest ∧ b = .unary pos op .before e := by
  have reduce : Parses (prefixed nested) setting (⟨.punct op.punct, pos⟩ :: us) b rest ↔
      Parses (place >>= fun pos => skip >>= fun _ => nested.operand >>= fun operand =>
        pure (.unary pos op .before operand)) setting (⟨.punct op.punct, pos⟩ :: us) b rest := by
    rw [prefixed, parses_peek_bind, ahead_cons]
    cases op <;> rfl
  rw [reduce]
  rw [parses_place_bind, parses_skip_bind, List.tail_cons]
  simp only [parses_bind, parses_pure]
  constructor
  · rintro ⟨e, _, read, rfl, rfl⟩
    exact ⟨e, read, rfl⟩
  · rintro ⟨e, read, rfl⟩
    exact ⟨e, rest, read, rfl, rfl⟩

theorem parses_prefixed_primary (noOperator : (ahead ts none).bind prefixOp? = none)
    (noAmpersand : ahead ts none ≠ some (.punct .ampersand))
    (noParens : ahead ts none ≠ some (.punct .leftParen)) :
    Parses (prefixed nested) setting ts b rest ↔ Parses (postfixed nested) setting ts b rest := by
  rw [prefixed, parses_peek_bind]
  split
  · exact absurd ‹_› noParens
  · exact absurd ‹_› noAmpersand
  · rw [noOperator]

theorem fails_cast_of_ahead (h : ahead ts none ≠ some (.punct .leftParen)) : Fails (cast nested) setting ts := by
  refine fails_of_not_parses fun b rest parsed => ?_
  obtain ⟨_, _, _, _, _, _, rfl, -⟩ := parses_cast.mp parsed
  exact h rfl

theorem exists_of_ahead {l : Lexeme} (h : ahead ts none = some l) : ∃ pos us, ts = ⟨l, pos⟩ :: us := by
  cases ts with
  | nil => cases h
  | cons t us =>
    cases h
    exact ⟨t.pos, us, rfl⟩

theorem prefixed_cases (h : Parses (prefixed nested) setting ts b rest) :
    Parses (cast nested) setting ts b rest ∨
    (Fails (cast nested) setting ts ∧ Parses (postfixed nested) setting ts b rest) ∨
    (∃ pos us e, ts = ⟨.punct .ampersand, pos⟩ :: us ∧ Parses nested.operand setting us e rest ∧
      b = .addressOf pos e) ∨
    ∃ op pos us e, ts = ⟨.punct op.punct, pos⟩ :: us ∧ Parses nested.operand setting us e rest ∧
      b = .unary pos op .before e := by
  by_cases parens : ahead ts none = some (.punct .leftParen)
  · obtain ⟨pos, us, rfl⟩ := exists_of_ahead parens
    exact (parses_prefixed_parens.mp h).imp_right .inl
  by_cases ampersand : ahead ts none = some (.punct .ampersand)
  · obtain ⟨pos, us, rfl⟩ := exists_of_ahead ampersand
    obtain ⟨e, read, rfl⟩ := parses_prefixed_ampersand.mp h
    exact .inr (.inr (.inl ⟨pos, us, e, rfl, read, rfl⟩))
  cases operator : (ahead ts none).bind prefixOp? with
  | some op =>
    obtain ⟨l, first, means⟩ := Option.bind_eq_some_iff.mp operator
    cases prefixOp?_eq_some.mp means
    obtain ⟨pos, us, rfl⟩ := exists_of_ahead first
    obtain ⟨e, read, rfl⟩ := parses_prefixed_operator.mp h
    exact .inr (.inr (.inr ⟨op, pos, us, e, rfl, read, rfl⟩))
  | none =>
    exact .inr (.inl ⟨fails_cast_of_ahead parens, (parses_prefixed_primary operator ampersand parens).mp h⟩)

end MacroLift.Parser
