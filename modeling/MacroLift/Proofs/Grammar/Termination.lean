import MacroLift.Proofs.Grammar.Advance.Production
import MacroLift.Proofs.Grammar.SignatureText

namespace MacroLift

open MacroLift.Parser

namespace Nested

def unbounded : Nested where
  statement setting ts := (forTokens ts.length).statement setting ts
  expression setting ts := (forTokens ts.length).expression setting ts
  conditional setting ts := (forTokens ts.length).conditional setting ts
  operand setting ts := (forTokens ts.length).operand setting ts

structure SameOn (setting : Setting) (ts : List Token) (g h : Nested) : Prop where
  statement : g.statement setting ts = h.statement setting ts
  expression : g.expression setting ts = h.expression setting ts
  conditional : g.conditional setting ts = h.conditional setting ts
  operand : g.operand setting ts = h.operand setting ts

theorem SameOn.symm {setting : Setting} {ts : List Token} {g h : Nested} (same : SameOn setting ts g h) :
    SameOn setting ts h g :=
  ⟨same.statement.symm, same.expression.symm, same.conditional.symm, same.operand.symm⟩

theorem SameOn.trans {setting : Setting} {ts : List Token} {f g h : Nested} (first : SameOn setting ts f g)
    (second : SameOn setting ts g h) : SameOn setting ts f h :=
  ⟨first.statement.trans second.statement, first.expression.trans second.expression,
    first.conditional.trans second.conditional, first.operand.trans second.operand⟩

theorem eq_of_sameOn {g h : Nested} (same : ∀ setting ts, SameOn setting ts g h) : g = h := by
  obtain ⟨statement, expression, conditional, operand⟩ := g
  obtain ⟨statement', expression', conditional', operand'⟩ := h
  rw [mk.injEq]
  refine ⟨?_, ?_, ?_, ?_⟩ <;> (funext setting ts)
  · exact (same setting ts).statement
  · exact (same setting ts).expression
  · exact (same setting ts).conditional
  · exact (same setting ts).operand

end Nested

namespace Parser

open Nested

variable {α : Type} {setting : Setting} {ts rest : List Token} {size : Nat} {g h : Nested}

def bodyIn (grammar : Nested) (setting : Setting) (ts : List Token) : Except Failure Body :=
  let pos := placeOf setting ts
  if ts.isEmpty then .ok (.statement pos (.block pos []))
  else
    let asStatement := whole grammar.statement setting ts
    match asStatement.outcome with
    | .ok (value, _) => .ok (.statement pos value)
    | .error first =>
      if first.isUnsupported then .error first
      else
        let asExpression := whole grammar.expression setting ts
        match asExpression.outcome with
        | .ok (value, _) => .ok (.expression pos value)
        | .error second =>
          if second.isUnsupported then .error second
          else .error (bodyFailure first second (furthestMet asStatement.met asExpression.met))

theorem body_eq (setting : Setting) (ts : List Token) : body setting ts = bodyIn unbounded setting ts := rfl

theorem concur_noTokens {cause : Cause} {p : Parser α} (inside : ts.length < 1)
    (same : mismatch cause setting [] = p setting []) : Concur setting ts 1 (mismatch cause) p := by
  obtain rfl := List.length_eq_zero_iff.mp (Nat.lt_one_iff.mp inside)
  exact ⟨same, fun read => absurd read parses_mismatch⟩

theorem concurBelow_nothing (m : Nat) : ConcurBelow setting 1 nothing (forTokens m) where
  statement inside := concur_noTokens inside (by cases m <;> rfl)
  expression inside := concur_noTokens inside (by cases m <;> rfl)
  conditional inside := concur_noTokens inside (by cases m <;> rfl)
  operand inside := concur_noTokens inside (by cases m <;> rfl)

theorem concurBelow_forTokens {n m : Nat} (le : n ≤ m) : ConcurBelow setting (n + 1) (forTokens n) (forTokens m) := by
  induction n generalizing m with
  | zero => exact concurBelow_nothing m
  | succ n ih =>
    cases m with
    | zero => exact absurd le (Nat.not_succ_le_zero n)
    | succ m => exact (ih (Nat.le_of_succ_le_succ le)).level

theorem concurBelow_unbounded (n : Nat) : ConcurBelow setting (n + 1) unbounded (forTokens n) where
  statement {us} inside :=
    have concur := (concurBelow_forTokens (Nat.le_of_lt_succ inside)).statement (Nat.lt_succ_self us.length)
    ⟨concur.same, concur.leaves⟩
  expression {us} inside :=
    have concur := (concurBelow_forTokens (Nat.le_of_lt_succ inside)).expression (Nat.lt_succ_self us.length)
    ⟨concur.same, concur.leaves⟩
  conditional {us} inside :=
    have concur := (concurBelow_forTokens (Nat.le_of_lt_succ inside)).conditional (Nat.lt_succ_self us.length)
    ⟨concur.same, concur.leaves⟩
  operand {us} inside :=
    have concur := (concurBelow_forTokens (Nat.le_of_lt_succ inside)).operand (Nat.lt_succ_self us.length)
    ⟨concur.same, concur.leaves⟩

theorem concurBelow_of_sameOn (same : ∀ us : List Token, us.length < size → SameOn setting us g unbounded) :
    ConcurBelow setting size unbounded g where
  statement {us} inside := ⟨(same us inside).statement.symm,
    ((concurBelow_unbounded us.length).statement (Nat.lt_succ_self us.length)).leaves⟩
  expression {us} inside := ⟨(same us inside).expression.symm,
    ((concurBelow_unbounded us.length).expression (Nat.lt_succ_self us.length)).leaves⟩
  conditional {us} inside := ⟨(same us inside).conditional.symm,
    ((concurBelow_unbounded us.length).conditional (Nat.lt_succ_self us.length)).leaves⟩
  operand {us} inside := ⟨(same us inside).operand.symm,
    ((concurBelow_unbounded us.length).operand (Nat.lt_succ_self us.length)).leaves⟩

theorem ConcurBelow.sameOn (below : ConcurBelow setting size g h) (inside : ts.length < size) :
    SameOn setting ts g h :=
  ⟨(below.statement inside).same, (below.expression inside).same, (below.conditional inside).same,
    (below.operand inside).same⟩

theorem level_unbounded : level unbounded = unbounded := by
  refine eq_of_sameOn fun setting ts => ?_
  have bounded : SameOn setting ts unbounded (forTokens (ts.length + 1)) :=
    (concurBelow_unbounded (ts.length + 1)).sameOn (by omega)
  have unrolled : SameOn setting ts (level unbounded) (forTokens (ts.length + 1)) :=
    (concurBelow_unbounded ts.length).level.sameOn (by omega)
  exact unrolled.trans bounded.symm

theorem level_sameOn (same : ∀ us : List Token, us.length < ts.length → SameOn setting us g unbounded) :
    SameOn setting ts (level g) unbounded := by
  have one : SameOn setting ts (level unbounded) (level g) :=
    (concurBelow_of_sameOn same).level.sameOn (Nat.lt_succ_self ts.length)
  rw [level_unbounded] at one
  exact one.symm

theorem eq_unbounded_of_level (solves : level g = g) : g = unbounded := by
  refine eq_of_sameOn fun setting ts => ?_
  induction size : ts.length using Nat.strong_induction_on generalizing ts with
  | _ n ih =>
    subst size
    have shorter := level_sameOn fun us inside => ih us.length inside us rfl
    rwa [solves] at shorter

def again (loop : α → Parser α) (a : α) : Option α → Parser α
  | some b => loop b
  | none => pure a

def IsLoop (round : α → Parser (Option α)) (loop : α → Parser α) : Prop :=
  ∀ a, loop a = round a >>= again loop a

structure RoundAdvances (round : α → Parser (Option α)) : Prop where
  concur (setting : Setting) (ts : List Token) (a : α) : ConcurRound setting ts (round a) (round a)
  ends (setting : Setting) (a : α) : round a setting [] = ⟨.ok (none, []), none⟩

theorem repeatAtMost_succ (round : α → Parser (Option α)) (n : Nat) (a : α) :
    repeatAtMost round (n + 1) a = round a >>= again (repeatAtMost round n) a := by
  rw [repeatAtMost]
  congr 1

section

variable {round : α → Parser (Option α)} {loop loop' : α → Parser α} (advances : RoundAdvances round)
include advances

theorem RoundAdvances.again_same {a : α}
    (shorter : ∀ b us, us.length < ts.length → loop b setting us = loop' b setting us) :
    (round a >>= again loop a) setting ts = (round a >>= again loop' a) setting ts := by
  refine bind_same fun found rest read => ?_
  cases found with
  | some b => exact shorter b rest ((advances.concur setting ts a).takes read).2
  | none => rfl

theorem RoundAdvances.again_nil (a : α) : (round a >>= again loop a) setting [] = ⟨.ok (a, []), none⟩ := by
  change Parser.bind (round a) (again loop a) setting [] = _
  rw [Parser.bind, advances.ends]
  rfl

theorem RoundAdvances.repeatAtMost_eq {n m : Nat} (fits : ts.length ≤ n) (fits' : ts.length ≤ m) (a : α) :
    repeatAtMost round n a setting ts = repeatAtMost round m a setting ts := by
  induction n generalizing m ts a with
  | zero =>
    obtain rfl := List.length_eq_zero_iff.mp (Nat.le_zero.mp fits)
    cases m with
    | zero => rfl
    | succ m =>
      rw [repeatAtMost_succ, advances.again_nil]
      rfl
  | succ n ih =>
    cases m with
    | zero =>
      obtain rfl := List.length_eq_zero_iff.mp (Nat.le_zero.mp fits')
      rw [repeatAtMost_succ, advances.again_nil]
      rfl
    | succ m =>
      rw [repeatAtMost_succ, repeatAtMost_succ]
      exact advances.again_same fun b us inside => ih (by omega) (by omega) b

theorem RoundAdvances.isLoop_repeated : IsLoop round (repeated round) := by
  intro a
  funext setting ts
  cases ts with
  | nil => exact (advances.again_nil a).symm
  | cons t ts =>
    change repeatAtMost round (ts.length + 1) a setting (t :: ts) = _
    rw [repeatAtMost_succ]
    exact advances.again_same fun b us inside =>
      advances.repeatAtMost_eq (Nat.le_of_lt_succ inside) (Nat.le_refl us.length) b

theorem RoundAdvances.eq_repeated (isLoop : IsLoop round loop) : loop = repeated round := by
  funext a setting ts
  induction size : ts.length using Nat.strong_induction_on generalizing a ts with
  | _ n ih =>
    subst size
    rw [isLoop a, advances.isLoop_repeated a]
    exact advances.again_same fun b us inside => ih us.length inside b us rfl

end

def Advances (p : Parser α) : Prop :=
  ∀ ⦃setting ts a rest⦄, Parses p setting ts a rest → rest <:+ ts ∧ rest.length < ts.length

/-- The productions of names, types, expressions of every rank, and statements. -/
inductive IsProduction (g : Nested) : {α : Type} → Parser α → Prop where
  | ident : IsProduction g ident
  | ctype : IsProduction g ctype
  | atRank (rank : Nat) : IsProduction g (atRank g rank)
  | cast : IsProduction g (cast g)
  | call (callee : Expr) : IsProduction g (call g callee)
  | assembly (pos : Pos) : IsProduction g (assembly g pos)
  | asmOperand : IsProduction g (asmOperand g)
  | statement : IsProduction g (statement g)
  | block : IsProduction g (block g)
  | branch : IsProduction g (branch g)
  | condition : IsProduction g (condition g)
  | choice : IsProduction g (choice g)
  | loop : IsProduction g (loop g)
  | declaration : IsProduction g (declaration g)
  | evaluation : IsProduction g (evaluation g)

/-- The rounds of the loops over statements of a block, arguments of a call, operands of inline assembly, calls and
    fields, and operators of a rank. -/
inductive IsRound (g : Nested) : {α : Type} → (α → Parser (Option α)) → Prop where
  | statement : IsRound g (statementRound g)
  | argument : IsRound g (commaRound g.expression)
  | asmOperand : IsRound g (commaRound (asmOperand g))
  | link : IsRound g (chainLink g)
  | operator (rank : Nat) : IsRound g (roundAt g rank)

theorem concurBelow_unbounded_self (size : Nat) : ConcurBelow setting size unbounded unbounded :=
  concurBelow_of_sameOn fun _ _ => ⟨rfl, rfl, rfl, rfl⟩

theorem IsProduction.advances {p : Parser α} (h : IsProduction unbounded p) : Advances p := by
  have advances (concur : ∀ setting ts, Concur setting ts 1 p p) : Advances p := fun setting ts a rest read =>
    (concur setting ts).leaves read
  refine advances fun setting ts => ?_
  have below : ConcurBelow setting (ts.length + 1) unbounded unbounded := concurBelow_unbounded_self _
  have fits := Nat.le_succ ts.length
  have inside := Nat.lt_succ_self ts.length
  cases h with
  | ident => exact concur_ident
  | ctype => exact concur_ctype
  | atRank rank => exact concur_atRank below rank ts fits
  | cast => exact concur_cast below fits
  | call callee => exact concur_call below callee inside
  | assembly pos => exact concur_assembly below pos fits
  | asmOperand => exact concur_asmOperand below fits
  | statement => exact concur_statement below fits
  | block => exact concur_block below fits
  | branch => exact concur_branch below inside
  | condition => exact concur_condition below fits
  | choice => exact concur_choice below fits
  | loop => exact concur_loop below (Nat.lt_of_le_of_lt ts.tail_suffix.length_le inside)
  | declaration => exact concur_declaration below fits
  | evaluation => exact concur_evaluation below fits

theorem IsRound.advances {round : α → Parser (Option α)} (h : IsRound unbounded round) : RoundAdvances round := by
  refine ⟨fun setting ts a => ?_, fun setting a => ?_⟩
  · have below : ConcurBelow setting (ts.length + 1) unbounded unbounded := concurBelow_unbounded_self _
    cases h with
    | statement => exact concurRound_statement below a (Nat.lt_succ_self ts.length)
    | argument => exact concurRound_comma (fun us inside => below.expression (by omega)) a
    | asmOperand => exact concurRound_comma (fun us inside => concur_asmOperand below (by omega)) a
    | link => exact concurRound_chainLink below a (Nat.le_succ _)
    | operator rank => exact concurRound_roundAt below a (Nat.le_succ _) (concur_atRank below (rank + 1))
  · cases h with
    | operator rank =>
      unfold roundAt
      split <;> rfl
    | _ => rfl

def Collects (read : Setting → List Token → Except Failure (List α × List Token)) : Prop :=
  ∀ ⦃setting ts items rest⦄, read setting ts = .ok (items, rest) →
    rest <:+ ts ∧ rest.length + items.length ≤ ts.length

inductive IsReader : {α : Type} → (Setting → List Token → Except Failure (List α × List Token)) → Prop where
  | strings : IsReader stringPieces
  | template : IsReader templateLines
  | clobbers : IsReader moreClobbers
  | pasted : IsReader fun _ ts => .ok (pastedNames ts)
  | parameters : IsReader parameterNames

theorem length_le_of_pieces {pieces : List Expr} (h : Pieces ts pieces) : pieces.length ≤ ts.length := by
  induction h with
  | nil => exact Nat.le_refl 0
  | text _ _ _ ih | mark _ _ _ _ ih =>
    simp only [List.length_cons]
    omega

theorem length_le_of_template {lines : List String} (h : Template ts lines) : lines.length ≤ ts.length := by
  induction h with
  | nil => exact Nat.le_refl 0
  | adjacent _ _ _ ih | comma _ _ _ _ ih =>
    simp only [List.length_cons]
    omega

theorem length_le_of_moreClobbers {texts : List String} (h : MoreClobbers ts texts) : texts.length ≤ ts.length := by
  induction h with
  | nil => exact Nat.le_refl 0
  | cons _ _ _ _ ih =>
    simp only [List.length_cons]
    omega

theorem length_le_of_pastedNames {fragments : List String} (h : PastedNames ts fragments) :
    fragments.length ≤ ts.length := by
  induction h with
  | nil => exact Nat.le_refl 0
  | cons _ _ _ _ ih =>
    simp only [List.length_cons]
    omega

theorem IsReader.collects {read : Setting → List Token → Except Failure (List α × List Token)} (h : IsReader read) :
    Collects read := by
  intro setting ts items rest found
  cases h with
  | strings =>
    obtain ⟨used, rfl, pieces⟩ := stringPieces_split found
    exact leaves_append (length_le_of_pieces pieces)
  | template =>
    obtain ⟨used, rfl, lines, -⟩ := templateLines_split found
    exact leaves_append (length_le_of_template lines)
  | clobbers =>
    obtain ⟨used, rfl, texts⟩ := moreClobbers_split found
    exact leaves_append (length_le_of_moreClobbers texts)
  | pasted =>
    obtain ⟨used, same, fragments⟩ := pastedNames_split ts
    rw [Except.ok.inj found] at same fragments
    rw [same]
    exact leaves_append (length_le_of_pastedNames fragments)
  | parameters =>
    obtain ⟨used, rfl, list⟩ := parameterNames_split found
    exact leaves_append list.length_le

theorem advances_signature {s : Signature} (read : Parses Parser.signature setting ts s rest) :
    rest = [] ∧ s.parameters.length + 3 ≤ ts.length := by
  obtain ⟨rfl, openPos, closePos, used, rfl, parameters⟩ := parses_signature.mp read
  refine ⟨rfl, ?_⟩
  simp only [List.length_cons, List.length_append, List.length_nil]
  rcases parameters with ⟨-, none⟩ | list
  · rw [none, List.length_nil]
    omega
  · have fits := list.length_le
    omega

/-- Reading ends. What is read of some tokens depends on what is nested in fewer of them only, so the productions have
    one solution, which a body is read by; a production that reads takes a token and leaves the end of the tokens, and
    every round of a loop takes one or is the last. -/
theorem grammar_terminates :
    (level unbounded = unbounded ∧ (∀ g, level g = g → g = unbounded) ∧
      ∀ g setting ts, (∀ us : List Token, us.length < ts.length → SameOn setting us g unbounded) →
        SameOn setting ts (level g) unbounded) ∧
    (∀ setting ts, body setting ts = bodyIn unbounded setting ts) ∧
    (∀ setting ts s rest, Parses Parser.signature setting ts s rest →
      rest = [] ∧ s.parameters.length + 3 ≤ ts.length) ∧
    (∀ (α : Type) (p : Parser α), IsProduction unbounded p → Advances p) ∧
    (∀ (α : Type) (round : α → Parser (Option α)), IsRound unbounded round →
      (∀ loop, IsLoop round loop ↔ loop = repeated round) ∧
        ∀ a setting ts b rest, Parses (round a) setting ts (some b) rest → rest <:+ ts ∧ rest.length < ts.length) ∧
    ∀ (α : Type) (read : Setting → List Token → Except Failure (List α × List Token)), IsReader read →
      Collects read := by
  refine ⟨⟨level_unbounded, fun g => eq_unbounded_of_level, fun g setting ts => level_sameOn⟩, body_eq,
    fun setting ts s rest => advances_signature, fun α p => IsProduction.advances, fun α round isRound => ?_,
    fun α read => IsReader.collects⟩
  have advances := isRound.advances
  refine ⟨fun loop => ⟨advances.eq_repeated, ?_⟩, fun a setting ts b rest => (advances.concur setting ts a).takes⟩
  rintro rfl
  exact advances.isLoop_repeated

theorem grammar_terminates_call :
    let string : List Token := [⟨.string "\"b\"", ⟨1, 3⟩⟩, ⟨.punct .rightParen, ⟨1, 6⟩⟩]
    let call : List Token := ⟨.name "f", ⟨1, 1⟩⟩ :: ⟨.punct .leftParen, ⟨1, 2⟩⟩ :: string
    SameOn ⟨⟨1, 7⟩, []⟩ call (level (forTokens 3)) unbounded ∧
      Parses (atRank unbounded 1) ⟨⟨1, 7⟩, []⟩ call
        (.call ⟨1, 1⟩ (.simple ⟨1, 1⟩ "f") [.string ⟨1, 3⟩ "\"b\""]) [] ∧ ([] : List Token).length < call.length ∧
      Parses (chainLink unbounded (.name ⟨1, 1⟩ (.simple ⟨1, 1⟩ "f"))) ⟨⟨1, 7⟩, []⟩ call.tail
        (some (.call ⟨1, 1⟩ (.simple ⟨1, 1⟩ "f") [.string ⟨1, 3⟩ "\"b\""])) [] ∧
      ([] : List Token).length < call.tail.length ∧
      stringPieces ⟨⟨1, 7⟩, []⟩ string = .ok ([.string ⟨1, 3⟩ "\"b\""], string.tail) ∧
      string.tail.length + 1 ≤ string.length := by
  intro string call
  obtain ⟨⟨-, -, nested⟩, -, -, productions, rounds, readers⟩ := grammar_terminates
  have same : SameOn ⟨⟨1, 7⟩, []⟩ call (level (forTokens 3)) unbounded :=
    nested (forTokens 3) _ call fun us inside => ((concurBelow_unbounded 3).sameOn inside).symm
  have expression : Parses (atRank unbounded 1) ⟨⟨1, 7⟩, []⟩ call
      (.call ⟨1, 1⟩ (.simple ⟨1, 1⟩ "f") [.string ⟨1, 3⟩ "\"b\""]) [] := rfl
  have link : Parses (chainLink unbounded (.name ⟨1, 1⟩ (.simple ⟨1, 1⟩ "f"))) ⟨⟨1, 7⟩, []⟩ call.tail
      (some (.call ⟨1, 1⟩ (.simple ⟨1, 1⟩ "f") [.string ⟨1, 3⟩ "\"b\""])) [] := rfl
  have pieces : stringPieces ⟨⟨1, 7⟩, []⟩ string = .ok ([.string ⟨1, 3⟩ "\"b\""], string.tail) := rfl
  exact ⟨same, expression, (productions _ _ (.atRank 1) expression).2, link, ((rounds _ _ .link).2 _ _ _ _ _ link).2,
    pieces, (readers _ _ .strings pieces).2⟩

end Parser

end MacroLift
