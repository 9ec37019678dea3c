import MacroLift.Proofs.Grammar.Layout
import MacroLift.Proofs.Grammar.Printer

namespace MacroLift

open MacroLift.Parser

variable {spelling : Number → String} {parameters : List String} {ts us : List Token} {next : Option Lexeme}

def laid (text : List Lexeme) : List Token :=
  text.map fun l => ⟨l, nowhere⟩

@[simp] theorem laid_nil : laid [] = [] := rfl

@[simp] theorem laid_cons (l : Lexeme) (text : List Lexeme) : laid (l :: text) = ⟨l, nowhere⟩ :: laid text := rfl

@[simp] theorem laid_append (text more : List Lexeme) : laid (text ++ more) = laid text ++ laid more :=
  List.map_append

@[simp] theorem Ident.pos_unplaced (ident : Ident) : ident.unplaced.pos = nowhere := by
  cases ident <;> rfl

@[simp] theorem Expr.pos_unplaced (e : Expr) : e.unplaced.pos = nowhere := by
  cases e <;> rfl

theorem pastedNames_laid (fragments : List String) :
    PastedNames (laid (fragments.flatMap fun fragment => [.punct .paste, .name fragment])) fragments := by
  induction fragments with
  | nil => exact .nil
  | cons fragment fragments ih => exact .cons nowhere nowhere fragment ih

theorem Ident.names_print {ident : Ident} (printable : ident.IsPrintable) :
    Names (laid ident.print) ident.unplaced := by
  match ident, printable with
  | .simple _ name, _ => exact .simple nowhere name
  | .pasted _ (first :: second :: more), _ =>
    exact .pasted nowhere first (pastedNames_laid (second :: more)) (List.cons_ne_nil _ _)

theorem startsAt_laid {text : List Lexeme} (some : laid text ≠ []) : StartsAt (laid text) nowhere := by
  cases text with
  | nil => exact absurd rfl some
  | cons => rfl

theorem Levels.pointer {type result : CType} (h : Levels type ts result) (pos : Pos) (consts : List Token)
    (const : AllConst consts) :
    Levels type (ts ++ ⟨.punct .star, pos⟩ :: consts) (.pointer pos result consts.isEmpty) := by
  induction h with
  | none type =>
    have one : Levels type (⟨.punct .star, pos⟩ :: consts ++ []) _ := .star pos const (.none _)
    rwa [List.append_nil] at one
  | star pos' const' _ ih =>
    rw [List.append_assoc]
    exact .star pos' const' ih

theorem TypeName.pointer {type : CType} (h : TypeName ts type) (pos : Pos) (consts : List Token)
    (const : AllConst consts) :
    TypeName (ts ++ ⟨.punct .star, pos⟩ :: consts) (.pointer pos type consts.isEmpty) := by
  cases h with
  | intro start constBefore struct names constBehind pointers =>
    rw [List.append_assoc]
    exact .intro start constBefore struct names constBehind (pointers.pointer pos consts const)

theorem CType.typeName_print {type : CType} (printable : type.IsPrintable) :
    TypeName (laid type.print) type.unplaced := by
  induction type with
  | named pos name isStruct =>
    have names := Ident.names_print printable
    have noConst : AllConst [] := List.forall_mem_nil _
    have word : Optional (.keyword .structKw) (laid (if isStruct then [.keyword .structKw] else [])) isStruct := by
      cases isStruct
      · exact .absent
      · exact .present nowhere
    have start : StartsAt ([] ++ laid (if isStruct then [.keyword .structKw] else []) ++ laid name.print)
      nowhere := by
      rw [List.nil_append, ← laid_append]
      refine startsAt_laid ?_
      rw [laid_append]
      exact fun none => names.leads.ne_nil (List.append_eq_nil_iff.mp none).2
    have typed := TypeName.intro start noConst word names noConst (.none _)
    simpa [CType.print, CType.unplaced] using typed
  | pointer pos pointee isMutable ih =>
    have inner := ih printable
    cases isMutable with
    | true => simpa [CType.print, CType.unplaced] using inner.pointer nowhere [] (List.forall_mem_nil _)
    | false =>
      have const : AllConst [⟨.keyword .constKw, nowhere⟩] := List.forall_mem_singleton.mpr rfl
      simpa [CType.print, CType.unplaced] using inner.pointer nowhere _ const

theorem pieces_laid {parts : List Expr} (pieces : ∀ part ∈ parts, part.isPiece = true) :
    Pieces (laid (printPieces spelling parts)) (unplacedExprs parts) := by
  induction parts with
  | nil => exact .nil
  | cons part parts ih =>
    obtain ⟨first, more⟩ := List.forall_mem_cons.mp pieces
    match part, first with
    | .string _ text, _ => exact .text nowhere text (ih more)
    | .stringify _ (.simple _ name), _ => exact .mark nowhere nowhere name (ih more)

theorem template_laid (lines : List String) : Template (laid (lines.map .string)) lines := by
  induction lines with
  | nil => exact .nil
  | cons line lines ih => exact .adjacent nowhere line ih

theorem moreClobbers_laid (texts : List String) : MoreClobbers (laid (printMoreTexts texts)) texts := by
  induction texts with
  | nil => exact .nil
  | cons text texts ih => exact .cons nowhere nowhere text ih

theorem clobbers_laid (texts : List String) : Clobbers (laid (printTexts texts)) texts := by
  cases texts with
  | nil => exact .none
  | cons text texts => exact .some nowhere text (moreClobbers_laid texts)

theorem operandName_laid (label : Option String) : OperandName (laid (printLabel label)) label := by
  cases label with
  | none => exact .none
  | some name => exact .bracketed nowhere nowhere nowhere name

theorem Expr.rank_bounds (e : Expr) : 0 < e.rank ∧ e.rank ≤ 10 := by
  unfold Expr.rank
  split
  case h_3 op _ _ =>
    have bounds := op.rank_bounds
    omega
  all_goals omega

@[simp] theorem Expr.rank_unplaced (e : Expr) : e.unplaced.rank = e.rank := by
  cases e with
  | unary _ _ side => cases side <;> rfl
  | _ => rfl

theorem notClosed_of_rank {e : Expr} (low : e.rank < 10) : isClosed e = false := by
  unfold isClosed
  split
  all_goals first | rfl | exact absurd low (Nat.lt_irrefl 10)

/-- The text of an expression reads as the expression wherever its rank allows. -/
structure ReadsPrinted (parameters : List String) (spelling : Number → String) (e : Expr) : Prop where
  ranked : ∀ rank next, 0 < rank → rank ≤ e.rank → rank ≤ 9 → followsOperand next = true →
    Reads parameters (.expr rank) (laid (e.print spelling)) e.unplaced next
  chain : e.rank = 10 → isClosed e = false → ∀ next, Reads parameters .chain (laid (e.print spelling)) e.unplaced next
  bare : e.rank = 10 → isClosed e = false → ∀ ident, ¬ InParens (laid (e.print spelling)) ident

variable {e : Expr} {rank : Nat}

theorem ReadsPrinted.of_rank (low : e.rank ≤ 9)
    (h : ∀ next, followsOperand next = true →
      Reads parameters (.expr e.rank) (laid (e.print spelling)) e.unplaced next) :
    ReadsPrinted parameters spelling e where
  ranked _ next some le _ follow := (h next follow).loosen some le low
  chain whole := absurd low (by omega)
  bare whole := absurd low (by omega)

theorem ReadsPrinted.of_closed (whole : isClosed e = true)
    (h : ∀ next, Reads parameters (.expr 10) (laid (e.print spelling)) e.unplaced next) :
    ReadsPrinted parameters spelling e where
  ranked _ next some _ high follow :=
    (Reads.closed (h next) ((isClosed_unplaced e).trans whole) follow).loosen some high (Nat.le_refl 9)
  chain _ notWhole := absurd (whole.symm.trans notWhole) nofun
  bare _ notWhole := absurd (whole.symm.trans notWhole) nofun

theorem ReadsPrinted.of_chain (bare : ∀ ident, ¬ InParens (laid (e.print spelling)) ident)
    (h : ∀ next, Reads parameters .chain (laid (e.print spelling)) e.unplaced next) :
    ReadsPrinted parameters spelling e where
  ranked _ next some _ high follow := by
    have noCast : ¬ MayCast parameters (laid (e.print spelling)) next :=
      fun ⟨ident, parens, _⟩ => bare ident parens
    exact (Reads.chained (h next) follow noCast).loosen some high (Nat.le_refl 9)
  chain _ _ := h
  bare _ _ := bare

theorem ReadsPrinted.notInParens (h : ReadsPrinted parameters spelling e) (low : e.rank < 10) (ident : Ident)
    (openPos closePos : Pos) :
    ¬ InParens (⟨.punct .leftParen, openPos⟩ :: laid (e.print spelling) ++ [⟨.punct .rightParen, closePos⟩])
      ident := by
  rintro ⟨_, name, _, same, names⟩
  have inner := h.ranked 1 (some (.punct .rightParen)) (by omega) e.rank_bounds.1 (by omega) rfl
  have text : laid (e.print spelling) = name := by
    obtain ⟨-, behind⟩ := List.cons.inj same
    exact (List.append_inj' behind rfl).1
  rw [text] at inner
  have named := inner.derives.namesItself ident names
  have rank := e.rank_unplaced
  rw [named] at rank
  rw [← rank] at low
  exact Nat.lt_irrefl 10 low

theorem laid_enclosed (text : List Lexeme) :
    laid (enclosedIf true text) = ⟨.punct .leftParen, nowhere⟩ :: laid text ++
    [⟨.punct .rightParen, nowhere⟩] := by
  simp [enclosedIf]

theorem ReadsPrinted.parens (h : ReadsPrinted parameters spelling e) (low : e.rank < 10) (next : Option Lexeme) :
    Reads parameters .chain (laid (enclosedIf true (e.print spelling))) e.unplaced next := by
  have inner := h.ranked 1 (some (.punct .rightParen)) (by omega) e.rank_bounds.1 (by omega) rfl
  rw [laid_enclosed]
  exact .base (.parens nowhere nowhere inner) ((isClosed_unplaced e).trans (notClosed_of_rank low))

theorem ReadsPrinted.enclosed (h : ReadsPrinted parameters spelling e) {needed : Bool}
    (low : needed = true → e.rank < 10) (high : needed = false → rank ≤ e.rank) (some : 0 < rank) (le : rank ≤ 9)
    (follow : followsOperand next = true) :
    Reads parameters (.expr rank) (laid (enclosedIf needed (e.print spelling))) e.unplaced next := by
  cases needed with
  | false => exact h.ranked rank next some (high rfl) le follow
  | true =>
    have noCast : ¬ MayCast parameters (laid (enclosedIf true (e.print spelling))) next := by
      rintro ⟨ident, parens, -⟩
      rw [laid_enclosed] at parens
      exact h.notInParens (low rfl) ident nowhere nowhere parens
    exact (Reads.chained (h.parens (low rfl) next) follow noCast).loosen some le (Nat.le_refl 9)

theorem ReadsPrinted.above (h : ReadsPrinted parameters spelling e) (some : 0 < rank) (le : rank ≤ 9)
    (follow : followsOperand next = true) :
    Reads parameters (.expr rank)
    (laid (enclosedIf (decide (e.rank < rank)) (e.print spelling))) e.unplaced next :=
  h.enclosed (fun low => Nat.lt_of_lt_of_le (of_decide_eq_true low) (by omega))
    (fun high => Nat.le_of_not_lt (of_decide_eq_false high)) some le follow

theorem ReadsPrinted.linked (h : ReadsPrinted parameters spelling e) (notClosed : isClosed e = false)
    (next : Option Lexeme) :
    Reads parameters .chain (laid (enclosedIf (decide (e.rank < 10)) (e.print spelling))) e.unplaced next ∧
      ∀ ident, ¬ InParens (laid (enclosedIf (decide (e.rank < 10)) (e.print spelling))) ident := by
  by_cases low : e.rank < 10
  · rw [decide_eq_true low]
    refine ⟨h.parens low next, fun ident parens => ?_⟩
    rw [laid_enclosed] at parens
    exact h.notInParens low ident nowhere nowhere parens
  · have whole : e.rank = 10 := by
      have bounds := e.rank_bounds
      omega
    rw [decide_eq_false low]
    exact ⟨h.chain whole notClosed next, h.bare whole notClosed⟩

end MacroLift
