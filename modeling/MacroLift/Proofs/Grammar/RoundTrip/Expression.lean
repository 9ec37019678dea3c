import MacroLift.Proofs.Grammar.RoundTrip.Operand

namespace MacroLift

open MacroLift.Parser

variable {spelling : Number → String} {parameters : List String} {ts us : List Token} {next : Option Lexeme}
  {e : Expr} {rank : Nat}

variable {pos : Pos}

theorem Names.notInParens {ident : Ident} (names : Names ts ident) (us : List Token) (other : Ident) :
    ¬ InParens (ts ++ us) other := by
  rintro ⟨_, _, _, same, -⟩
  obtain ⟨_, _, _, rfl⟩ := names.head
  cases same

theorem readsPrinted_name {ident : Ident} (printable : ident.IsPrintable) :
    ReadsPrinted parameters spelling (.name pos ident) := by
  have names := Ident.names_print printable
  refine .of_chain (fun other => ?_) fun next => ?_
  · have bare := names.notInParens [] other
    rwa [List.append_nil] at bare
  · have inner : Reads parameters (.expr 10) (laid ident.print) (.name _ ident.unplaced) next := .name names
    rw [Ident.pos_unplaced] at inner
    exact .base inner rfl

theorem readsPrinted_number {value : Number} (printable : Number.ofText? (spelling value) = some value) :
    ReadsPrinted parameters spelling (.number pos value) :=
  .of_closed rfl fun _ => .number nowhere (spelling value) printable (.none _) fun _ => rfl

theorem readsPrinted_character (text : String) : ReadsPrinted parameters spelling (.character pos text) :=
  .of_closed rfl fun _ => .character nowhere text

theorem readsPrinted_piece (isPiece : e.isPiece = true) : ReadsPrinted parameters spelling e := by
  have pieces : Pieces (laid (printPieces spelling [e])) (unplacedExprs [e]) :=
    pieces_laid (List.forall_mem_singleton.mpr isPiece)
  have whole : isClosed e = true := by
    unfold Expr.isPiece at isPiece
    split at isPiece <;> first | rfl | cases isPiece
  simp only [printPieces, List.append_nil] at pieces
  exact .of_closed whole fun _ => .piece pieces

theorem readsPrinted_concat {parts : List Expr} (many : 2 ≤ parts.length)
    (pieces : ∀ part ∈ parts, part.isPiece = true) :
    ReadsPrinted parameters spelling (.concat pos parts) := by
  refine .of_closed rfl fun next => ?_
  match parts, many with
  | first :: second :: more, _ =>
    have printed : Pieces (laid (printPieces spelling (first :: second :: more))) _ := pieces_laid pieces
    have reading : Reads parameters (.expr 10) (laid (printPieces spelling (first :: second :: more))) _ next :=
      .pieces printed
    rw [Expr.pos_unplaced] at reading
    exact reading

theorem readsPrinted_call {callee : Ident} {arguments : List Expr} (printable : callee.IsPrintable)
    (noWord : opensAssembly (.name pos callee) = false)
    (inner : Reads parameters .arguments (laid (printExprs spelling arguments)) (unplacedExprs arguments)
      (some (.punct .rightParen))) :
    ReadsPrinted parameters spelling (.call pos callee arguments) := by
  have names := Ident.names_print printable
  have text : laid ((Expr.call pos callee arguments).print spelling) =
      laid callee.print ++ ⟨.punct .leftParen, nowhere⟩ :: laid (printExprs spelling arguments) ++
        [⟨.punct .rightParen, nowhere⟩] := by
    simp [Expr.print]
  have named : Reads parameters (.expr 10) (laid callee.print) (.name _ callee.unplaced)
    (some (.punct .leftParen)) :=
    .name names
  rw [Ident.pos_unplaced] at named
  have noCast : ¬ MayCast parameters (laid callee.print) (some (.punct .leftParen)) := fun ⟨other, parens, _⟩ => by
    have bare := names.notInParens [] other
    rw [List.append_nil] at bare
    exact bare parens
  have noAssembly : opensAssembly (.name nowhere callee.unplaced) ≠ true := by
    have word := opensAssembly_unplaced (.name pos callee)
    rw [noWord] at word
    exact Bool.eq_false_iff.mp word
  refine .of_chain (fun other => ?_) fun next => ?_
  · rw [text, List.append_assoc]
    exact names.notInParens _ other
  · rw [text]
    exact .call nowhere nowhere (.base named rfl) inner (fun cast => absurd cast noCast)
      fun opens => absurd opens noAssembly

theorem readsPrinted_field {name : Ident} (h : ReadsPrinted parameters spelling e) (notClosed : isClosed e = false)
    (printable : name.IsPrintable) (isArrow : Bool) :
    ReadsPrinted parameters spelling (.field pos e name isArrow) := by
  have names := Ident.names_print printable
  have text : laid ((Expr.field pos e name isArrow).print spelling) =
      laid (enclosedIf (decide (e.rank < 10)) (e.print spelling)) ++
        ⟨.punct (if isArrow then .arrow else .dot), nowhere⟩ :: laid name.print :=
    laid_append _ _
  refine .of_chain (fun ident => ?_) fun next => ?_
  · rintro ⟨openPos, inner, closePos, same, names'⟩
    have among : (⟨.punct (if isArrow then .arrow else .dot), nowhere⟩ : Token) ∈
        ⟨.punct .leftParen, openPos⟩ :: inner ++ [⟨.punct .rightParen, closePos⟩] := by
      rw [← same, text]
      simp
    simp only [List.mem_append, List.mem_cons, List.not_mem_nil, or_false, Token.mk.injEq] at among
    rcases among with (⟨mark, -⟩ | inName) | ⟨mark, -⟩
    · cases isArrow <;> cases mark
    · have letter := names'.letters _ inName
      cases isArrow <;> cases letter
    · cases isArrow <;> cases mark
  · have owner := (h.linked notClosed (some (.punct (if isArrow then .arrow else .dot)))).1
    have reading : Reads parameters .chain _ (.field e.unplaced.pos e.unplaced name.unplaced isArrow) next :=
      .field isArrow nowhere owner names
    rw [Expr.pos_unplaced] at reading
    rw [text]
    exact reading

theorem readsPrinted_step {op : UnaryOp} (h : ReadsPrinted parameters spelling e) (isStep : op.isStep = true)
    (notClosed : isClosed e = false) : ReadsPrinted parameters spelling (.unary pos op .after e) := by
  refine .of_rank (Nat.le_refl 9) fun next follow => ?_
  obtain ⟨chain, bare⟩ := h.linked notClosed (some (.punct op.punct))
  have reading : Reads parameters (.expr 9) _ (.unary e.unplaced.pos op .after e.unplaced) next :=
    .step nowhere isStep chain follow fun ⟨ident, parens, _⟩ => absurd parens (bare ident)
  rw [Expr.pos_unplaced] at reading
  have text : laid ((Expr.unary pos op .after e).print spelling) =
      laid (enclosedIf (decide (e.rank < 10)) (e.print spelling)) ++ [⟨.punct op.punct, nowhere⟩] :=
    laid_append _ _
  rw [text]
  exact reading

theorem readsPrinted_before (h : ReadsPrinted parameters spelling e) (op : UnaryOp) :
    ReadsPrinted parameters spelling (.unary pos op .before e) :=
  .of_rank (Nat.le_add_left 8 1) fun _ follow => .before op nowhere (h.above (by omega) (by omega) follow)

theorem readsPrinted_addressOf (h : ReadsPrinted parameters spelling e) :
    ReadsPrinted parameters spelling (.addressOf pos e) :=
  .of_rank (Nat.le_add_left 8 1) fun _ follow => .addressOf nowhere (h.above (by omega) (by omega) follow)

theorem follows_binary (op : BinaryOp) : followsOperand (some (.punct op.punct)) = true := by
  cases op <;> rfl

theorem follows_assign (op : AssignOp) : followsOperand (some (.punct op.punct)) = true := by
  cases op <;> rfl

theorem readsPrinted_binary {left right : Expr} (first : ReadsPrinted parameters spelling left)
    (second : ReadsPrinted parameters spelling right) (op : BinaryOp) :
    ReadsPrinted parameters spelling (.binary pos op left right) := by
  have bounds := op.rank_bounds
  refine .of_rank (show op.rank ≤ 9 by omega) fun next follow => ?_
  have reading : Reads parameters (.expr op.rank) _ (.binary left.unplaced.pos op left.unplaced
    right.unplaced) next :=
    .binary op nowhere (first.above (by omega) (by omega) (follows_binary op))
      (second.above (by omega) (by omega) follow)
  rw [Expr.pos_unplaced] at reading
  have text : laid ((Expr.binary pos op left right).print spelling) =
      laid (enclosedIf (decide (left.rank < op.rank)) (left.print spelling)) ++
        ⟨.punct op.punct, nowhere⟩ :: laid (enclosedIf (decide (right.rank < op.rank + 1)) (right.print spelling)) :=
    laid_append _ _
  rw [text]
  exact reading

theorem readsPrinted_ternary {condition whenTrue whenFalse : Expr}
    (test : ReadsPrinted parameters spelling condition)
    (first : ReadsPrinted parameters spelling whenTrue) (second : ReadsPrinted parameters spelling whenFalse) :
    ReadsPrinted parameters spelling (.ternary pos condition whenTrue whenFalse) := by
  refine .of_rank (Nat.le_add_left 2 7) fun next follow => ?_
  have reading : Reads parameters (.expr 2) _
      (.ternary condition.unplaced.pos condition.unplaced whenTrue.unplaced whenFalse.unplaced) next :=
    .ternary nowhere nowhere (test.above (by omega) (by omega) rfl) (first.above (by omega) (by omega) rfl)
      (second.above (by omega) (by omega) follow)
  rw [Expr.pos_unplaced] at reading
  simpa [Expr.print, Expr.unplaced, Expr.rank] using reading

theorem rank_of_isBinary (h : e.isBinary = true) : e.rank < 10 := by
  unfold Expr.isBinary at h
  split at h
  · rename_i op _ _
    have bounds := op.rank_bounds
    exact Nat.lt_of_le_of_lt bounds.2 (by omega)
  · cases h

theorem readsPrinted_assign {target value : Expr} (first : ReadsPrinted parameters spelling target)
    (second : ReadsPrinted parameters spelling value) (op : AssignOp) :
    ReadsPrinted parameters spelling (.assign pos op target value) := by
  refine .of_rank (Nat.le_add_left 1 8) fun next follow => ?_
  have targeted : Reads parameters (.expr 1) (laid (enclosedIf target.isBinary (target.print spelling))) _ _ :=
    first.enclosed rank_of_isBinary (fun _ => target.rank_bounds.1) (by omega) (by omega) (follows_assign op)
  have reading : Reads parameters (.expr 1) _ (.assign target.unplaced.pos op target.unplaced
    value.unplaced) next :=
    .assign op nowhere targeted (second.above (by omega) (by omega) follow)
  rw [Expr.pos_unplaced] at reading
  have text : laid ((Expr.assign pos op target value).print spelling) =
      laid (enclosedIf target.isBinary (target.print spelling)) ++
        ⟨.punct op.punct, nowhere⟩ :: laid (enclosedIf (decide (value.rank < 2)) (value.print spelling)) :=
    laid_append _ _
  rw [text]
  exact reading

def Lexeme.isPlainStart (l : Lexeme) : Bool :=
  !continuesOperand l

def Phrase.StartsPlain : Phrase → List Token → Prop
  | .expr rank, ts => 9 ≤ rank → Leads Lexeme.isPlainStart ts
  | .chain, ts => Leads Lexeme.isPlainStart ts
  | _, _ => True

theorem Derives.startsPlain {phrase : Phrase} {tree : phrase.Tree} (h : Derives phrase ts tree) :
    phrase.StartsPlain ts := by
  induction h with
  | name names =>
    obtain ⟨_, _, _, rfl⟩ := names.head
    exact fun _ => leads_cons rfl _
  | number => exact fun _ => leads_cons rfl _
  | character => exact fun _ => leads_cons rfl _
  | piece pieces | pieces pieces => cases pieces <;> exact fun _ => leads_cons rfl _
  | parens => exact fun _ => leads_cons rfl _
  | base _ _ ih => exact ih (by omega)
  | call _ _ _ _ ih =>
    simp only [List.append_assoc]
    exact ih.append _
  | field _ _ _ _ ih => exact ih.append _
  | closed _ _ ih => exact fun _ => ih (by omega)
  | chained _ ih => exact fun _ => ih
  | step _ _ _ ih => exact fun _ => ih.append _
  | assembly _ _ _ _ _ _ _ _ _ ih =>
    simp only [List.append_assoc]
    exact fun _ => (ih (by omega)).append _
  | binary op =>
    intro high
    have bounds := op.rank_bounds
    omega
  | _ => first | exact trivial | exact fun high => absurd high (by omega)

theorem ReadsPrinted.startsPlain (h : ReadsPrinted parameters spelling e) (tight : 8 ≤ e.rank)
    (notPrefixed : e.isPrefixed = false) (next : Option Lexeme) :
    (ahead (laid (e.print spelling)) next).any continuesOperand = false := by
  by_cases nine : 9 ≤ e.rank
  · have reading := h.ranked 9 none (by omega) nine (by omega) rfl
    have starts : Leads Lexeme.isPlainStart (laid (e.print spelling)) :=
      reading.derives.startsPlain (Nat.le_refl 9)
    obtain ⟨t, us, same, plain⟩ := starts
    rw [same, ahead_cons, Option.any_some]
    simpa [Lexeme.isPlainStart] using plain
  · have eight : e.rank = 8 := by omega
    cases e with
    | cast => rfl
    | unary _ _ side =>
      cases side with
      | before => cases notPrefixed
      | after => cases eight
    | binary _ op =>
      have bounds := op.rank_bounds
      have same : op.rank = 8 := eight
      omega
    | addressOf => cases notPrefixed
    | _ => cases eight

theorem rank_of_isPrefixed (h : e.isPrefixed = true) : e.rank = 8 := by
  unfold Expr.isPrefixed at h
  split at h
  · rfl
  · rfl
  · cases h

theorem readsPrinted_cast {target : CType} (h : ReadsPrinted parameters spelling e)
    (printable : target.IsPrintable) :
    ReadsPrinted parameters spelling (.cast pos target e) := by
  refine .of_rank (Nat.le_add_left 8 1) fun next follow => ?_
  generalize enclosure : (decide (e.rank < 8) || ((bareName? target).isSome && e.isPrefixed)) = needed
  have low : needed = true → e.rank < 10 := by
    rintro rfl
    simp only [Bool.or_eq_true, Bool.and_eq_true, decide_eq_true_eq] at enclosure
    rcases enclosure with small | ⟨-, isPrefixed⟩
    · omega
    · have eight := rank_of_isPrefixed isPrefixed
      omega
  have high : needed = false → 8 ≤ e.rank := by
    rintro rfl
    simp only [Bool.or_eq_false_iff, decide_eq_false_iff_not] at enclosure
    omega
  -- behind a bare name, what begins with an operator is printed in parentheses
  have noParameter : ¬ ((bareName? target.unplaced).any parameters.contains = true ∧
      (ahead (laid (enclosedIf needed (e.print spelling))) next).any continuesOperand = true) := by
    rintro ⟨isParameter, continues⟩
    rw [bareName?_unplaced] at isParameter
    cases needed with
    | true => cases continues
    | false =>
      have isBare : (bareName? target).isSome = true := by
        cases bare : bareName? target with
        | none =>
          rw [bare] at isParameter
          cases isParameter
        | some => rfl
      rw [isBare, Bool.true_and, Bool.or_eq_false_iff] at enclosure
      have plain := h.startsPlain (high rfl) enclosure.2 next
      rw [enclosedIf, if_neg Bool.false_ne_true, plain] at continues
      cases continues
  have operand : Reads parameters (.expr 8) (laid (enclosedIf needed (e.print spelling))) _ next :=
    h.enclosed low high (by omega) (by omega) follow
  have text : laid ((Expr.cast pos target e).print spelling) = ⟨.punct .leftParen, nowhere⟩ :: laid target.print ++
      ⟨.punct .rightParen, nowhere⟩ :: laid (enclosedIf needed (e.print spelling)) := by
    simp [Expr.print, enclosure]
  rw [text]
  exact .cast nowhere nowhere (CType.typeName_print printable) operand noParameter

theorem printMoreExprs_eq (es : List Expr) :
    printMoreExprs spelling es = es.flatMap fun e => .punct .comma :: e.print spelling := by
  induction es with
  | nil => rfl
  | cons e es ih => simp [printMoreExprs, ih]

theorem printMoreOperands_eq (os : List AsmOperand) :
    printMoreOperands spelling os = os.flatMap fun o => .punct .comma :: o.print spelling := by
  induction os with
  | nil => rfl
  | cons o os ih => simp [printMoreOperands, ih]

theorem unplacedExprs_eq (es : List Expr) : unplacedExprs es = es.map Expr.unplaced := by
  induction es with
  | nil => rfl
  | cons e es ih => simp [unplacedExprs, ih]

theorem unplacedOperands_eq (os : List AsmOperand) : unplacedOperands os = os.map AsmOperand.unplaced := by
  induction os with
  | nil => rfl
  | cons o os ih => simp [unplacedOperands, ih]

theorem reads_row {α β : Type} (Item : List Token → α → Option Lexeme → Prop)
    (Row : List Token → List α → Option Lexeme → Prop) {print : β → List Lexeme} {tree : β → α} {items : List β}
    (grow : ∀ {ts us as a next}, Row ts as (some (.punct .comma)) → as ≠ [] → Item us a next →
      Row (ts ++ ⟨.punct .comma, nowhere⟩ :: us) (as ++ [a]) next)
    (readable : ∀ item ∈ items, ∀ next, followsOperand next = true → Item (laid (print item)) (tree item) next)
    {read : List α} (some : read ≠ []) (front : ∀ next, followsOperand next = true → Row ts read next)
    (follow : followsOperand next = true) :
    Row (ts ++ laid (items.flatMap fun item => .punct .comma :: print item)) (read ++ items.map tree) next := by
  induction items generalizing ts read with
  | nil => simpa using front next follow
  | cons item items ih =>
    obtain ⟨first, more⟩ := List.forall_mem_cons.mp readable
    have longer : read ++ [tree item] ≠ [] := by simp
    have grown := ih more longer fun next follow => grow (front _ rfl) some (first next follow)
    simpa using grown

theorem ReadsPrinted.whole (h : ReadsPrinted parameters spelling e) (follow : followsOperand next = true) :
    Reads parameters (.expr 1) (laid (e.print spelling)) e.unplaced next :=
  h.ranked 1 next (by omega) e.rank_bounds.1 (by omega) follow

theorem reads_exprs {es : List Expr} (readable : ∀ e ∈ es, ReadsPrinted parameters spelling e)
    (follow : followsOperand next = true) :
    Reads parameters .arguments (laid (printExprs spelling es)) (unplacedExprs es) next := by
  cases es with
  | nil => exact .noArguments
  | cons e es =>
    obtain ⟨first, more⟩ := List.forall_mem_cons.mp readable
    have row := reads_row (Reads parameters (.expr 1)) (Reads parameters .arguments) (.moreArguments nowhere)
      (fun e member _ follow => (more e member).whole follow) (List.cons_ne_nil e.unplaced [])
      (fun _ follow => .argument (first.whole follow)) follow
    simpa [printExprs, printMoreExprs_eq, unplacedExprs_eq] using row

theorem reads_operand {constraint : String} {label : Option String} (h : ReadsPrinted parameters spelling e) :
    Reads parameters .operand (laid ((AsmOperand.mk pos label constraint e).print spelling))
      (AsmOperand.mk pos label constraint e).unplaced next := by
  have start : StartsAt (laid (printLabel label) ++ [⟨.string constraint, nowhere⟩]) nowhere := by
    cases label <;> rfl
  have reading : Reads parameters .operand _ (.mk nowhere label constraint e.unplaced) next :=
    .operand nowhere nowhere nowhere constraint start (operandName_laid label) (h.whole rfl)
  simpa [AsmOperand.print, AsmOperand.unplaced] using reading

theorem reads_operands {os : List AsmOperand}
    (readable : ∀ o ∈ os, ∀ next, Reads parameters .operand (laid (o.print spelling)) o.unplaced next)
    (follow : followsOperand next = true) :
    Reads parameters .operands (laid (printOperands spelling os)) (unplacedOperands os) next := by
  cases os with
  | nil => exact .noOperands
  | cons o os =>
    obtain ⟨first, more⟩ := List.forall_mem_cons.mp readable
    have row := reads_row (Reads parameters .operand) (Reads parameters .operands) (.moreOperands nowhere)
      (fun o member next _ => more o member next) (List.cons_ne_nil o.unplaced [])
      (fun next _ => .oneOperand (first next)) follow
    simpa [printOperands, printMoreOperands_eq, unplacedOperands_eq] using row

theorem readsPrinted_assembly {template clobbers : List String} {outputs inputs : List AsmOperand}
    (some : template ≠ [])
    (written : ∀ next, followsOperand next = true →
      Reads parameters .operands (laid (printOperands spelling outputs)) (unplacedOperands outputs) next)
    (read : ∀ next, followsOperand next = true →
      Reads parameters .operands (laid (printOperands spelling inputs)) (unplacedOperands inputs) next)
    (isVolatile : Bool) :
    ReadsPrinted parameters spelling (.assembly pos template outputs inputs clobbers isVolatile) := by
  refine .of_rank (Nat.le_refl 9) fun next follow => ?_
  cases template with
  | nil => exact absurd rfl some
  | cons first lines =>
    have opener (behind : Option Lexeme) : Reads parameters (.expr 10) [⟨.name "__asm", nowhere⟩]
        (.name nowhere (.simple nowhere "__asm")) behind := .name (.simple nowhere "__asm")
    have noCast : ¬ MayCast parameters [⟨.name "__asm", nowhere⟩] (Option.some (.punct .leftParen)) :=
      fun ⟨other, parens, _⟩ => (Names.simple nowhere "__asm").notInParens [] other parens
    have marked : Optional (.keyword .volatileKw) (laid (if isVolatile then [.keyword .volatileKw] else []))
      isVolatile := by
      cases isVolatile
      · exact .absent
      · exact .present nowhere
    have behind : Reads parameters .sections _ (unplacedOperands outputs, unplacedOperands inputs, clobbers)
        (Option.some (.punct .rightParen)) :=
      .clobbers nowhere nowhere nowhere (written _ rfl) (read _ rfl) (clobbers_laid clobbers)
    have reading :=
      Reads.assembly nowhere nowhere nowhere first (opener _) rfl marked (template_laid lines) behind follow
      fun cast => absurd cast noCast
    simpa [Expr.print, Expr.unplaced, Expr.rank] using reading

mutual

theorem readsPrinted : (e : Expr) → e.IsPrintable spelling → ReadsPrinted parameters spelling e
  | .name _ _, printable => readsPrinted_name printable
  | .call _ _ arguments, ⟨callee, noWord, inner⟩ =>
    readsPrinted_call callee noWord (reads_exprs (arePrinted arguments inner) rfl)
  | .cast _ _ operand, ⟨target, inner⟩ => readsPrinted_cast (readsPrinted operand inner) target
  | .number _ _, printable => readsPrinted_number printable
  | .string _ _, _ => readsPrinted_piece rfl
  | .character _ text, _ => readsPrinted_character text
  | .field _ operand _ isArrow, ⟨inner, notClosed, name⟩ =>
    readsPrinted_field (readsPrinted operand inner) notClosed name isArrow
  | .stringify _ _, isPiece => readsPrinted_piece isPiece
  | .concat _ _, ⟨many, pieces⟩ => readsPrinted_concat many pieces
  | .unary _ op .before operand, inner => readsPrinted_before (readsPrinted operand inner) op
  | .unary _ _ .after operand, ⟨inner, isStep, notClosed⟩ =>
    readsPrinted_step (readsPrinted operand inner) isStep notClosed
  | .binary _ op left right, ⟨first, second⟩ =>
    readsPrinted_binary (readsPrinted left first) (readsPrinted right second) op
  | .assign _ op target value, ⟨first, second⟩ =>
    readsPrinted_assign (readsPrinted target first) (readsPrinted value second) op
  | .ternary _ condition whenTrue whenFalse, ⟨test, first, second⟩ =>
    readsPrinted_ternary (readsPrinted condition test) (readsPrinted whenTrue first)
      (readsPrinted whenFalse second)
  | .addressOf _ operand, inner => readsPrinted_addressOf (readsPrinted operand inner)
  | .assembly _ _ outputs inputs _ isVolatile, ⟨nonempty, written, read⟩ =>
    readsPrinted_assembly nonempty (fun _ => reads_operands (operandsPrinted outputs written))
      (fun _ => reads_operands (operandsPrinted inputs read)) isVolatile
  | .placeholder _ _, missing => missing.elim

theorem arePrinted : (es : List Expr) → ArePrintable spelling es → ∀ e ∈ es, ReadsPrinted parameters spelling e
  | [], _ => List.forall_mem_nil _
  | e :: es, ⟨first, more⟩ => List.forall_mem_cons.mpr ⟨readsPrinted e first, arePrinted es more⟩

theorem operandsPrinted : (os : List AsmOperand) → OperandsPrintable spelling os →
    ∀ o ∈ os, ∀ next, Reads parameters .operand (laid (o.print spelling)) o.unplaced next
  | [], _ => List.forall_mem_nil _
  | .mk _ _ _ value :: os, ⟨first, more⟩ =>
    List.forall_mem_cons.mpr ⟨fun _ => reads_operand (readsPrinted value first), operandsPrinted os more⟩

end

end MacroLift
