import MacroLift.Proofs.Tree.Unplaced
import MacroLift.Rust.Item

namespace MacroLift

/-- Where a name stands in Rust. -/
inductive Place where
  | value
  | argument
  | callee
  | castType
  | declaredType
  | declaredName
  | field
  | stringified
  | fragment
  deriving Repr, DecidableEq

inductive Piece where
  | text (text : String)
  | name (place : Place) (name : String)
  deriving Repr, DecidableEq

def Role.place : Role → Place
  | .value => .value
  | .argument => .argument

namespace Naming

def placed (naming : Naming) (place : Place) (name : String) : String :=
  match place with
  | .value => naming.value (.simple nowhere name)
  | .argument => argumentText (name != "NULL") (naming.value (.simple nowhere name))
  | .castType | .declaredType => naming.type (.named nowhere (.simple nowhere name) false)
  | .callee | .declaredName | .field | .stringified | .fragment => naming.spell name

def pieceText (naming : Naming) : Piece → String
  | .text text => text
  | .name place name => naming.placed place name

def lineText (naming : Naming) (line : List Piece) : String :=
  String.join (line.map naming.pieceText)

end Naming

def separated (parts : List (List Piece)) : List Piece :=
  List.intercalate [.text ", "] parts

def Ident.pieces (place : Place) : Ident → List Piece
  | .simple _ name => [.name place name]
  | .pasted _ fragments =>
    .text "::core::concat_idents!(" :: separated (fragments.map fun name => [.name .fragment name]) ++ [.text ")"]

def CType.pieces (place : Place) : CType → List Piece
  | .named _ name _ => name.pieces place
  | .pointer _ pointee isMutable => .text (if isMutable then "*mut " else "*const ") :: pointee.pieces place

def unaryPieces (op : UnaryOp) (side : Side) (operand : List Piece) : List Piece :=
  match op, side with
  | .increment, .before | .decrement, .before =>
    .text "\x7b " :: operand ++ .text " -= 1; " :: operand ++ [.text " \x7d"]
  | .increment, .after | .decrement, .after =>
    .text "\x7b let prev = " :: operand ++ .text "; " :: operand ++ [.text " -= 1; prev \x7d"]
  | .logicalNot, _ | .bitwiseNot, _ => .text "!" :: operand
  | .negate, _ => .text "-" :: operand
  | .plus, _ => operand

mutual

def Expr.pieces (role : Role) : Expr → List Piece
  | .name _ (.simple _ name) => [.name role.place name]
  | .name _ (.pasted pos fragments) =>
    (Ident.pasted pos fragments).pieces role.place ++ if role = .argument then [.text ".into()"] else []
  | .call _ callee arguments =>
    callee.pieces .callee ++ .text "(" :: separated (piecesOfExprs .argument arguments) ++ [.text ")"]
  | .cast _ target operand =>
    if target.isVoid then .text "\x7b drop(" :: operand.pieces .value ++ [.text ") \x7d"]
    else .text "(" :: operand.pieces .value ++ .text " as " :: target.pieces .castType ++ [.text ")"]
  | .number _ value => [.text value.text]
  | .string _ text | .character _ text => [.text text]
  | .field _ operand name _ =>
    .text "Deref(unsafe \x7b &mut *::core::ptr::addr_of_mut!((*" :: operand.pieces .value ++
      .text ")." :: name.pieces .field ++ [.text ") \x7d).convert()"]
  | .stringify _ name => .text "::core::stringify!(" :: name.pieces .stringified ++ [.text ")"]
  | .concat _ parts => .text "::core::concat!(" :: separated (piecesOfExprs .value parts) ++ [.text ")"]
  | .unary _ op side operand => unaryPieces op side (operand.pieces .value)
  | .binary _ op left right =>
    .text "(" :: left.pieces .value ++ .text (" " ++ op.spelling ++ " ") :: right.pieces .value ++ [.text ")"]
  | .assign _ op target value =>
    .text "\x7b " :: target.pieces .value ++ .text (" " ++ op.spelling ++ " ") :: value.pieces .value ++
      .text "; " :: target.pieces .value ++ [.text " \x7d"]
  | .ternary _ condition whenTrue whenFalse =>
    .text "if " :: condition.pieces .value ++ .text " \x7b " :: whenTrue.pieces .value ++
      .text " \x7d else \x7b " :: whenFalse.pieces .value ++ [.text " \x7d"]
  | .addressOf _ operand => .text "::core::ptr::addr_of_mut!(" :: operand.pieces .value ++ [.text ")"]
  | .assembly _ template _ _ clobbers _ => [.text (assemblyText template clobbers)]
  | .placeholder _ _ => []

def piecesOfExprs (role : Role) : List Expr → List (List Piece)
  | [] => []
  | e :: es => e.pieces role :: piecesOfExprs role es

end

def stepped (lines : List (List Piece)) : List (List Piece) :=
  lines.map fun line => .text indentStep :: line

mutual

def Stmt.pieceLines : Stmt → List (List Piece)
  | .eval _ value => [value.pieces .value ++ [.text ";"]]
  | .declare _ type name value isStatic =>
    [.text (if isStatic then "static mut " else "let mut ") :: name.pieces .declaredName ++
      .text ": " :: type.pieces .declaredType ++ .text " = " :: value.pieces .value ++ [.text ";"]]
  | .block _ body => [.text "\x7b"] :: stepped (pieceLinesOfStmts body) ++ [[.text "\x7d"]]
  | .choice _ condition whenTrue whenFalse =>
    (.text "if " :: condition.pieces .value ++ [.text " \x7b"]) :: stepped (pieceLinesOfStmts whenTrue) ++
      (if whenFalse.isEmpty then [] else [.text "\x7d else \x7b"] :: stepped (pieceLinesOfStmts whenFalse)) ++
      [[.text "\x7d"]]
  | .loop _ body condition =>
    [.text "loop \x7b"] ::
      stepped
        (pieceLinesOfStmts body ++
          [.text "if (" :: condition.pieces .value ++ [.text " as u8) == 0 \x7b"],
            [.text (indentStep ++ "break;")], [.text "\x7d"]]) ++
      [[.text "\x7d"]]
  | .placeholder _ _ => []

def pieceLinesOfStmts : List Stmt → List (List Piece)
  | [] => []
  | s :: ss => s.pieceLines ++ pieceLinesOfStmts ss

end

def Body.pieceLines : Body → List (List Piece)
  | .expression _ value | .both _ _ value => [value.pieces .value]
  | .statement _ (.block _ body) => pieceLinesOfStmts body
  | .statement _ value => value.pieceLines

namespace Naming

variable (naming : Naming)

@[simp] theorem lineText_nil : naming.lineText [] = "" := by
  simp [lineText]

@[simp] theorem lineText_cons (piece : Piece) (line : List Piece) :
    naming.lineText (piece :: line) = naming.pieceText piece ++ naming.lineText line := by
  simp [lineText]

@[simp] theorem lineText_append (first second : List Piece) :
    naming.lineText (first ++ second) = naming.lineText first ++ naming.lineText second := by
  simp [lineText, String.join_append]

@[simp] theorem pieceText_text (text : String) : naming.pieceText (.text text) = text := rfl

@[simp] theorem pieceText_name (place : Place) (name : String) :
    naming.pieceText (.name place name) = naming.placed place name := rfl

@[simp] theorem lineText_separated (parts : List (List Piece)) :
    naming.lineText (separated parts) = ", ".intercalate (parts.map naming.lineText) := by
  unfold separated
  induction parts with
  | nil => simp
  | cons part parts ih =>
    cases parts with
    | nil => simp
    | cons next parts => simp [List.intercalate_cons_cons, String.intercalate_cons_cons, String.append_assoc, ih]

end Naming

theorem Naming.type_named (naming : Naming) (pos namePos : Pos) (name : String) (isStruct : Bool) :
    naming.type (.named pos (.simple namePos name) isStruct) =
      (Rust.typeNames.lookup name).getD (naming.spell name) := rfl

theorem Naming.type_pointer (naming : Naming) (pos : Pos) (pointee : CType) (isMutable : Bool) :
    naming.type (.pointer pos pointee isMutable) =
      (if isMutable then "*mut " else "*const ") ++ naming.type pointee := rfl

section

variable (naming : Naming)

theorem lineText_fragments (fragments : List String) :
    (fragments.map fun name => [Piece.name .fragment name]).map naming.lineText = fragments.map naming.spell := by
  simp [Function.comp_def, Naming.pieceText, Naming.placed]

theorem Ident.lineText_pasted (place : Place) (pos : Pos) (fragments : List String) :
    naming.lineText ((Ident.pasted pos fragments).pieces place) = naming.ident (.pasted pos fragments) := by
  simp only [Ident.pieces, Naming.lineText_cons, Naming.lineText_append, Naming.lineText_separated,
    lineText_fragments, Naming.lineText_nil, Naming.pieceText_text, String.append_empty]
  rfl

theorem Ident.lineText_pieces (place : Place) (spelled : ∀ name, naming.placed place name = naming.spell name)
    (ident : Ident) : naming.lineText (ident.pieces place) = naming.ident ident := by
  cases ident with
  | simple _ name =>
    simp only [Ident.pieces, Naming.lineText_cons, Naming.lineText_nil, String.append_empty, Naming.pieceText_name]
    exact spelled name
  | pasted => exact Ident.lineText_pasted naming place _ _

theorem CType.lineText_pieces {place : Place} (typed : place = .castType ∨ place = .declaredType) (type : CType) :
    naming.lineText (type.pieces place) = naming.type type := by
  induction type with
  | named pos ident isStruct =>
    cases ident with
    | simple namePos name =>
      have piece : naming.pieceText (.name place name) =
          naming.type (.named pos (.simple namePos name) isStruct) := by
        rcases typed with rfl | rfl <;> rfl
      simp only [CType.pieces, Ident.pieces, Naming.lineText_cons, Naming.lineText_nil, String.append_empty, piece]
    | pasted => exact Ident.lineText_pasted naming place _ _
  | pointer _ _ _ ih =>
    simp only [CType.pieces, Naming.lineText_cons, Naming.pieceText_text, Naming.type_pointer, ih]

theorem lineText_unaryPieces (op : UnaryOp) (side : Side) (operand : List Piece) :
    naming.lineText (unaryPieces op side operand) = unaryText op side (naming.lineText operand) := by
  unfold unaryPieces unaryText
  cases op <;> cases side <;> simp [String.append_assoc]

theorem Naming.pasted_ne_variadic (pos : Pos) (fragments : List String) :
    naming.ident (.pasted pos fragments) ≠ Naming.variadicReference := by
  intro same
  unfold Naming.ident Naming.variadicReference at same
  have starts := congrArg (fun text => text.toList.head?) same
  simp at starts

theorem Expr.lineText_argument {e : Expr} (own : naming.lineText (e.pieces .value) = e.render naming) :
    naming.lineText (e.pieces .argument) = argumentText e.isConvertible (e.render naming) := by
  cases e with
  | name pos ident =>
    cases ident with
    | simple namePos name =>
      simp only [Expr.pieces, Naming.lineText_cons, Naming.lineText_nil, String.append_empty]
      rfl
    | pasted namePos fragments =>
      have converted : argumentText true (naming.ident (.pasted namePos fragments)) =
          naming.ident (.pasted namePos fragments) ++ ".into()" := by
        rw [argumentText, if_pos rfl, if_neg (naming.pasted_ne_variadic namePos fragments)]
      refine Eq.trans ?_ converted.symm
      simp [Expr.pieces, Ident.lineText_pasted]
  | _ => simpa [Expr.pieces, argumentText, Expr.isConvertible] using own

mutual

theorem Expr.lineText_pieces : (e : Expr) → naming.lineText (e.pieces .value) = e.render naming
  | .name _ (.simple _ name) => by
    simp only [Expr.pieces, Naming.lineText_cons, Naming.lineText_nil, String.append_empty]
    rfl
  | .name _ (.pasted pos fragments) => by
    simp only [Expr.pieces, Naming.lineText_append, Ident.lineText_pasted]
    exact String.append_empty
  | .call _ callee arguments => by
    have name := callee.lineText_pieces naming .callee fun _ => rfl
    unfold Expr.pieces Expr.render
    simp [name, lineText_arguments arguments, String.append_assoc]
  | .cast _ target operand => by
    have type := target.lineText_pieces naming (.inl rfl)
    unfold Expr.pieces Expr.render
    split <;> simp [type, operand.lineText_pieces, String.append_assoc]
  | .number _ _ | .string _ _ | .character _ _ | .assembly _ _ _ _ _ _ | .placeholder _ _ => by
    unfold Expr.pieces Expr.render
    simp
  | .field _ operand name _ => by
    have field := name.lineText_pieces naming .field fun _ => rfl
    unfold Expr.pieces Expr.render
    simp [operand.lineText_pieces, field, String.append_assoc]
  | .stringify _ name => by
    have named := name.lineText_pieces naming .stringified fun _ => rfl
    unfold Expr.pieces Expr.render
    simp [named, String.append_assoc]
  | .concat _ parts => by
    unfold Expr.pieces Expr.render
    simp [lineText_piecesOfExprs parts, String.append_assoc]
  | .unary _ _ _ operand => by
    unfold Expr.pieces Expr.render
    rw [lineText_unaryPieces, operand.lineText_pieces]
  | .addressOf _ operand => by
    unfold Expr.pieces Expr.render
    simp [operand.lineText_pieces, String.append_assoc]
  | .binary _ _ left right | .assign _ _ left right => by
    unfold Expr.pieces Expr.render
    simp [left.lineText_pieces, right.lineText_pieces, String.append_assoc]
  | .ternary _ condition whenTrue whenFalse => by
    unfold Expr.pieces Expr.render
    simp [condition.lineText_pieces, whenTrue.lineText_pieces, whenFalse.lineText_pieces, String.append_assoc]

theorem lineText_piecesOfExprs :
    (es : List Expr) → (piecesOfExprs .value es).map naming.lineText = renderExprs naming es
  | [] => rfl
  | e :: es => by simp [piecesOfExprs, renderExprs, e.lineText_pieces, lineText_piecesOfExprs es]

theorem lineText_arguments :
    (es : List Expr) → (piecesOfExprs .argument es).map naming.lineText = renderArguments naming es
  | [] => rfl
  | e :: es => by
    simp [piecesOfExprs, renderArguments, Expr.lineText_argument naming e.lineText_pieces, lineText_arguments es]

end

def IsFilled (line : List Piece) : Prop :=
  ∃ text, .text text ∈ line ∧ text ≠ ""

theorem IsFilled.lineText_ne {line : List Piece} (h : IsFilled line) : naming.lineText line ≠ "" := by
  obtain ⟨text, member, filled⟩ := h
  induction line with
  | nil => cases member
  | cons piece line ih =>
    rw [Naming.lineText_cons, Ne, String.append_eq_empty_iff]
    rintro ⟨first, rest⟩
    rcases List.mem_cons.mp member with rfl | member
    · exact filled first
    · exact ih member rest

theorem isFilled_stepped {lines : List (List Piece)} : ∀ line ∈ stepped lines, IsFilled line := by
  intro line member
  obtain ⟨inner, -, rfl⟩ := List.mem_map.mp member
  exact ⟨indentStep, List.mem_cons_self, by decide⟩

theorem isFilled_text {text : String} (filled : text ≠ "") : IsFilled [.text text] :=
  ⟨text, List.mem_cons_self, filled⟩

theorem Stmt.isFilled (s : Stmt) : ∀ line ∈ s.pieceLines, IsFilled line := by
  cases s with
  | eval | declare =>
    simp only [Stmt.pieceLines, List.forall_mem_singleton]
    exact ⟨";", by simp, by decide⟩
  | block =>
    simp only [Stmt.pieceLines, List.forall_mem_append, List.forall_mem_cons]
    exact ⟨⟨isFilled_text (by decide), isFilled_stepped⟩, isFilled_text (by decide), by simp⟩
  | choice _ condition _ whenFalse =>
    simp only [Stmt.pieceLines, List.forall_mem_append, List.forall_mem_cons]
    refine ⟨⟨⟨⟨"if ", List.mem_cons_self, by decide⟩, isFilled_stepped⟩, ?_⟩, isFilled_text (by decide), by simp⟩
    split
    · simp
    · exact List.forall_mem_cons.mpr ⟨isFilled_text (by decide), isFilled_stepped⟩
  | loop =>
    simp only [Stmt.pieceLines, List.forall_mem_append, List.forall_mem_cons]
    exact ⟨⟨isFilled_text (by decide), isFilled_stepped⟩, isFilled_text (by decide), by simp⟩
  | placeholder => simp [Stmt.pieceLines]

theorem isFilled_stmts (ss : List Stmt) : ∀ line ∈ pieceLinesOfStmts ss, IsFilled line := by
  induction ss with
  | nil => simp [pieceLinesOfStmts]
  | cons s ss ih => exact List.forall_mem_append.mpr ⟨s.isFilled, ih⟩

theorem lineText_stepped {lines : List (List Piece)} (filled : ∀ line ∈ lines, IsFilled line) :
    (stepped lines).map naming.lineText = indented (lines.map naming.lineText) := by
  simp only [stepped, indented, List.map_map]
  refine List.map_congr_left fun line member => ?_
  simp [(filled line member).lineText_ne naming]

mutual

theorem Stmt.lineText_pieceLines : (s : Stmt) → s.pieceLines.map naming.lineText = s.render naming
  | .eval _ value => by
    unfold Stmt.pieceLines Stmt.render
    simp [value.lineText_pieces]
  | .declare _ type name value isStatic => by
    have named := name.lineText_pieces naming .declaredName fun _ => rfl
    have typed := type.lineText_pieces naming (.inr rfl)
    unfold Stmt.pieceLines Stmt.render declarationText
    simp [named, typed, value.lineText_pieces, String.append_assoc]
  | .block _ body => by
    unfold Stmt.pieceLines Stmt.render
    simp [lineText_stepped naming (isFilled_stmts body), lineText_pieceLinesOfStmts body]
  | .choice _ condition whenTrue whenFalse => by
    unfold Stmt.pieceLines Stmt.render
    split <;>
      simp [condition.lineText_pieces, lineText_stepped naming (isFilled_stmts _),
        lineText_pieceLinesOfStmts whenTrue, lineText_pieceLinesOfStmts whenFalse, String.append_assoc]
  | .loop _ body condition => by
    have filled : ∀ line ∈ pieceLinesOfStmts body ++ [.text "if (" :: condition.pieces .value ++
        [.text " as u8) == 0 \x7b"], [.text (indentStep ++ "break;")], [.text "\x7d"]], IsFilled line :=
      List.forall_mem_append.mpr ⟨isFilled_stmts body, by
        simp only [List.forall_mem_cons]
        exact ⟨⟨"if (", by simp, by decide⟩, isFilled_text (by decide), isFilled_text (by decide), by simp⟩⟩
    unfold Stmt.pieceLines Stmt.render
    rw [List.map_append, List.map_cons, lineText_stepped naming filled]
    simp [lineText_pieceLinesOfStmts body, condition.lineText_pieces, String.append_assoc]
  | .placeholder _ _ => by
    unfold Stmt.pieceLines Stmt.render
    rfl

theorem lineText_pieceLinesOfStmts :
    (ss : List Stmt) → (pieceLinesOfStmts ss).map naming.lineText = renderStmts naming ss
  | [] => rfl
  | s :: ss => by simp [pieceLinesOfStmts, renderStmts, s.lineText_pieceLines, lineText_pieceLinesOfStmts ss]

end

theorem Body.lineText_pieceLines (body : Body) : body.pieceLines.map naming.lineText = body.render naming := by
  cases body with
  | expression _ value | both _ _ value => simp [Body.pieceLines, Body.render, value.lineText_pieces]
  | statement _ value =>
    cases value with
    | block _ body => exact lineText_pieceLinesOfStmts naming body
    | _ => exact Stmt.lineText_pieceLines naming _

end

variable {place : Place} {name : String}

@[simp] theorem mem_separated {parts : List (List Piece)} :
    .name place name ∈ separated parts ↔ .name place name ∈ parts.flatten := by
  unfold separated
  induction parts with
  | nil => simp
  | cons part parts ih =>
    cases parts with
    | nil => simp
    | cons next parts =>
      rw [List.intercalate_cons_cons]
      simp only [List.mem_append, List.mem_singleton, reduceCtorEq, or_false, ih, List.flatten_cons]

@[simp] theorem mem_stepped {lines : List (List Piece)} :
    .name place name ∈ (stepped lines).flatten ↔ .name place name ∈ lines.flatten := by
  induction lines with
  | nil => rfl
  | cons line lines ih =>
    simp only [stepped, List.map_cons, List.flatten_cons, List.mem_append, List.mem_cons, reduceCtorEq, false_or]
    exact or_congr Iff.rfl ih

@[simp] theorem mem_unaryPieces {op : UnaryOp} {side : Side} {operand : List Piece} :
    .name place name ∈ unaryPieces op side operand ↔ .name place name ∈ operand := by
  unfold unaryPieces
  cases op <;> cases side <;> simp

theorem mem_choice {pos : Pos} {condition : Expr} {whenTrue whenFalse : List Stmt} :
    .name place name ∈ (Stmt.choice pos condition whenTrue whenFalse).pieceLines.flatten ↔
      .name place name ∈ condition.pieces .value ∨ .name place name ∈ (pieceLinesOfStmts whenTrue).flatten ∨
        .name place name ∈ (pieceLinesOfStmts whenFalse).flatten := by
  cases whenFalse with
  | nil => simp [Stmt.pieceLines, pieceLinesOfStmts, -List.mem_flatten]
  | cons s ss => simp [Stmt.pieceLines, -List.mem_flatten]

namespace Rust

/-- How the item of a macro spells names. Only a pattern captures its parameters. -/
def naming (tables : Tables) (analysis : Analysis) : Naming where
  captures := if analysis.isPattern then analysis.parameters.map fun parameter => bindingName parameter.1 else []
  valueNames := tables.valueNames

def itemLines (tables : Tables) (analysis : Analysis) (body : List String) : List String :=
  if analysis.isPattern then
    let captures := analysis.parameters.map fun parameter => capture parameter.1 parameter.2
    ["macro_rules! " ++ analysis.name ++ " \x7b",
     indentStep ++ "(" ++ ", ".intercalate captures ++ ") => \x7b"] ++
      indented (indented body) ++ [indentStep ++ "\x7d;", "\x7d"]
  else
    ["#[allow(non_snake_case)]", "#[inline(always)]", functionHead tables analysis] ++ indented body ++ ["\x7d"]

theorem item_eq (tables : Tables) (analysis : Analysis) :
    item tables analysis =
      "\n".intercalate
        (itemLines tables analysis (analysis.body.pieceLines.map (naming tables analysis).lineText)) := by
  rw [Body.lineText_pieceLines]
  unfold item itemLines naming
  split <;> rfl

end Rust

end MacroLift
