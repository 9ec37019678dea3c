import MacroLift.Proofs.Batch.Translator
import MacroLift.Proofs.Rust.Pieces
import MacroLift.Proofs.Usage.Classification

namespace MacroLift

def Place.takesName : Place → Bool
  | .castType | .stringified | .fragment => true
  | _ => false

variable {place outer : Place} {name : String}

theorem Ident.mem_pieces_iff {ident : Ident} :
    .name place name ∈ ident.pieces outer ↔
      (place = outer ∧ ∃ pos, ident = .simple pos name) ∨ (place = .fragment ∧ name ∈ ident.fragments) := by
  cases ident with
  | simple pos text => simp [Ident.pieces, Ident.fragments, eq_comm]
  | pasted pos fragments =>
    have flat : .name place name ∈ (fragments.map fun text => [Piece.name .fragment text]).flatten ↔
        place = .fragment ∧ name ∈ fragments := by
      induction fragments with
      | nil => simp
      | cons text fragments ih =>
        simp only [List.map_cons, List.flatten_cons, List.mem_append, ih]
        grind
    simpa [Ident.pieces, Ident.fragments] using flat

theorem CType.mem_pieces_iff {type : CType} :
    .name place name ∈ type.pieces outer ↔ .name place name ∈ type.baseName.pieces outer := by
  induction type with
  | named => rfl
  | pointer _ _ _ ih => simp [CType.pieces, CType.baseName, ih]

theorem Node.usesAsName_of_mem {node : Node} {ident : Ident} (held : ident ∈ node.heldNames)
    (member : .name place name ∈ ident.pieces outer) (takes : place.takesName = true)
    (other : outer.takesName = false) : node.UsesAsName name := by
  rcases Ident.mem_pieces_iff.mp member with ⟨rfl, -⟩ | ⟨-, fragment⟩
  · rw [other] at takes
    cases takes
  · exact .pasted held fragment

theorem Node.usesAsName_stringified {pos : Pos} {ident : Ident}
    (member : .name place name ∈ ident.pieces .stringified) :
    (Node.expr (.stringify pos ident)).UsesAsName name := by
  rcases Ident.mem_pieces_iff.mp member with ⟨-, namePos, rfl⟩ | ⟨-, fragment⟩
  · exact .stringified pos namePos
  · exact .pasted (List.mem_singleton.mpr rfl) fragment

theorem Node.usesAsName_target {pos : Pos} {type : CType} {operand : Expr}
    (member : .name place name ∈ type.pieces .castType) :
    (Node.expr (.cast pos type operand)).UsesAsName name := by
  rcases Ident.mem_pieces_iff.mp (CType.mem_pieces_iff.mp member) with ⟨-, namePos, base⟩ | ⟨-, fragment⟩
  · exact .target pos operand base
  · exact .pasted (List.mem_singleton.mpr rfl) fragment

mutual

theorem Expr.usesAsName_of_mem (takes : place.takesName = true) (role : Role) :
    (e : Expr) → .name place name ∈ e.pieces role → ∃ node ∈ e.nodes, node.UsesAsName name
  | .name pos ident => by
    intro member
    have other : role.place.takesName = false := by cases role <;> rfl
    have own : .name place name ∈ ident.pieces role.place := by
      cases ident with
      | simple => exact member
      | pasted => cases role <;> simpa [Expr.pieces] using member
    exact ⟨_, List.mem_cons_self, Node.usesAsName_of_mem (List.mem_singleton.mpr rfl) own takes other⟩
  | .call pos callee arguments => by
    have own : .name place name ∈ callee.pieces .callee →
        (Node.expr (.call pos callee arguments)).UsesAsName name :=
      fun member => Node.usesAsName_of_mem (List.mem_singleton.mpr rfl) member takes rfl
    have inner := usesAsName_of_mem_exprs takes .argument arguments
    simpa [Expr.pieces, or_and_right, exists_or, -List.mem_flatten] using Or.imp own inner
  | .cast pos target operand => by
    have own : .name place name ∈ target.pieces .castType →
        (Node.expr (.cast pos target operand)).UsesAsName name :=
      Node.usesAsName_target
    have inner := operand.usesAsName_of_mem takes .value
    by_cases void : target.isVoid
    · simpa [Expr.pieces, void, or_and_right, exists_or] using fun member => .inr (inner member)
    · simpa [Expr.pieces, void, or_and_right, exists_or, or_comm] using Or.imp own inner
  | .number _ _ | .string _ _ | .character _ _ | .assembly _ _ _ _ _ _ | .placeholder _ _ => by
    simp [Expr.pieces]
  | .field pos operand ident isArrow => by
    have own : .name place name ∈ ident.pieces .field →
        (Node.expr (.field pos operand ident isArrow)).UsesAsName name :=
      fun member => Node.usesAsName_of_mem (List.mem_singleton.mpr rfl) member takes rfl
    have inner := operand.usesAsName_of_mem takes .value
    simpa [Expr.pieces, or_and_right, exists_or, or_comm] using Or.imp own inner
  | .stringify _ ident => by
    simpa [Expr.pieces] using Node.usesAsName_stringified
  | .concat _ parts => by
    have inner := usesAsName_of_mem_exprs takes .value parts
    simpa [Expr.pieces, or_and_right, exists_or, -List.mem_flatten] using fun member => .inr (inner member)
  | .unary _ _ _ operand | .addressOf _ operand => by
    have inner := operand.usesAsName_of_mem takes .value
    simpa [Expr.pieces, or_and_right, exists_or] using fun member => .inr (inner member)
  | .binary _ _ left right => by
    have inner := Or.imp (left.usesAsName_of_mem takes .value) (right.usesAsName_of_mem takes .value)
    simpa [Expr.pieces, or_and_right, exists_or] using fun member => .inr (inner member)
  | .assign pos op target value => by
    have inner := Or.imp (target.usesAsName_of_mem takes .value) (value.usesAsName_of_mem takes .value)
    -- the target of an assignment is rendered twice
    have twice : .name place name ∈ (Expr.assign pos op target value).pieces .value →
        .name place name ∈ target.pieces .value ∨ .name place name ∈ value.pieces .value := by
      simp only [Expr.pieces]
      grind
    intro member
    simpa [or_and_right, exists_or] using Or.inr (inner (twice member))
  | .ternary _ condition whenTrue whenFalse => by
    have inner := Or.imp (condition.usesAsName_of_mem takes .value)
      (Or.imp (whenTrue.usesAsName_of_mem takes .value) (whenFalse.usesAsName_of_mem takes .value))
    simpa [Expr.pieces, or_and_right, exists_or] using fun member => .inr (inner member)

theorem usesAsName_of_mem_exprs (takes : place.takesName = true) (role : Role) :
    (es : List Expr) → .name place name ∈ (piecesOfExprs role es).flatten →
      ∃ node ∈ nodesOfExprs es, node.UsesAsName name
  | [] => by simp [piecesOfExprs]
  | e :: es => by
    have inner := Or.imp (e.usesAsName_of_mem takes role) (usesAsName_of_mem_exprs takes role es)
    simpa [piecesOfExprs, or_and_right, exists_or, -List.mem_flatten] using inner

end

mutual

theorem Stmt.usesAsName_of_mem (takes : place.takesName = true) :
    (s : Stmt) → .name place name ∈ s.pieceLines.flatten → ∃ node ∈ s.nodes, node.UsesAsName name
  | .eval _ value => by
    have inner := @Expr.usesAsName_of_mem place name takes .value value
    simpa [Stmt.pieceLines, or_and_right, exists_or] using fun member => .inr (inner member)
  | .declare pos type ident value isStatic => by
    let node : Node := .stmt (.declare pos type ident value isStatic)
    have named : .name place name ∈ ident.pieces .declaredName → node.UsesAsName name := fun member =>
      Node.usesAsName_of_mem (List.mem_cons_of_mem _ List.mem_cons_self) member takes rfl
    have typed : .name place name ∈ type.pieces .declaredType → node.UsesAsName name := fun member =>
      Node.usesAsName_of_mem List.mem_cons_self (CType.mem_pieces_iff.mp member) takes rfl
    have inner := @Expr.usesAsName_of_mem place name takes .value value
    simp only [Stmt.pieceLines, Stmt.nodes, List.flatten_cons, List.flatten_nil, List.mem_append, List.mem_cons]
    grind
  | .block _ body => by
    have inner := usesAsName_of_mem_stmts takes body
    simpa [Stmt.pieceLines, or_and_right, exists_or, -List.mem_flatten] using fun member => .inr (inner member)
  | .choice pos condition whenTrue whenFalse => by
    have inner := Or.imp (@Expr.usesAsName_of_mem place name takes .value condition)
      (Or.imp (usesAsName_of_mem_stmts takes whenTrue) (usesAsName_of_mem_stmts takes whenFalse))
    intro member
    simpa [or_and_right, exists_or] using Or.inr (inner (mem_choice.mp member))
  | .loop _ body condition => by
    have inner := Or.imp (usesAsName_of_mem_stmts takes body)
      (@Expr.usesAsName_of_mem place name takes .value condition)
    simpa [Stmt.pieceLines, or_and_right, exists_or, -List.mem_flatten] using fun member => .inr (inner member)
  | .placeholder _ _ => by simp [Stmt.pieceLines]

theorem usesAsName_of_mem_stmts (takes : place.takesName = true) :
    (ss : List Stmt) → .name place name ∈ (pieceLinesOfStmts ss).flatten →
      ∃ node ∈ nodesOfStmts ss, node.UsesAsName name
  | [] => by simp [pieceLinesOfStmts]
  | s :: ss => by
    have inner := Or.imp (s.usesAsName_of_mem takes) (usesAsName_of_mem_stmts takes ss)
    simpa [pieceLinesOfStmts, or_and_right, exists_or, -List.mem_flatten] using inner

end

theorem Body.usesAsName_of_mem {body : Body} (member : .name place name ∈ body.pieceLines.flatten)
    (takes : place.takesName = true) : body.UsesAsName name := by
  cases body with
  | expression _ value => exact value.usesAsName_of_mem takes .value (by simpa [Body.pieceLines] using member)
  | both _ _ value =>
    obtain ⟨node, held, used⟩ := value.usesAsName_of_mem takes .value (by simpa [Body.pieceLines] using member)
    exact ⟨node, List.mem_append_right _ held, used⟩
  | statement _ value =>
    cases value with
    | block pos body =>
      obtain ⟨node, held, used⟩ := usesAsName_of_mem_stmts takes body member
      exact ⟨node, List.mem_cons_of_mem _ held, used⟩
    | _ => exact Stmt.usesAsName_of_mem takes _ member

/-- The item of a translated macro is made of the pieces of its body. A parameter that stands there as the type of
    a cast, behind `#` or in a paste is captured as a name, and the macro is a pattern. -/
theorem capture_fits_place {tables : Rust.Tables} {signatureText text : String} {bodyLines : List String}
    {analysis : Analysis} (analyzed : analyze signatureText bodyLines = .ok analysis)
    (translated : translate tables signatureText bodyLines = .ok text) :
    text = "\n".intercalate (Rust.itemLines tables analysis
        (analysis.body.pieceLines.map (Rust.naming tables analysis).lineText)) ∧
      ∀ parameter usage place, (parameter, usage) ∈ analysis.parameters → bindingName parameter ≠ variadicName →
        .name place (bindingName parameter) ∈ analysis.body.pieceLines.flatten → place.takesName = true →
          analysis.isPattern = true ∧ Rust.capture parameter usage = "$" ++ bindingName parameter ++ ":ident" := by
  refine ⟨(text_eq_item analyzed translated).trans (Rust.item_eq tables analysis),
    fun parameter usage place listed other shown takes => ?_⟩
  obtain ⟨signature, stream, body, -, -, -, rfl⟩ := analyze_eq_ok_iff.mp analyzed
  obtain rfl := Analysis.identifier_of_usesAsName listed (Body.usesAsName_of_mem shown takes)
  exact ⟨Analysis.isPattern_of_identifier listed, by rw [Rust.capture, if_neg other, if_pos rfl]⟩

theorem capture_fits_place_stringified :
    ∃ analysis text,
      analyze "TEXT(x)" ["#x"] = .ok analysis ∧ translate .kernel "TEXT(x)" ["#x"] = .ok text ∧
        .name .stringified "x" ∈ analysis.body.pieceLines.flatten ∧
          analysis.isPattern = true ∧ Rust.capture "x" .identifier = "$x:ident" := by
  obtain ⟨analysis, analyzed, found⟩ : ∃ analysis, analyze "TEXT(x)" ["#x"] = .ok analysis ∧
      (analysis.parameters, analysis.body.pieceLines) =
        ([("x", .identifier)],
          [[.text "::core::stringify!(", .name .stringified "x", .text ")"]]) :=
    exists_ok_of_map (by decide +kernel)
  obtain ⟨parameters, pieces⟩ := Prod.mk.inj found
  obtain ⟨text, translated, -⟩ : ∃ text, translate .kernel "TEXT(x)" ["#x"] = .ok text ∧ text.isEmpty = false :=
    exists_ok_of_map (by decide +kernel)
  have shown : .name .stringified "x" ∈ analysis.body.pieceLines.flatten := by simp [pieces]
  exact ⟨analysis, text, analyzed, translated, shown,
    (capture_fits_place analyzed translated).2 "x" .identifier .stringified (by simp [parameters]) (by decide) shown
      rfl⟩

/-- In `DECL(T, x, f, a)` with the body `{ T x = a->f; }`, a type, the name of a variable and the name of a field
    are captured as values. -/
theorem declaration_captured_as_values :
    ∃ analysis,
      analyze "DECL(T, x, f, a)" ["{ T x = a->f; }"] = .ok analysis ∧ analysis.isPattern = true ∧
        .name .declaredType "T" ∈ analysis.body.pieceLines.flatten ∧
        .name .declaredName "x" ∈ analysis.body.pieceLines.flatten ∧
        .name .field "f" ∈ analysis.body.pieceLines.flatten ∧
        (analysis.parameters.map fun parameter => Rust.capture parameter.1 parameter.2) =
          ["$T:expr", "$x:expr", "$f:expr", "$a:expr"] ∧
        translate .kernel "DECL(T, x, f, a)" ["{ T x = a->f; }"] =
          .ok ("macro_rules! DECL \x7b\n  ($T:expr, $x:expr, $f:expr, $a:expr) => \x7b\n    let mut $x: $T = " ++
            "Deref(unsafe \x7b &mut *::core::ptr::addr_of_mut!((*$a).$f) \x7d).convert();\n  \x7d;\n\x7d") := by
  obtain ⟨analysis, analyzed, found⟩ : ∃ analysis, analyze "DECL(T, x, f, a)" ["{ T x = a->f; }"] = .ok analysis ∧
      (analysis.parameters, analysis.body.pieceLines) =
        ([("T", .unknown), ("x", .unknown), ("f", .unknown), ("a", .expression)],
          [[.text "let mut ", .name .declaredName "x", .text ": ", .name .declaredType "T", .text " = ",
            .text "Deref(unsafe \x7b &mut *::core::ptr::addr_of_mut!((*", .name .value "a", .text ").",
            .name .field "f", .text ") \x7d).convert()", .text ";"]]) :=
    exists_ok_of_map (by decide +kernel)
  obtain ⟨parameters, pieces⟩ := Prod.mk.inj found
  refine ⟨analysis, analyzed, by rw [Analysis.isPattern, parameters]; rfl, ?_, ?_, ?_, ?_, ?_⟩
  · simp [pieces]
  · simp [pieces]
  · simp [pieces]
  · rw [parameters]
    decide
  · exact eq_ok_of_toOption (by decide +kernel)

end MacroLift
