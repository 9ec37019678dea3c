import MacroLift.Proofs.Grammar.Body
import MacroLift.Proofs.Rust.Captures
import MacroLift.Proofs.Tree.Occurrence

namespace MacroLift

def Role.directlyUnder : List Node → Role
  | .expr (.call _ _ _) :: _ => .argument
  | _ => .value

namespace Occurrence

def isShown (o : Occurrence) : Bool :=
  o.above.all fun
    | .operand _ => false
    | _ => true

/-- The place and the name that a variable, or the type of a cast, has in Rust, if it is a name by itself. A cast
    to nothing names no type. -/
def placed? (o : Occurrence) : Option (Place × String) :=
  match o.node with
  | .expr (.name _ (.simple _ name)) => some ((Role.directlyUnder o.above).place, name)
  | .expr (.cast _ target _) =>
    match target.baseName with
    | .simple _ name => if target.isVoid then none else some (.castType, name)
    | .pasted _ _ => none
  | _ => none

end Occurrence

def ArePieces (pieces : List Piece) (os : List Occurrence) : Prop :=
  ∀ o ∈ os, o.isShown = true → ∀ place name, o.placed? = some (place, name) → .name place name ∈ pieces

namespace ArePieces

variable {ps qs : List Piece} {os rs : List Occurrence}

theorem nil : ArePieces ps [] := by
  simp [ArePieces]

theorem append (first : ArePieces ps os) (second : ArePieces ps rs) : ArePieces ps (os ++ rs) :=
  List.forall_mem_append.mpr ⟨first, second⟩

theorem mono (h : ArePieces ps os) (sub : ∀ place name, .name place name ∈ ps → .name place name ∈ qs) :
    ArePieces qs os :=
  fun o member shown place name found => sub place name (h o member shown place name found)

theorem cons {o : Occurrence} (own : ∀ place name, o.placed? = some (place, name) → .name place name ∈ ps)
    (more : ArePieces ps os) : ArePieces ps (o :: os) :=
  List.forall_mem_cons.mpr ⟨fun _ => own, more⟩

theorem skip {o : Occurrence} (none : o.placed? = none) (more : ArePieces ps os) : ArePieces ps (o :: os) :=
  more.cons fun place name found => by
    rw [none] at found
    cases found

end ArePieces

theorem arePieces_operands (pieces : List Piece) (above : List Node) (operands : List AsmOperand) :
    ArePieces pieces (occurrencesOfOperands above operands) := by
  induction operands with
  | nil => exact .nil
  | cons operand operands ih =>
    cases operand with
    | mk pos name constraint value =>
      refine .append (.skip rfl fun o member shown => ?_) ih
      have held : .operand (.mk pos name constraint value) ∈ o.above :=
        value.standUnder _ o member List.mem_cons_self
      have none := List.all_eq_true.mp shown _ held
      cases none

theorem Expr.castType_mem_pieces {above : List Node} {pos : Pos} {target : CType} {operand : Expr} {place : Place}
    {name : String} (role : Role)
    (found : Occurrence.placed? ⟨.expr (.cast pos target operand), above⟩ = some (place, name)) :
    .name place name ∈ (Expr.cast pos target operand).pieces role := by
  simp only [Occurrence.placed?] at found
  split at found
  · rename_i namePos name base
    split at found
    · cases found
    · rename_i solid
      cases found
      have shown : .name .castType name ∈ target.pieces .castType :=
        CType.mem_pieces_iff.mpr (by simp [base, Ident.pieces])
      simp [Expr.pieces, solid, shown]
  · cases found

mutual

theorem Expr.arePieces (above : List Node) :
    (e : Expr) → ArePieces (e.pieces (.directlyUnder above)) (e.occurrences above)
  | .name _ (.simple _ _) => .cons (by rintro _ _ ⟨⟩; exact List.mem_cons_self) .nil
  | .name _ (.pasted _ _) => .skip rfl .nil
  | .number _ _ | .string _ _ | .character _ _ | .stringify _ _ | .placeholder _ _ => .skip rfl .nil
  | .call _ callee arguments => .skip rfl ((exprs_arePieces _ arguments).mono fun place name member => by
    simp only [Expr.pieces, List.mem_append, List.mem_cons, mem_separated]
    exact .inl (.inr (.inr member)))
  | .concat _ parts => .skip rfl ((exprs_arePieces _ parts).mono fun place name member => by
    simp only [Expr.pieces, List.mem_append, List.mem_cons, mem_separated]
    exact .inl (.inr member))
  | .cast _ target operand =>
    .cons (fun _ _ => Expr.castType_mem_pieces _)
      ((operand.arePieces _).mono fun place name (member : .name place name ∈ operand.pieces .value) => by
        unfold Expr.pieces
        split <;> simp [member])
  | .field _ operand _ _ | .unary _ _ _ operand | .addressOf _ operand =>
    .skip rfl ((operand.arePieces _).mono fun place name (member : .name place name ∈ operand.pieces .value) => by
      simp [Expr.pieces, member])
  | .binary _ _ left right | .assign _ _ left right =>
    .skip rfl
      (.append
        ((left.arePieces _).mono fun place name (member : .name place name ∈ left.pieces .value) => by
          simp [Expr.pieces, member])
        ((right.arePieces _).mono fun place name (member : .name place name ∈ right.pieces .value) => by
          simp [Expr.pieces, member]))
  | .ternary _ condition whenTrue whenFalse =>
    .skip rfl
      (.append
        (.append
          ((condition.arePieces _).mono fun place name (member : .name place name ∈ condition.pieces .value) => by
            simp [Expr.pieces, member])
          ((whenTrue.arePieces _).mono fun place name (member : .name place name ∈ whenTrue.pieces .value) => by
            simp [Expr.pieces, member]))
        ((whenFalse.arePieces _).mono fun place name (member : .name place name ∈ whenFalse.pieces .value) => by
          simp [Expr.pieces, member]))
  | .assembly _ _ outputs inputs _ _ =>
    .skip rfl ((arePieces_operands _ _ outputs).append (arePieces_operands _ _ inputs))

theorem exprs_arePieces (above : List Node) :
    (es : List Expr) → ArePieces (piecesOfExprs (.directlyUnder above) es).flatten (occurrencesOfExprs above es)
  | [] => .nil
  | e :: es =>
    .append ((e.arePieces above).mono fun _ _ => List.mem_append_left _)
      ((exprs_arePieces above es).mono fun _ _ => List.mem_append_right _)

end

mutual

theorem Stmt.arePieces (above : List Node) : (s : Stmt) → ArePieces s.pieceLines.flatten (s.occurrences above)
  | .eval _ value | .declare _ _ _ value _ =>
    .skip rfl ((value.arePieces _).mono fun place name (member : .name place name ∈ value.pieces .value) => by
      simp [Stmt.pieceLines, member])
  | .block _ body => .skip rfl ((stmts_arePieces _ body).mono fun place name member => by
      simp [Stmt.pieceLines, member, -List.mem_flatten])
  | .choice _ condition whenTrue whenFalse =>
    .skip rfl
      (.append
        (.append
          ((condition.arePieces _).mono fun place name member => mem_choice.mpr (.inl member))
          ((stmts_arePieces _ whenTrue).mono fun place name member => mem_choice.mpr (.inr (.inl member))))
        ((stmts_arePieces _ whenFalse).mono fun place name member => mem_choice.mpr (.inr (.inr member))))
  | .loop _ body condition =>
    .skip rfl
      (.append
        ((stmts_arePieces _ body).mono fun place name member => by
          simp [Stmt.pieceLines, member, -List.mem_flatten])
        ((condition.arePieces _).mono fun place name (member : .name place name ∈ condition.pieces .value) => by
          simp [Stmt.pieceLines, member, -List.mem_flatten]))
  | .placeholder _ _ => .skip rfl .nil

theorem stmts_arePieces (above : List Node) :
    (ss : List Stmt) → ArePieces (pieceLinesOfStmts ss).flatten (occurrencesOfStmts above ss)
  | [] => .nil
  | s :: ss => by
    rw [pieceLinesOfStmts, List.flatten_append]
    exact .append ((s.arePieces above).mono fun _ _ => List.mem_append_left _)
      ((stmts_arePieces above ss).mono fun _ _ => List.mem_append_right _)

end

theorem Body.arePieces {body : Body} (single : ∀ pos s e, body ≠ .both pos s e) :
    ArePieces body.pieceLines.flatten body.occurrences := by
  cases body with
  | expression _ value =>
    rw [Body.pieceLines, List.flatten_singleton]
    exact value.arePieces []
  | both pos s e => exact absurd rfl (single pos s e)
  | statement _ value =>
    cases value with
    | block pos body => exact .skip rfl (stmts_arePieces [.stmt (.block pos body)] body)
    | _ => exact Stmt.arePieces [] _

theorem DerivesBody.single {setting : Setting} {ts : List Token} {b : Body} (h : DerivesBody setting ts b) :
    ∀ pos s e, b ≠ .both pos s e := by
  cases h <;> exact nofun

namespace Rust

def captures (analysis : Analysis) (name : String) : Bool :=
  analysis.isPattern && analysis.parameters.any fun parameter => bindingName parameter.1 == name

/-- Whether no table stands in the way of a name's own spelling at its place. Values are looked up only where they
    are not captured, types of casts always. -/
def keeps (tables : Tables) (analysis : Analysis) (place : Place) (name : String) : Prop :=
  if place = .castType then typeNames.lookup name = none
  else captures analysis name = true ∨ tables.valueNames.lookup name = none

/-- A name in its own spelling, with a mark if it is captured. The variadic parameter stands for all that it
    takes. -/
def ownSpelling (analysis : Analysis) (name : String) : String :=
  if captures analysis name then
    if name = variadicName then Naming.variadicReference else "$" ++ name
  else name

def ownText (analysis : Analysis) (place : Place) (name : String) : String :=
  if place = .argument then argumentText (name != "NULL") (ownSpelling analysis name) else ownSpelling analysis name

theorem naming_captures (tables : Tables) (analysis : Analysis) (name : String) :
    (naming tables analysis).captures.contains name = captures analysis name := by
  unfold naming captures
  cases analysis.isPattern with
  | false => rfl
  | true =>
    rw [Bool.eq_iff_iff]
    simp

theorem spell_naming (tables : Tables) (analysis : Analysis) (name : String) :
    (naming tables analysis).spell name = ownSpelling analysis name := by
  unfold Naming.spell ownSpelling
  rw [naming_captures]

end Rust

theorem Naming.value_simple (naming : Naming) (pos : Pos) (name : String) :
    naming.value (.simple pos name) =
      if naming.captures.contains name then naming.spell name
      else (naming.valueNames.lookup name).getD (naming.spell name) := rfl

theorem Rust.value_of_keeps {tables : Tables} {analysis : Analysis} {name : String}
    (kept : captures analysis name = true ∨ tables.valueNames.lookup name = none) :
    (naming tables analysis).value (.simple nowhere name) = ownSpelling analysis name := by
  rw [Naming.value_simple, naming_captures, spell_naming]
  rcases kept with captured | unnamed
  · rw [if_pos captured]
  · have none : (naming tables analysis).valueNames.lookup name = none := unnamed
    rw [none, Option.getD_none, ite_self]

theorem Occurrence.place_of_placed? {o : Occurrence} {place : Place} {name : String}
    (found : o.placed? = some (place, name)) : place = .value ∨ place = .argument ∨ place = .castType := by
  unfold Occurrence.placed? at found
  split at found
  · cases found
    cases Role.directlyUnder o.above <;> simp [Role.place]
  · split at found
    · split at found
      · cases found
      · cases found
        simp
    · cases found
  · cases found

theorem Rust.pieceText_of_keeps {tables : Tables} {analysis : Analysis} {o : Occurrence} {place : Place}
    {name : String} (found : o.placed? = some (place, name)) (kept : keeps tables analysis place name) :
    (naming tables analysis).pieceText (.name place name) = ownText analysis place name := by
  rcases Occurrence.place_of_placed? found with rfl | rfl | rfl
  · exact value_of_keeps kept
  · exact congrArg (argumentText (name != "NULL")) (value_of_keeps kept)
  · have unnamed : typeNames.lookup name = none := kept
    have typed := (naming tables analysis).type_named nowhere nowhere name false
    rw [unnamed, Option.getD_none, spell_naming] at typed
    exact typed

variable {tables : Rust.Tables} {signatureText text : String} {bodyLines : List String} {analysis : Analysis}

/-- In both forms of an item, the variables, arguments and types of casts of the body are among the pieces that
    the item is made of. A name that stands there by itself, be it a parameter's, a declared variable's or another,
    has its own spelling, unless it is not captured and a table has another name for it. The types of casts are
    looked up even where they are captured. -/
theorem bound_name_kept (analyzed : analyze signatureText bodyLines = .ok analysis)
    (translated : translate tables signatureText bodyLines = .ok text) :
    let naming := Rust.naming tables analysis
    text = "\n".intercalate (Rust.itemLines tables analysis (analysis.body.pieceLines.map naming.lineText)) ∧
      ∀ o ∈ analysis.body.occurrences, o.isShown = true → ∀ place name, o.placed? = some (place, name) →
        .name place name ∈ analysis.body.pieceLines.flatten ∧
          (Rust.keeps tables analysis place name →
            naming.pieceText (.name place name) = Rust.ownText analysis place name) := by
  have item := text_eq_item analyzed translated
  obtain ⟨signature, stream, body, -, -, parsed, rfl⟩ := analyze_eq_ok_iff.mp analyzed
  have pieces := Body.arePieces (readsBody_of_body parsed).derives.single
  exact ⟨item.trans (Rust.item_eq tables _), fun o member shown place name found =>
    ⟨pieces o member shown _ _ found, Rust.pieceText_of_keeps found⟩⟩

theorem bound_name_kept_captured :
    ∃ analysis text,
      analyze "F(NULL)" ["NULL + 1"] = .ok analysis ∧ translate .kernel "F(NULL)" ["NULL + 1"] = .ok text ∧
        .name .value "NULL" ∈ analysis.body.pieceLines.flatten ∧
          (Rust.naming .kernel analysis).pieceText (.name .value "NULL") = "$NULL" := by
  obtain ⟨analysis, analyzed, found⟩ : ∃ analysis, analyze "F(NULL)" ["NULL + 1"] = .ok analysis ∧
      (Rust.captures analysis "NULL",
        analysis.body.occurrences.any fun o => o.isShown && o.placed? == some (.value, "NULL")) = (true, true) :=
    exists_ok_of_map (by decide +kernel)
  obtain ⟨captured, found⟩ := Prod.mk.inj found
  obtain ⟨text, translated, -⟩ : ∃ text,
      translate .kernel "F(NULL)" ["NULL + 1"] = .ok text ∧ text.isEmpty = false :=
    exists_ok_of_map (by decide +kernel)
  obtain ⟨o, member, found⟩ := List.any_eq_true.mp found
  obtain ⟨shown, found⟩ := (Bool.and_eq_true _ _).mp found
  obtain ⟨listed, spelled⟩ :=
    (bound_name_kept analyzed translated).2 o member shown .value "NULL" (beq_iff_eq.mp found)
  have own : Rust.ownText analysis .value "NULL" = "$NULL" := by
    simp [Rust.ownText, Rust.ownSpelling, captured, variadicName]
  exact ⟨analysis, text, analyzed, translated, listed, (spelled (.inl captured)).trans own⟩

/-- A function's parameter, the type of a cast that a pattern captures, and a declared variable, each called
    otherwise by a table. -/
theorem bound_names_replaced :
    translate .kernel "F(eIncrement)" ["g(eIncrement)"] =
        .ok ("#[allow(non_snake_case)]\n#[inline(always)]\n" ++
          "pub unsafe extern \"C\" fn F(mut eIncrement: _) \x7b\n  g(eNotifyAction_eIncrement.into())\n\x7d") ∧
      translate .kernel "CAST(int, v)" ["((int) (v))"] =
        .ok ("macro_rules! CAST \x7b\n  ($int:ident, $v:expr) => \x7b\n" ++
          "    ($v as ::core::ffi::c_int)\n  \x7d;\n\x7d") ∧
      translate .kernel "F(x)" ["{ T eIncrement = x; g(eIncrement); }"] =
        .ok ("macro_rules! F \x7b\n  ($x:expr) => \x7b\n    let mut eIncrement: T = $x;\n" ++
          "    g(eNotifyAction_eIncrement.into());\n  \x7d;\n\x7d") :=
  ⟨eq_ok_of_toOption (by decide +kernel), eq_ok_of_toOption (by decide +kernel),
    eq_ok_of_toOption (by decide +kernel)⟩

end MacroLift
