import MacroLift.Proofs.Batch.Translator
import MacroLift.Proofs.Grammar.Body
import MacroLift.Proofs.Rust.Spelling

namespace MacroLift

open Brackets (IsBalanced Turns LinesTurn)

def Naming.IsBalanced (naming : Naming) : Prop :=
  ∀ name text, naming.valueNames.lookup name = some text → Brackets.IsBalanced text

variable {naming : Naming} {text name : String} {pos : Pos} {ident : Ident} {type : CType} {e : Expr}
  {expected : List Char}

theorem isBalanced_spell (balanced : IsBalanced name) : IsBalanced (naming.spell name) := by
  unfold Naming.spell
  split
  · split
    · exact ⟨rfl⟩
    · exact IsBalanced.append (⟨rfl⟩) balanced
  · exact balanced

theorem isBalanced_enclosed {front back : String} (opened : Turns [] front expected) (inner : IsBalanced text)
    (closed : Turns expected back []) : IsBalanced (front ++ text ++ back) :=
  (opened.over inner).append closed

theorem isBalanced_separated {texts : List String} (balanced : ∀ text ∈ texts, IsBalanced text) :
    IsBalanced (", ".intercalate texts) :=
  Brackets.isBalanced_intercalate (⟨rfl⟩) balanced

def Ident.IsBalanced : Ident → Prop
  | .simple _ name => Brackets.IsBalanced name
  | .pasted _ fragments => ∀ fragment ∈ fragments, Brackets.IsBalanced fragment

theorem Ident.IsBalanced.spelled {ident : Ident} (balanced : ident.IsBalanced) :
    Brackets.IsBalanced (naming.ident ident) := by
  cases ident with
  | simple => exact isBalanced_spell balanced
  | pasted _ fragments =>
    have opened : Turns [] "::core::concat_idents!(" [')'] := ⟨rfl⟩
    have closed : Turns [')'] ")" [] := ⟨rfl⟩
    refine isBalanced_enclosed opened (isBalanced_separated ?_) closed
    rw [List.forall_mem_map]
    exact fun fragment member => isBalanced_spell (balanced fragment member)

theorem Ident.IsBalanced.value (balanced : ident.IsBalanced) (named : naming.IsBalanced) :
    Brackets.IsBalanced (naming.value ident) := by
  cases ident with
  | simple pos name =>
    have own : Brackets.IsBalanced (naming.ident (.simple pos name)) := balanced.spelled
    dsimp only [Naming.value]
    split
    · exact own
    · cases found : naming.valueNames.lookup name with
      | none => exact own
      | some text => exact named name text found
  | pasted => exact balanced.spelled

theorem isBalanced_of_typeNames (found : Rust.typeNames.lookup name = some text) : IsBalanced text := by
  have rows : ∀ row ∈ Rust.typeNames, IsBalanced row.2 := by decide +kernel
  obtain ⟨front, behind, same, -⟩ := List.lookup_eq_some_iff.mp found
  exact rows (name, text) (by rw [same]; simp)

theorem Ident.IsBalanced.named (balanced : ident.IsBalanced) (pos : Pos) (isStruct : Bool) :
    Brackets.IsBalanced (naming.type (.named pos ident isStruct)) := by
  cases ident with
  | simple namePos name =>
    rw [Naming.type]
    cases found : Rust.typeNames.lookup name with
    | none => exact balanced.spelled
    | some text => exact isBalanced_of_typeNames found
  | pasted => exact balanced.spelled

theorem isBalanced_type (balanced : type.baseName.IsBalanced) : IsBalanced (naming.type type) := by
  induction type with
  | named pos ident isStruct => exact Ident.IsBalanced.named balanced pos isStruct
  | pointer pos pointee isMutable ih =>
    have star : IsBalanced (if isMutable then "*mut " else "*const ") := by
      cases isMutable <;> exact ⟨rfl⟩
    exact star.append (ih balanced)

section

variable {operand left right test first second : String}

theorem isBalanced_argumentText (balanced : IsBalanced text) (isConvertible : Bool) :
    IsBalanced (argumentText isConvertible text) := by
  unfold argumentText
  split
  · split
    · exact ⟨rfl⟩
    · exact balanced.append (⟨rfl⟩)
  · exact balanced

theorem isBalanced_call {callee : String} {arguments : List String} (named : IsBalanced callee)
    (balanced : ∀ text ∈ arguments, IsBalanced text) :
    IsBalanced (callee ++ "(" ++ ", ".intercalate arguments ++ ")") := by
  have opened : Turns [] "(" [')'] := ⟨rfl⟩
  have closed : Turns [')'] ")" [] := ⟨rfl⟩
  exact ((Turns.append named opened).over (isBalanced_separated balanced)).append closed

theorem isBalanced_cast {type : String} (balanced : IsBalanced operand) (typed : IsBalanced type) :
    IsBalanced ("(" ++ operand ++ " as " ++ type ++ ")") := by
  have opened : Turns [] "(" [')'] := ⟨rfl⟩
  have word : IsBalanced " as " := ⟨rfl⟩
  have closed : Turns [')'] ")" [] := ⟨rfl⟩
  exact (((opened.over balanced).over word).over typed).append closed

theorem isBalanced_field {field : String} (balanced : IsBalanced operand) (named : IsBalanced field) :
    IsBalanced ("Deref(unsafe \x7b &mut *::core::ptr::addr_of_mut!((*" ++ operand ++ ")." ++ field ++
      ") \x7d).convert()") := by
  have opened : Turns [] "Deref(unsafe \x7b &mut *::core::ptr::addr_of_mut!((*" [')', ')', '\x7d', ')'] := ⟨rfl⟩
  have between : Turns [')', ')', '\x7d', ')'] ")." [')', '\x7d', ')'] := ⟨rfl⟩
  have closed : Turns [')', '\x7d', ')'] ") \x7d).convert()" [] := ⟨rfl⟩
  exact (((opened.over balanced).append between).over named).append closed

theorem isBalanced_steps (balanced : IsBalanced operand) :
    IsBalanced ("\x7b " ++ operand ++ " -= 1; " ++ operand ++ " \x7d") ∧
      IsBalanced ("\x7b let prev = " ++ operand ++ "; " ++ operand ++ " -= 1; prev \x7d") := by
  have opened : Turns [] "\x7b " ['\x7d'] := ⟨rfl⟩
  have between : IsBalanced " -= 1; " := ⟨rfl⟩
  have closed : Turns ['\x7d'] " \x7d" [] := ⟨rfl⟩
  have kept : Turns [] "\x7b let prev = " ['\x7d'] := ⟨rfl⟩
  have stop : IsBalanced "; " := ⟨rfl⟩
  have last : Turns ['\x7d'] " -= 1; prev \x7d" [] := ⟨rfl⟩
  exact ⟨(((opened.over balanced).over between).over balanced).append closed,
    (((kept.over balanced).over stop).over balanced).append last⟩

theorem isBalanced_unaryText (balanced : IsBalanced operand) (op : UnaryOp) (side : Side) :
    IsBalanced (unaryText op side operand) := by
  have marked (mark : String) (neutral : IsBalanced mark) : IsBalanced (mark ++ operand) :=
    neutral.append balanced
  unfold unaryText
  split
  · exact (isBalanced_steps balanced).1
  · exact (isBalanced_steps balanced).1
  · exact (isBalanced_steps balanced).2
  · exact (isBalanced_steps balanced).2
  · exact marked "!" (⟨rfl⟩)
  · exact marked "!" (⟨rfl⟩)
  · exact marked "-" (⟨rfl⟩)
  · exact balanced

theorem isBalanced_binary (one : IsBalanced left) (other : IsBalanced right) (op : BinaryOp) :
    IsBalanced ("(" ++ left ++ " " ++ op.spelling ++ " " ++ right ++ ")") := by
  have opened : Turns [] "(" [')'] := ⟨rfl⟩
  have blank : IsBalanced " " := ⟨rfl⟩
  have spelled : IsBalanced op.spelling := by cases op <;> exact ⟨rfl⟩
  have closed : Turns [')'] ")" [] := ⟨rfl⟩
  exact (((((opened.over one).over blank).over spelled).over blank).over other).append closed

theorem isBalanced_assign (one : IsBalanced left) (other : IsBalanced right) (op : AssignOp) :
    IsBalanced ("\x7b " ++ left ++ " " ++ op.spelling ++ " " ++ right ++ "; " ++ left ++ " \x7d") := by
  have opened : Turns [] "\x7b " ['\x7d'] := ⟨rfl⟩
  have blank : IsBalanced " " := ⟨rfl⟩
  have spelled : IsBalanced op.spelling := by cases op <;> exact ⟨rfl⟩
  have stop : IsBalanced "; " := ⟨rfl⟩
  have closed : Turns ['\x7d'] " \x7d" [] := ⟨rfl⟩
  exact (((((((opened.over one).over blank).over spelled).over blank).over other).over stop).over one).append closed

theorem isBalanced_ternary (tested : IsBalanced test) (one : IsBalanced first) (other : IsBalanced second) :
    IsBalanced ("if " ++ test ++ " \x7b " ++ first ++ " \x7d else \x7b " ++ second ++ " \x7d") := by
  have word : IsBalanced "if " := ⟨rfl⟩
  have opened : Turns [] " \x7b " ['\x7d'] := ⟨rfl⟩
  have between : Turns ['\x7d'] " \x7d else \x7b " ['\x7d'] := ⟨rfl⟩
  have closed : Turns ['\x7d'] " \x7d" [] := ⟨rfl⟩
  exact ((((Turns.append (word.append tested) opened).over one).append between).over other).append closed

theorem isBalanced_assemblyText {template clobbers : List String} (lines : ∀ text ∈ template, IsBalanced text)
    (clobbered : ∀ text ∈ clobbers, IsBalanced text) : IsBalanced (assemblyText template clobbers) := by
  have opened : Turns [] "::core::arch::asm!(" [')'] := ⟨rfl⟩
  have register : ∀ text ∈ clobbers, IsBalanced ("out(" ++ text ++ ") _") := fun text member =>
    isBalanced_enclosed (⟨rfl⟩ : Turns [] "out(" [')']) (clobbered text member) (⟨rfl⟩)
  unfold assemblyText
  refine isBalanced_enclosed opened (isBalanced_separated ?_) (⟨rfl⟩)
  simp only [List.forall_mem_append, List.forall_mem_cons, List.forall_mem_map, List.mem_filter]
  refine ⟨⟨lines, fun text member => register text member.1⟩, ⟨rfl⟩, ?_, by simp⟩
  split <;> exact ⟨rfl⟩

variable {lines more : List String}

theorem isBalanced_declarationText {type value : String} (named : IsBalanced name) (typed : IsBalanced type)
    (initial : IsBalanced value) (isStatic : Bool) : IsBalanced (declarationText isStatic name type value) := by
  have word : IsBalanced (if isStatic then "static mut " else "let mut ") := by cases isStatic <;> exact ⟨rfl⟩
  have colon : IsBalanced ": " := ⟨rfl⟩
  have equals : IsBalanced " = " := ⟨rfl⟩
  have stop : IsBalanced ";" := ⟨rfl⟩
  exact (((((word.append named).append colon).append typed).append equals).append initial).append stop

theorem linesTurn_choice (tested : IsBalanced test) (whenTrue : LinesTurn [] lines [])
    (whenFalse : LinesTurn [] more []) (hasElse : Bool) :
    LinesTurn []
      (("if " ++ test ++ " \x7b") :: indented lines ++
        (if hasElse then [] else "\x7d else \x7b" :: indented more) ++ ["\x7d"]) [] := by
  have word : IsBalanced "if " := ⟨rfl⟩
  have brace : Turns [] " \x7b" ['\x7d'] := ⟨rfl⟩
  have between : Turns ['\x7d'] "\x7d else \x7b" ['\x7d'] := ⟨rfl⟩
  have closed : Turns ['\x7d'] "\x7d" [] := ⟨rfl⟩
  have opened : Turns [] ("if " ++ test ++ " \x7b") ['\x7d'] := Turns.append (word.append tested) brace
  refine (LinesTurn.append (.cons opened (whenTrue.indented.inside ['\x7d'])) ?_).append closed.line
  split
  · exact .nil _
  · exact .cons between (whenFalse.indented.inside ['\x7d'])

theorem linesTurn_loop (inner : LinesTurn [] lines []) (tested : IsBalanced test) :
    LinesTurn []
      ("loop \x7b" ::
        indented (lines ++ ["if (" ++ test ++ " as u8) == 0 \x7b", indentStep ++ "break;", "\x7d"]) ++
          ["\x7d"]) [] := by
  have word : Turns [] "if (" [')'] := ⟨rfl⟩
  have brace : Turns [')'] " as u8) == 0 \x7b" ['\x7d'] := ⟨rfl⟩
  have leave : Turns ['\x7d'] (indentStep ++ "break;") ['\x7d'] := ⟨rfl⟩
  have closed : Turns ['\x7d'] "\x7d" [] := ⟨rfl⟩
  have stop : LinesTurn [] ["if (" ++ test ++ " as u8) == 0 \x7b", indentStep ++ "break;", "\x7d"] [] :=
    .cons ((word.over tested).append brace) (.cons leave closed.line)
  exact (inner.append stop).block (⟨rfl⟩) closed

end

variable {ts : List Token}

theorem PastedNames.isBalanced {fragments : List String} (h : PastedNames ts fragments)
    (balanced : ∀ t ∈ ts, t.lexeme.IsBalanced) : ∀ fragment ∈ fragments, IsBalanced fragment := by
  induction h with
  | nil => exact List.forall_mem_nil _
  | cons _ _ text _ ih =>
    simp only [List.forall_mem_cons] at balanced
    exact List.forall_mem_cons.mpr ⟨balanced.2.1, ih balanced.2.2⟩

theorem Names.isBalanced (h : Names ts ident) (balanced : ∀ t ∈ ts, t.lexeme.IsBalanced) : ident.IsBalanced := by
  cases h with
  | simple => exact balanced _ (List.mem_singleton.mpr rfl)
  | pasted _ text more =>
    obtain ⟨first, others⟩ := List.forall_mem_cons.mp balanced
    exact List.forall_mem_cons.mpr ⟨first, more.isBalanced others⟩

theorem TypeName.isBalanced (h : TypeName ts type) (balanced : ∀ t ∈ ts, t.lexeme.IsBalanced) :
    type.baseName.IsBalanced := by
  obtain ⟨-, -, -, names, -, pointers⟩ := h
  rw [pointers.baseName]
  exact names.isBalanced fun t member => balanced t (by simp [member])

theorem Pieces.isBalanced {pieces : List Expr} (h : Pieces ts pieces) (balanced : ∀ t ∈ ts, t.lexeme.IsBalanced) :
    ∀ text ∈ renderExprs naming pieces, IsBalanced text := by
  induction h with
  | nil => exact List.forall_mem_nil _
  | text pos text _ ih =>
    obtain ⟨first, others⟩ := List.forall_mem_cons.mp balanced
    unfold renderExprs Expr.render
    exact List.forall_mem_cons.mpr ⟨first, ih others⟩
  | mark pos namePos text _ ih =>
    have named : Ident.IsBalanced (.simple namePos text) := balanced ⟨.name text, namePos⟩ (by simp)
    have opened : Turns [] "::core::stringify!(" [')'] := ⟨rfl⟩
    unfold renderExprs Expr.render
    refine List.forall_mem_cons.mpr ⟨isBalanced_enclosed opened named.spelled (⟨rfl⟩), ih ?_⟩
    exact fun t member => balanced t (by simp [member])

theorem Template.isBalanced {lines : List String} (h : Template ts lines)
    (balanced : ∀ t ∈ ts, t.lexeme.IsBalanced) : ∀ line ∈ lines, IsBalanced line := by
  induction h with
  | nil => exact List.forall_mem_nil _
  | adjacent _ _ _ ih =>
    obtain ⟨first, others⟩ := List.forall_mem_cons.mp balanced
    exact List.forall_mem_cons.mpr ⟨first, ih others⟩
  | comma _ _ _ _ ih =>
    simp only [List.forall_mem_cons] at balanced
    exact List.forall_mem_cons.mpr ⟨balanced.2.1, ih balanced.2.2⟩

theorem MoreClobbers.isBalanced {texts : List String} (h : MoreClobbers ts texts)
    (balanced : ∀ t ∈ ts, t.lexeme.IsBalanced) : ∀ text ∈ texts, IsBalanced text := by
  induction h with
  | nil => exact List.forall_mem_nil _
  | cons _ _ _ _ ih =>
    simp only [List.forall_mem_cons] at balanced
    exact List.forall_mem_cons.mpr ⟨balanced.2.1, ih balanced.2.2⟩

theorem Clobbers.isBalanced {texts : List String} (h : Clobbers ts texts)
    (balanced : ∀ t ∈ ts, t.lexeme.IsBalanced) : ∀ text ∈ texts, IsBalanced text := by
  cases h with
  | none => exact List.forall_mem_nil _
  | some _ _ more =>
    obtain ⟨first, others⟩ := List.forall_mem_cons.mp balanced
    exact List.forall_mem_cons.mpr ⟨first, more.isBalanced others⟩

def Phrase.NamesBalanced : (phrase : Phrase) → phrase.Tree → Prop
  | .expr _, .name _ ident | .chain, .name _ ident => ident.IsBalanced
  | _, _ => True

theorem Derives.namesBalanced {phrase : Phrase} {tree : phrase.Tree} (h : Derives phrase ts tree)
    (balanced : ∀ t ∈ ts, t.lexeme.IsBalanced) : phrase.NamesBalanced tree := by
  induction h with
  | name names => exact names.isBalanced balanced
  | piece pieces => cases pieces <;> trivial
  | @parens _ e _ _ _ ih =>
    have inner := ih fun t member => balanced t (by simp [member])
    cases e <;> exact inner
  | @base _ e _ _ ih | @closed _ e _ _ ih | @chained _ e _ ih | @tighter _ e _ _ _ _ ih =>
    have inner := ih balanced
    cases e <;> exact inner
  | _ => trivial

/-- A tree whose text is balanced. The operands of assembly are not rendered, and a block may lose its braces. -/
def Phrase.IsBalanced (naming : Naming) : (phrase : Phrase) → phrase.Tree → Prop
  | .expr _, e | .chain, e => Brackets.IsBalanced (e.render naming)
  | .arguments, es => ∀ text ∈ renderArguments naming es, Brackets.IsBalanced text
  | .operand, _ | .operands, _ => True
  | .sections, parts => ∀ text ∈ parts.2.2, Brackets.IsBalanced text
  | .statement, s => LinesTurn [] (renderStmts naming (Parser.branchOf s)) []
  | .branch, ss | .statements, ss => LinesTurn [] (renderStmts naming ss) []

theorem renderArguments_append (naming : Naming) (es fs : List Expr) :
    renderArguments naming (es ++ fs) = renderArguments naming es ++ renderArguments naming fs := by
  induction es with
  | nil => rfl
  | cons e es ih => simp only [List.cons_append, renderArguments, ih]

theorem renderStmts_singleton (naming : Naming) (s : Stmt) : renderStmts naming [s] = s.render naming := by
  rw [renderStmts, renderStmts, List.append_nil]

theorem renderStmts_append (naming : Naming) (ss rs : List Stmt) :
    renderStmts naming (ss ++ rs) = renderStmts naming ss ++ renderStmts naming rs := by
  induction ss with
  | nil => rfl
  | cons s ss ih => simp only [List.cons_append, renderStmts, ih, List.append_assoc]

theorem linesTurn_of_branchOf {s : Stmt} (inner : LinesTurn [] (renderStmts naming (Parser.branchOf s)) []) :
    LinesTurn [] (s.render naming) [] := by
  cases s with
  | block =>
    unfold Stmt.render
    exact LinesTurn.block ⟨rfl⟩ inner ⟨rfl⟩
  | _ =>
    unfold Parser.branchOf at inner
    rwa [renderStmts_singleton] at inner

theorem isBalanced_bare {s : Stmt} (bare : ∀ pos body, s ≠ .block pos body)
    (lines : LinesTurn [] (s.render naming) []) : Phrase.statement.IsBalanced naming s := by
  have alone : Parser.branchOf s = [s] := by
    cases s with
    | block pos body => exact absurd rfl (bare pos body)
    | _ => rfl
  unfold Phrase.IsBalanced
  dsimp only
  rwa [alone, renderStmts_singleton]

theorem Derives.isBalanced {phrase : Phrase} {tree : phrase.Tree} (h : Derives phrase ts tree)
    (named : naming.IsBalanced) (balanced : ∀ t ∈ ts, t.lexeme.IsBalanced) : phrase.IsBalanced naming tree := by
  induction h with
  | name names =>
    have own := names.isBalanced balanced
    unfold Phrase.IsBalanced Expr.render
    exact own.value named
  | @number _ value _ pos text found =>
    have digits : Brackets.IsBalanced value.text := Number.isBalanced_ofText? found
    unfold Phrase.IsBalanced Expr.render
    exact digits
  | character pos text =>
    unfold Phrase.IsBalanced Expr.render
    exact balanced _ (List.mem_singleton.mpr rfl)
  | piece pieces => exact pieces.isBalanced balanced _ (List.mem_singleton.mpr rfl)
  | pieces pieces =>
    have opened : Turns [] "::core::concat!(" [')'] := ⟨rfl⟩
    unfold Phrase.IsBalanced Expr.render
    exact isBalanced_enclosed opened (isBalanced_separated (pieces.isBalanced balanced)) ⟨rfl⟩
  | parens _ _ _ ih => exact ih fun t member => balanced t (by simp [member])
  | base _ _ ih | closed _ _ ih | chained _ ih | tighter _ _ _ ih => exact ih balanced
  | call _ _ callee _ _ ih =>
    have name : Phrase.chain.NamesBalanced _ := callee.namesBalanced fun t member => balanced t (by simp [member])
    have arguments := ih fun t member => balanced t (by simp [member])
    unfold Phrase.IsBalanced Expr.render
    exact isBalanced_call (Ident.IsBalanced.spelled name) arguments
  | field _ _ _ names ih =>
    have name := names.isBalanced fun t member => balanced t (by simp [member])
    have operand := ih fun t member => balanced t (by simp [member])
    unfold Phrase.IsBalanced Expr.render
    exact isBalanced_field operand name.spelled
  | step _ _ _ ih =>
    have operand := ih fun t member => balanced t (by simp [member])
    unfold Phrase.IsBalanced Expr.render
    exact isBalanced_unaryText operand _ _
  | @assembly _ _ _ _ _ _ _ _ _ _ _ firstPos _ first _ _ _ more _ _ ih =>
    have opening : Brackets.IsBalanced first := balanced ⟨.string first, firstPos⟩ (by simp)
    have others := more.isBalanced fun t member => balanced t (by simp [member])
    have clobbered := ih fun t member => balanced t (by simp [member])
    unfold Phrase.IsBalanced Expr.render
    exact isBalanced_assemblyText (List.forall_mem_cons.mpr ⟨opening, others⟩) clobbered
  | cast _ _ type _ ih =>
    have typed := type.isBalanced fun t member => balanced t (by simp [member])
    have operand := ih fun t member => balanced t (by simp [member])
    unfold Phrase.IsBalanced Expr.render
    dsimp only
    split
    · have opened : Turns [] "\x7b drop(" [')', '\x7d'] := ⟨rfl⟩
      exact isBalanced_enclosed opened operand ⟨rfl⟩
    · exact isBalanced_cast operand (isBalanced_type typed)
  | addressOf _ _ ih =>
    have operand := ih fun t member => balanced t (by simp [member])
    have opened : Turns [] "::core::ptr::addr_of_mut!(" [')'] := ⟨rfl⟩
    unfold Phrase.IsBalanced Expr.render
    exact isBalanced_enclosed opened operand ⟨rfl⟩
  | before _ _ _ ih =>
    have operand := ih fun t member => balanced t (by simp [member])
    unfold Phrase.IsBalanced Expr.render
    exact isBalanced_unaryText operand _ _
  | binary _ _ _ _ ih ih' =>
    have left := ih fun t member => balanced t (by simp [member])
    have right := ih' fun t member => balanced t (by simp [member])
    unfold Phrase.IsBalanced Expr.render
    exact isBalanced_binary left right _
  | ternary _ _ _ _ _ ih ih' ih'' =>
    have test := ih fun t member => balanced t (by simp [member])
    have first := ih' fun t member => balanced t (by simp [member])
    have second := ih'' fun t member => balanced t (by simp [member])
    unfold Phrase.IsBalanced Expr.render
    exact isBalanced_ternary test first second
  | assign _ _ _ _ ih ih' =>
    have target := ih fun t member => balanced t (by simp [member])
    have value := ih' fun t member => balanced t (by simp [member])
    unfold Phrase.IsBalanced Expr.render
    exact isBalanced_assign target value _
  | noArguments => exact List.forall_mem_nil _
  | argument _ ih =>
    have text : Brackets.IsBalanced _ := ih balanced
    exact List.forall_mem_singleton.mpr (isBalanced_argumentText text _)
  | moreArguments _ _ _ _ ih ih' =>
    have front := ih fun t member => balanced t (by simp [member])
    have text : Brackets.IsBalanced _ := ih' fun t member => balanced t (by simp [member])
    unfold Phrase.IsBalanced
    dsimp only
    rw [renderArguments_append]
    exact List.forall_mem_append.mpr ⟨front, List.forall_mem_singleton.mpr (isBalanced_argumentText text _)⟩
  | operand | noOperands | oneOperand | moreOperands => trivial
  | noSections | outputs | inputs => exact List.forall_mem_nil _
  | clobbers _ _ _ _ _ clobbered => exact clobbered.isBalanced fun t member => balanced t (by simp [member])
  | block _ _ _ ih => exact ih fun t member => balanced t (by simp [member])
  | choice _ _ _ _ _ ih ih' =>
    have test := ih fun t member => balanced t (by simp [member])
    have whenTrue := ih' fun t member => balanced t (by simp [member])
    apply isBalanced_bare (by simp)
    unfold Stmt.render
    exact linesTurn_choice test whenTrue (.nil _) true
  | @choiceElse _ _ _ _ _ other _ _ _ _ _ _ _ ih ih' ih'' =>
    have test := ih fun t member => balanced t (by simp [member])
    have whenTrue := ih' fun t member => balanced t (by simp [member])
    have whenFalse := ih'' fun t member => balanced t (by simp [member])
    apply isBalanced_bare (by simp)
    unfold Stmt.render
    exact linesTurn_choice test whenTrue whenFalse other.isEmpty
  | loop _ _ _ _ _ _ _ ih ih' =>
    have inner := ih fun t member => balanced t (by simp [member])
    have test := ih' fun t member => balanced t (by simp [member])
    apply isBalanced_bare (by simp)
    unfold Stmt.render
    exact linesTurn_loop inner test
  | declare _ _ _ _ typed _ _ names _ ih =>
    have type := typed.isBalanced fun t member => balanced t (by simp [member])
    have name := names.isBalanced fun t member => balanced t (by simp [member])
    have initial := ih fun t member => balanced t (by simp [member])
    apply isBalanced_bare (by simp)
    unfold Stmt.render
    exact Turns.line (isBalanced_declarationText name.spelled (isBalanced_type type) initial _)
  | eval _ _ ih =>
    have value : Brackets.IsBalanced _ := ih fun t member => balanced t (by simp [member])
    apply isBalanced_bare (by simp)
    unfold Stmt.render
    exact Turns.line (value.append ⟨rfl⟩)
  | splicedBranch _ ih => exact ih balanced
  | bareBranch _ _ ih =>
    have inner : LinesTurn [] _ [] := linesTurn_of_branchOf (ih balanced)
    unfold Phrase.IsBalanced
    dsimp only
    rwa [renderStmts_singleton]
  | noStatements => exact .nil _
  | moreStatements _ _ ih ih' =>
    have front : LinesTurn [] _ [] := ih fun t member => balanced t (by simp [member])
    have last := linesTurn_of_branchOf (ih' fun t member => balanced t (by simp [member]))
    unfold Phrase.IsBalanced
    dsimp only
    rw [renderStmts_append, renderStmts_singleton]
    exact front.append last

end MacroLift
