import MacroLift.Proofs.Rust.Forms

namespace MacroLift

open Lexeme (isNameStart isNameChar)

variable {naming : Naming} {name other : String} {rest rest' : List Char} {e f : Expr}

theorem type_of_unlisted {pos place : Pos} {isStruct : Bool} (unlisted : Rust.typeNames.lookup name = none) :
    naming.type (.named pos (.simple place name) isStruct) = naming.spell name := by
  rw [Naming.type, unlisted]
  rfl

theorem letters_pointer (pos : Pos) (pointee : CType) (isMutable : Bool) (rest : List Char) :
    (naming.type (.pointer pos pointee isMutable)).toList ++ rest =
      '*' :: ((if isMutable then "mut " else "const ").toList ++ ((naming.type pointee).toList ++ rest)) := by
  rw [Naming.type, String.toList_append, List.append_assoc]
  cases isMutable <;> rfl

section

variable (noVariadic : variadicName ∉ naming.captures)

include noVariadic

theorem spell_append_inj (isName : IsPlainName name) (isName' : IsPlainName other)
    (outside : ∀ c ∈ rest.head?, isSpellingChar c = false) (outside' : ∀ c ∈ rest'.head?, isSpellingChar c = false)
    (same : (naming.spell name).toList ++ rest = (naming.spell other).toList ++ rest') :
    name = other ∧ rest = rest' := by
  obtain ⟨word, behind⟩ := Text.run_append_inj (spell_letters noVariadic isName) outside
    (spell_letters noVariadic isName') outside' same
  exact ⟨spell_inj noVariadic isName isName' word, behind⟩

theorem spell_ne_pointer (isName : IsPlainName name) : (naming.spell name).toList ++ rest ≠ '*' :: rest' := by
  intro same
  obtain ⟨c, cs, whole, first⟩ := spell_first noVariadic isName
  rw [whole] at same
  cases same
  rcases first with start | start <;> cases start

theorem IsPlainType.append_inj {type other : CType} (isType : IsPlainType type) (isType' : IsPlainType other)
    (same : (naming.type type).toList ++ ')' :: rest = (naming.type other).toList ++ ')' :: rest') :
    type.untagged.unplaced = other.untagged.unplaced ∧ rest = rest' := by
  induction isType generalizing other with
  | named isName unlisted =>
    rw [type_of_unlisted unlisted] at same
    cases isType' with
    | named isName' unlisted' =>
      rw [type_of_unlisted unlisted'] at same
      obtain ⟨rfl, behind⟩ :=
        spell_append_inj noVariadic isName isName' (outside_cons rfl _) (outside_cons rfl _) same
      exact ⟨rfl, List.tail_eq_of_cons_eq behind⟩
    | pointer _ =>
      rw [letters_pointer] at same
      exact absurd same (spell_ne_pointer noVariadic isName)
  | @pointer _ pointee isMutable _ ih =>
    rw [letters_pointer] at same
    cases isType' with
    | named isName' unlisted' =>
      rw [type_of_unlisted unlisted'] at same
      exact absurd same.symm (spell_ne_pointer noVariadic isName')
    | @pointer _ pointee' isMutable' inner' =>
      rw [letters_pointer] at same
      have behind := List.tail_eq_of_cons_eq same
      have sameKind : isMutable = isMutable' := by
        cases isMutable <;> cases isMutable' <;> first | rfl | cases behind
      subst sameKind
      obtain ⟨inner, left⟩ := ih inner' (List.append_cancel_left behind)
      refine ⟨?_, left⟩
      rw [CType.untagged, CType.unplaced, inner]
      rfl

end

theorem blank_append_inj {word word' : List Char} (noBlank : ∀ c ∈ word, (c != ' ') = true)
    (noBlank' : ∀ c ∈ word', (c != ' ') = true) (same : word ++ ' ' :: rest = word' ++ ' ' :: rest') :
    word = word' ∧ rest = rest' := by
  obtain ⟨run, behind⟩ :=
    Text.run_append_inj noBlank (outside_cons rfl rest) noBlank' (outside_cons rfl rest') same
  exact ⟨run, List.tail_eq_of_cons_eq behind⟩

theorem BinaryOp.append_inj {op op' : BinaryOp}
    (same : op.spelling.toList ++ ' ' :: rest = op'.spelling.toList ++ ' ' :: rest') : op = op' ∧ rest = rest' := by
  have noBlank : ∀ op : BinaryOp, ∀ c ∈ op.spelling.toList, (c != ' ') = true := by
    intro op
    cases op <;> exact List.all_eq_true.mp rfl
  obtain ⟨word, behind⟩ := blank_append_inj (noBlank op) (noBlank op') same
  refine ⟨?_, behind⟩
  cases op <;> cases op' <;> first | rfl | cases word

theorem AssignOp.append_inj {op op' : AssignOp}
    (same : op.spelling.toList ++ ' ' :: rest = op'.spelling.toList ++ ' ' :: rest') : op = op' ∧ rest = rest' := by
  have noBlank : ∀ op : AssignOp, ∀ c ∈ op.spelling.toList, (c != ' ') = true := by
    intro op
    cases op <;> exact List.all_eq_true.mp rfl
  obtain ⟨word, behind⟩ := blank_append_inj (noBlank op) (noBlank op') same
  refine ⟨?_, behind⟩
  cases op <;> cases op' <;> first | rfl | cases word

/-- What the text of a tree says about the tree. -/
def Expr.IsTold (naming : Naming) (e : Expr) : Prop :=
  ∀ ⦃f : Expr⦄ ⦃rest rest' : List Char⦄, IsFormula naming f → Ends rest → Ends rest' →
    e.letters naming ++ rest = f.letters naming ++ rest' → e.SameTree f ∧ rest = rest'

section

variable {pos place : Pos}

theorem argumentLetters_name (noVariadic : variadicName ∉ naming.captures) (isName : IsPlainName name)
    (notNull : name ≠ "NULL") (unlisted : naming.valueNames.lookup name = none) (rest : List Char) :
    (Expr.name pos (.simple place name)).argumentLetters naming ++ rest =
      (naming.spell name).toList ++ '.' :: ("into()".toList ++ rest) := by
  have same : (Expr.name pos (.simple place name)).render naming = naming.spell name :=
    String.toList_injective (letters_name unlisted)
  have convertible : (Expr.name pos (.simple place name)).isConvertible = true := bne_iff_ne.mpr notNull
  have single : naming.spell name ≠ Naming.variadicReference := by
    intro reference
    have letters := spell_letters noVariadic isName
    rw [reference] at letters
    exact absurd (letters '(' (by decide)) (by decide)
  rw [Expr.argumentLetters, same, convertible, argumentText, if_pos rfl, if_neg single, String.toList_append,
    List.append_assoc]
  rfl

theorem argumentLetters_of_not_isConvertible (plain : e.isConvertible = false) :
    e.argumentLetters naming = e.letters naming := by
  rw [Expr.argumentLetters, plain]
  rfl

/-- A cast and an operation both stand in parentheses; no operator is spelled like the word of a cast. -/
theorem cast_ne_binary {target : CType} {left right : Expr} {op : BinaryOp} (isType : IsPlainType target)
    (told : e.IsTold naming) (first : IsFormula naming left) :
    (Expr.cast pos target e).letters naming ++ rest ≠ (Expr.binary place op left right).letters naming ++ rest' := by
  rw [letters_cast isType.isVoid, letters_binary]
  intro same
  obtain ⟨-, behind⟩ := told first (ends_cons rfl _) (ends_cons rfl _) (List.tail_eq_of_cons_eq same)
  cases op <;> cases List.tail_eq_of_cons_eq behind

theorem binary_ne_cast {target : CType} {left right : Expr} {op : BinaryOp} (isType : IsPlainType target)
    (told : left.IsTold naming) (inner : IsFormula naming e) :
    (Expr.binary place op left right).letters naming ++ rest ≠ (Expr.cast pos target e).letters naming ++ rest' := by
  rw [letters_cast isType.isVoid, letters_binary]
  intro same
  obtain ⟨-, behind⟩ := told inner (ends_cons rfl _) (ends_cons rfl _) (List.tail_eq_of_cons_eq same)
  cases op <;> cases List.tail_eq_of_cons_eq behind

end

theorem number_told {pos pos' : Pos} {value value' : Number}
    (isLiteral : ∃ text marks, Number.ofText? text = some { value with marks })
    (isLiteral' : ∃ text marks, Number.ofText? text = some { value' with marks }) (ends : Ends rest)
    (ends' : Ends rest') (same : value.text.toList ++ rest = value'.text.toList ++ rest') :
    (Expr.number pos value).SameTree (.number pos' value') ∧ rest = rest' := by
  obtain ⟨text, marks, read⟩ := isLiteral
  obtain ⟨text', marks', read'⟩ := isLiteral'
  have written := Number.written_of_ofText? read
  have written' := Number.written_of_ofText? read'
  obtain ⟨run, behind⟩ :=
    Text.run_append_inj written.letters (ends.outside rfl) written'.letters (ends'.outside rfl) same
  have sameText : value.text = value'.text := String.toList_injective run
  have sameKind : value.isFloat = value'.isFloat := by
    refine WrittenNumber.unique written ?_
    rw [run]
    exact written'
  refine ⟨?_, behind⟩
  show Expr.number nowhere { value with marks := .plain } = .number nowhere { value' with marks := .plain }
  rw [sameText, sameKind]

theorem IsFormula.argument_cases (formula : IsFormula naming e) :
    (∃ pos place name, e = .name pos (.simple place name) ∧ IsPlainName name ∧ name ≠ "NULL" ∧
      naming.valueNames.lookup name = none) ∨ e.isConvertible = false ∧ e.form ≠ .name := by
  cases formula with
  | name isName notNull unlisted => exact .inl ⟨_, _, _, rfl, isName, notNull, unlisted⟩
  | _ => exact .inr ⟨rfl, nofun⟩

theorem ends_moreArgumentLetters (es : List Expr) (rest : List Char) : Ends (moreArgumentLetters naming es rest) := by
  cases es <;> exact ends_cons rfl _

section

variable (noVariadic : variadicName ∉ naming.captures)

include noVariadic

theorem IsFormula.form_eq (formula : IsFormula naming e) (formula' : IsFormula naming f) (ends : Ends rest)
    (ends' : Ends rest') (same : e.letters naming ++ rest = f.letters naming ++ rest') : e.form = f.form := by
  rw [← formula.ofLetters noVariadic ends, same, formula'.ofLetters noVariadic ends']

theorem IsFormula.ofLetters_argument (formula : IsFormula naming e) (ends : Ends rest) :
    Form.ofLetters (e.argumentLetters naming ++ rest) = e.form := by
  rcases formula.argument_cases with ⟨pos, place, name, rfl, isName, notNull, unlisted⟩ | ⟨plain, -⟩
  · rw [argumentLetters_name noVariadic isName notNull unlisted,
      ofLetters_spell noVariadic isName (outside_cons rfl _)]
    rfl
  · rw [argumentLetters_of_not_isConvertible plain]
    exact formula.ofLetters noVariadic ends

theorem Expr.IsTold.argument (told : e.IsTold naming) (formula : IsFormula naming e) (formula' : IsFormula naming f)
    (ends : Ends rest) (ends' : Ends rest')
    (same : e.argumentLetters naming ++ rest = f.argumentLetters naming ++ rest') : e.SameTree f ∧ rest = rest' := by
  have form := congrArg Form.ofLetters same
  rw [formula.ofLetters_argument noVariadic ends, formula'.ofLetters_argument noVariadic ends'] at form
  rcases formula.argument_cases with ⟨pos, place, name, rfl, isName, notNull, unlisted⟩ | ⟨plain, other⟩
  · rcases formula'.argument_cases with ⟨pos', place', name', rfl, isName', notNull', unlisted'⟩ | ⟨-, other'⟩
    · rw [argumentLetters_name noVariadic isName notNull unlisted,
        argumentLetters_name noVariadic isName' notNull' unlisted'] at same
      obtain ⟨rfl, behind⟩ :=
        spell_append_inj noVariadic isName isName' (outside_cons rfl _) (outside_cons rfl _) same
      exact ⟨rfl, List.append_cancel_left (List.tail_eq_of_cons_eq behind)⟩
    · exact absurd form.symm other'
  · rcases formula'.argument_cases with ⟨pos', place', name', rfl, -⟩ | ⟨plain', -⟩
    · exact absurd form other
    · rw [argumentLetters_of_not_isConvertible plain, argumentLetters_of_not_isConvertible plain'] at same
      exact told formula' ends ends' same

variable {es fs : List Expr}

theorem moreArguments_told (each : ∀ e ∈ es, IsFormula naming e) (told : ∀ e ∈ es, e.IsTold naming)
    (each' : ∀ f ∈ fs, IsFormula naming f)
    (same : moreArgumentLetters naming es rest = moreArgumentLetters naming fs rest') :
    unplacedExprs (unmarkedExprs es) = unplacedExprs (unmarkedExprs fs) ∧ rest = rest' := by
  induction es generalizing fs with
  | nil =>
    cases fs with
    | nil => exact ⟨rfl, List.tail_eq_of_cons_eq same⟩
    | cons => cases same
  | cons e es ih =>
    cases fs with
    | nil => cases same
    | cons f fs =>
      rw [List.forall_mem_cons] at each told each'
      have behind := List.tail_eq_of_cons_eq (List.tail_eq_of_cons_eq same)
      obtain ⟨first, left⟩ := told.1.argument noVariadic each.1 each'.1 (ends_moreArgumentLetters es rest)
        (ends_moreArgumentLetters fs rest') behind
      obtain ⟨more, left⟩ := ih each.2 told.2 each'.2 left
      exact ⟨congrArg₂ List.cons first more, left⟩

theorem arguments_told (each : ∀ e ∈ es, IsFormula naming e) (told : ∀ e ∈ es, e.IsTold naming)
    (each' : ∀ f ∈ fs, IsFormula naming f)
    (same : argumentListLetters naming es rest = argumentListLetters naming fs rest') :
    unplacedExprs (unmarkedExprs es) = unplacedExprs (unmarkedExprs fs) ∧ rest = rest' := by
  have notClosed {f : Expr} {fs : List Expr} {rest rest' : List Char} (formula : IsFormula naming f) :
      ')' :: rest ≠ argumentListLetters naming (f :: fs) rest' := by
    intro same
    have form := congrArg Form.ofLetters same
    rw [argumentListLetters, formula.ofLetters_argument noVariadic (ends_moreArgumentLetters fs rest')]
      at form
    cases formula <;> cases form
  cases es with
  | nil =>
    cases fs with
    | nil => exact ⟨rfl, List.tail_eq_of_cons_eq same⟩
    | cons f fs => exact absurd same (notClosed (each' f List.mem_cons_self))
  | cons e es =>
    cases fs with
    | nil => exact absurd same.symm (notClosed (each e List.mem_cons_self))
    | cons f fs =>
      apply moreArguments_told noVariadic each told each'
      exact congrArg (',' :: ' ' :: ·) same

variable {pos place : Pos}

theorem isTold_name (isName : IsPlainName name) (notNull : name ≠ "NULL")
    (unlisted : naming.valueNames.lookup name = none) :
    (Expr.name pos (.simple place name)).IsTold naming := by
  intro f rest rest' formula' ends ends' same
  have form := (IsFormula.name isName notNull unlisted).form_eq noVariadic formula' ends ends' same
  cases formula' with
  | name isName' _ unlisted' =>
    rw [letters_name unlisted, letters_name unlisted'] at same
    obtain ⟨rfl, behind⟩ := spell_append_inj noVariadic isName isName' (ends.outside rfl) (ends'.outside rfl) same
    exact ⟨rfl, behind⟩
  | _ => cases form

theorem isTold_number {value : Number} (isLiteral : ∃ text marks, Number.ofText? text = some { value with marks }) :
    (Expr.number pos value).IsTold naming := by
  intro f rest rest' formula' ends ends' same
  have form := (IsFormula.number isLiteral).form_eq noVariadic formula' ends ends' same
  cases formula' with
  | number isLiteral' => exact number_told isLiteral isLiteral' ends ends' same
  | _ => cases form

theorem isTold_call (isName : IsPlainName name) (each : ∀ e ∈ es, IsFormula naming e)
    (told : ∀ e ∈ es, e.IsTold naming) : (Expr.call pos (.simple place name) es).IsTold naming := by
  intro f rest rest' formula' ends ends' same
  have form := (IsFormula.call isName each).form_eq noVariadic formula' ends ends' same
  cases formula' with
  | call isName' each' =>
    rw [letters_call, letters_call] at same
    obtain ⟨rfl, behind⟩ :=
      spell_append_inj noVariadic isName isName' (outside_cons rfl _) (outside_cons rfl _) same
    obtain ⟨arguments, left⟩ := arguments_told noVariadic each told each' (List.tail_eq_of_cons_eq behind)
    exact ⟨congrArg (Expr.call nowhere (.simple nowhere _)) arguments, left⟩
  | _ => cases form

theorem isTold_negation (inner : IsFormula naming e) (told : e.IsTold naming) :
    (Expr.unary pos .negate .before e).IsTold naming := by
  intro f rest rest' formula' ends ends' same
  have form := (IsFormula.negation inner).form_eq noVariadic formula' ends ends' same
  cases formula' with
  | negation inner' =>
    rw [letters_negation, letters_negation] at same
    obtain ⟨operand, left⟩ := told inner' ends ends' (List.tail_eq_of_cons_eq same)
    exact ⟨congrArg (Expr.unary nowhere .negate .before) operand, left⟩
  | _ => cases form

theorem isTold_addressOf (inner : IsFormula naming e) (told : e.IsTold naming) :
    (Expr.addressOf pos e).IsTold naming := by
  intro f rest rest' formula' ends ends' same
  have form := (IsFormula.addressOf inner).form_eq noVariadic formula' ends ends' same
  cases formula' with
  | addressOf inner' =>
    rw [letters_addressOf, letters_addressOf] at same
    obtain ⟨operand, behind⟩ := told inner' (ends_cons rfl _) (ends_cons rfl _) (List.append_cancel_left same)
    exact ⟨congrArg (Expr.addressOf nowhere) operand, List.tail_eq_of_cons_eq behind⟩
  | _ => cases form

theorem isTold_cast {target : CType} (isType : IsPlainType target) (inner : IsFormula naming e)
    (told : e.IsTold naming) : (Expr.cast pos target e).IsTold naming := by
  intro f rest rest' formula' ends ends' same
  have form := (IsFormula.cast isType inner).form_eq noVariadic formula' ends ends' same
  cases formula' with
  | cast isType' inner' =>
    rw [letters_cast isType.isVoid, letters_cast isType'.isVoid] at same
    obtain ⟨operand, behind⟩ := told inner' (ends_cons rfl _) (ends_cons rfl _) (List.tail_eq_of_cons_eq same)
    have behind := List.append_cancel_left (List.tail_eq_of_cons_eq behind)
    obtain ⟨type, left⟩ := isType.append_inj noVariadic isType' (List.tail_eq_of_cons_eq behind)
    exact ⟨congrArg₂ (Expr.cast nowhere) type operand, left⟩
  | binary first' _ => exact absurd same (cast_ne_binary isType told first')
  | _ => cases form

theorem isTold_binary {op : BinaryOp} {left right : Expr} (first : IsFormula naming left)
    (second : IsFormula naming right) (toldFirst : left.IsTold naming) (toldSecond : right.IsTold naming) :
    (Expr.binary pos op left right).IsTold naming := by
  intro f rest rest' formula' ends ends' same
  have form := (IsFormula.binary first second).form_eq noVariadic formula' ends ends' same
  cases formula' with
  | cast isType' inner' => exact absurd same (binary_ne_cast isType' toldFirst inner')
  | binary first' second' =>
    rw [letters_binary, letters_binary] at same
    obtain ⟨left, behind⟩ := toldFirst first' (ends_cons rfl _) (ends_cons rfl _) (List.tail_eq_of_cons_eq same)
    obtain ⟨rfl, behindOp⟩ := BinaryOp.append_inj (List.tail_eq_of_cons_eq behind)
    obtain ⟨right, closing⟩ := toldSecond second' (ends_cons rfl _) (ends_cons rfl _) behindOp
    exact ⟨congrArg₂ (Expr.binary nowhere op) left right, List.tail_eq_of_cons_eq closing⟩
  | _ => cases form

theorem isTold_ternary {condition whenTrue whenFalse : Expr} (test : IsFormula naming condition)
    (first : IsFormula naming whenTrue) (second : IsFormula naming whenFalse) (toldTest : condition.IsTold naming)
    (toldFirst : whenTrue.IsTold naming) (toldSecond : whenFalse.IsTold naming) :
    (Expr.ternary pos condition whenTrue whenFalse).IsTold naming := by
  intro f rest rest' formula' ends ends' same
  have form := (IsFormula.ternary test first second).form_eq noVariadic formula' ends ends' same
  cases formula' with
  | ternary test' first' second' =>
    rw [letters_ternary, letters_ternary] at same
    obtain ⟨condition, behindTest⟩ :=
      toldTest test' (ends_cons rfl _) (ends_cons rfl _) (List.append_cancel_left same)
    obtain ⟨whenTrue, behindFirst⟩ := toldFirst first' (ends_cons rfl _) (ends_cons rfl _)
      (List.append_cancel_left (List.tail_eq_of_cons_eq behindTest))
    obtain ⟨whenFalse, closing⟩ := toldSecond second' (ends_cons rfl _) (ends_cons rfl _)
      (List.append_cancel_left (List.tail_eq_of_cons_eq behindFirst))
    refine ⟨?_, List.tail_eq_of_cons_eq (List.tail_eq_of_cons_eq closing)⟩
    show Expr.ternary nowhere _ _ _ = .ternary nowhere _ _ _
    congr 1
  | _ => cases form

theorem isTold_assign {op : AssignOp} {target value : Expr} (first : IsFormula naming target)
    (second : IsFormula naming value) (toldFirst : target.IsTold naming) (toldSecond : value.IsTold naming) :
    (Expr.assign pos op target value).IsTold naming := by
  intro f rest rest' formula' ends ends' same
  have form := (IsFormula.assign first second).form_eq noVariadic formula' ends ends' same
  cases formula' with
  | assign first' second' =>
    rw [letters_assign, letters_assign] at same
    obtain ⟨target, behind⟩ := toldFirst first' (ends_cons rfl _) (ends_cons rfl _) (List.append_cancel_left same)
    obtain ⟨rfl, behindOp⟩ := AssignOp.append_inj (List.tail_eq_of_cons_eq behind)
    obtain ⟨value, again⟩ := toldSecond second' (ends_cons rfl _) (ends_cons rfl _) behindOp
    -- the text of an assignment ends in its target once more
    obtain ⟨-, closing⟩ := toldFirst first' (ends_cons rfl _) (ends_cons rfl _)
      (List.tail_eq_of_cons_eq (List.tail_eq_of_cons_eq again))
    exact ⟨congrArg₂ (Expr.assign nowhere op) target value,
      List.tail_eq_of_cons_eq (List.tail_eq_of_cons_eq closing)⟩
  | _ => cases form

theorem IsFormula.isTold (formula : IsFormula naming e) : e.IsTold naming := by
  induction formula with
  | name isName notNull unlisted => exact isTold_name noVariadic isName notNull unlisted
  | number isLiteral => exact isTold_number noVariadic isLiteral
  | call isName each ih => exact isTold_call noVariadic isName each ih
  | cast isType inner ih => exact isTold_cast noVariadic isType inner ih
  | negation inner ih => exact isTold_negation noVariadic inner ih
  | addressOf inner ih => exact isTold_addressOf noVariadic inner ih
  | binary first second ih ih' => exact isTold_binary noVariadic first second ih ih'
  | ternary test first second ih ih' ih'' => exact isTold_ternary noVariadic test first second ih ih' ih''
  | assign first second ih ih' => exact isTold_assign noVariadic first second ih ih'

end

/-- Two formulas with the same text are the same tree. -/
theorem render_keeps_grouping {first second : Expr} (noVariadic : variadicName ∉ naming.captures)
    (formula : IsFormula naming first) (formula' : IsFormula naming second)
    (same : first.render naming = second.render naming) : first.SameTree second := by
  have letters : first.letters naming ++ [] = second.letters naming ++ [] :=
    congrArg (·.toList ++ []) same
  exact (formula.isTold noVariadic formula' ends_nil ends_nil letters).1

theorem render_keeps_grouping_marks :
    (Expr.cast ⟨1, 1⟩ (.pointer ⟨1, 1⟩ (.named ⟨1, 9⟩ (.simple ⟨1, 9⟩ "T") true) true)
      (.call ⟨1, 13⟩ (.simple ⟨1, 13⟩ "f")
        [.name ⟨1, 15⟩ (.simple ⟨1, 15⟩ "x"), .number ⟨1, 18⟩ ⟨"1", ⟨true, none⟩, false⟩])).SameTree
      (.cast ⟨2, 1⟩ (.pointer ⟨2, 1⟩ (.named ⟨2, 2⟩ (.simple ⟨2, 2⟩ "T") false) true)
        (.call ⟨2, 6⟩ (.simple ⟨2, 6⟩ "f")
          [.name ⟨2, 8⟩ (.simple ⟨2, 8⟩ "x"), .number ⟨2, 11⟩ ⟨"1", .plain, false⟩])) := by
  have name {c : Char} (start : isNameStart c = true) (word : isNameChar c = true)
      (notKeyword : Keyword.ofSpelling? (.ofList [c]) = none) : IsPlainName (.ofList [c]) :=
    ⟨⟨c, [], String.toList_ofList, start⟩, by simpa using word, notKeyword⟩
  have one : Number.ofText? "1" = some ⟨"1", .plain, false⟩ := by decide +kernel
  have formula (place typePlace callPlace namePlace numberPlace : Pos) (isStruct : Bool) (marks : Marks) :
      IsFormula ⟨["x"], Rust.valueNames⟩
        (.cast place (.pointer place (.named typePlace (.simple typePlace "T") isStruct) true)
          (.call callPlace (.simple callPlace "f")
            [.name namePlace (.simple namePlace "x"), .number numberPlace ⟨"1", marks, false⟩])) := by
    have argument : IsFormula ⟨["x"], Rust.valueNames⟩ (.name namePlace (.simple namePlace "x")) :=
      .name (name rfl rfl rfl) (by decide) (by decide)
    have number : IsFormula ⟨["x"], Rust.valueNames⟩ (.number numberPlace ⟨"1", marks, false⟩) :=
      .number ⟨"1", .plain, one⟩
    refine .cast (.pointer (.named (name rfl rfl rfl) (by decide))) (.call (name rfl rfl rfl) ?_)
    exact List.forall_mem_cons.mpr ⟨argument, List.forall_mem_singleton.mpr number⟩
  exact render_keeps_grouping (by decide) (formula ⟨1, 1⟩ ⟨1, 9⟩ ⟨1, 13⟩ ⟨1, 15⟩ ⟨1, 18⟩ true ⟨true, none⟩)
    (formula ⟨2, 1⟩ ⟨2, 2⟩ ⟨2, 6⟩ ⟨2, 8⟩ ⟨2, 11⟩ false .plain) rfl

end MacroLift
