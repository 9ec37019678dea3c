import MacroLift.Proofs.Rust.Formula

namespace MacroLift

open Lexeme (isNameStart isNameChar isNumberChar isSign)

variable {naming : Naming} {name other : String} {text rest rest' : List Char} {c : Char} {e f : Expr}

theorem not_isDigit_of_isNameStart (start : isNameStart c = true) : c.isDigit = false := by
  rw [Bool.eq_false_iff]
  intro isDigit
  cases (Lexeme.not_startsNumber_of_isNameStart start).symm.trans (startsNumber_of_isDigit isDigit []).1

def isSpellingChar (c : Char) : Bool :=
  isNameChar c || c == '$'

def isEndingChar (c : Char) : Bool :=
  c == ' ' || c == ')' || c == ',' || c == ';'

def Ends (rest : List Char) : Prop :=
  ∀ c ∈ rest.head?, isEndingChar c = true

theorem ends_cons (isEnding : isEndingChar c = true) (rest : List Char) : Ends (c :: rest) := by
  rintro _ ⟨⟩
  exact isEnding

theorem ends_nil : Ends [] := by
  rintro _ ⟨⟩

theorem outside_cons {p : Char → Bool} (apart : p c = false) (rest : List Char) :
    ∀ d ∈ (c :: rest).head?, p d = false := by
  rintro _ ⟨⟩
  exact apart

theorem Ends.outside {p : Char → Bool} (ends : Ends rest) (apart : [' ', ')', ',', ';'].any p = false) :
    ∀ c ∈ rest.head?, p c = false := by
  intro c head
  have isEnding := ends c head
  simp only [isEndingChar, Bool.or_eq_true, beq_iff_eq] at isEnding
  have none := List.any_eq_false.mp apart c
  rcases isEnding with ((rfl | rfl) | rfl) | rfl <;> simpa using none (by simp)

section

variable (noVariadic : variadicName ∉ naming.captures)

include noVariadic

theorem spell_cases (name : String) :
    (naming.spell name).toList = name.toList ∨ (naming.spell name).toList = '$' :: name.toList := by
  unfold Naming.spell
  split
  · rename_i captured
    have notVariadic : name ≠ variadicName := by
      rintro rfl
      exact noVariadic (by simpa using captured)
    rw [if_neg notVariadic, String.toList_append]
    exact .inr rfl
  · exact .inl rfl

theorem spell_letters (isName : IsPlainName name) : ∀ c ∈ (naming.spell name).toList, isSpellingChar c = true := by
  have word : ∀ c ∈ name.toList, isSpellingChar c = true := by
    intro c member
    rw [isSpellingChar, isName.word c member, Bool.true_or]
  rcases spell_cases noVariadic name with same | same
  · rwa [same]
  · rw [same]
    exact List.forall_mem_cons.mpr ⟨rfl, word⟩

theorem spell_first (isName : IsPlainName name) :
    ∃ c rest, (naming.spell name).toList = c :: rest ∧ (isNameStart c = true ∨ c = '$') := by
  rcases spell_cases noVariadic name with same | same
  · obtain ⟨c, rest, whole, start⟩ := isName.start
    exact ⟨c, rest, same.trans whole, .inl start⟩
  · exact ⟨'$', name.toList, same, .inr rfl⟩

theorem spell_inj (isName : IsPlainName name) (isName' : IsPlainName other)
    (same : (naming.spell name).toList = (naming.spell other).toList) : name = other := by
  have noMark : ∀ {word more : String}, IsPlainName word → word.toList ≠ '$' :: more.toList := by
    intro word more isWord whole
    exact absurd (isWord.word '$' (whole ▸ List.mem_cons_self)) (by decide)
  apply String.toList_injective
  rcases spell_cases noVariadic name with one | one <;> rcases spell_cases noVariadic other with two | two
  · exact one.symm.trans (same.trans two)
  · exact absurd (one.symm.trans (same.trans two)) (noMark isName)
  · exact absurd (two.symm.trans (same.symm.trans one)) (noMark isName')
  · exact List.tail_eq_of_cons_eq (one.symm.trans (same.trans two))

theorem spell_ne_if (isName : IsPlainName name) : (naming.spell name).toList ≠ ['i', 'f'] := by
  intro same
  rcases spell_cases noVariadic name with one | one
  · have keyword : name = Keyword.ifKw.spelling := String.toList_injective (one.symm.trans same)
    have found := isName.notKeyword
    rw [keyword, Keyword.ofSpelling?_spelling] at found
    cases found
  · cases one.symm.trans same

end

def Expr.letters (naming : Naming) (e : Expr) : List Char :=
  (e.render naming).toList

def Expr.argumentLetters (naming : Naming) (e : Expr) : List Char :=
  (argumentText e.isConvertible (e.render naming)).toList

def moreArgumentLetters (naming : Naming) : List Expr → List Char → List Char
  | [], rest => ')' :: rest
  | e :: es, rest => ',' :: ' ' :: (e.argumentLetters naming ++ moreArgumentLetters naming es rest)

def argumentListLetters (naming : Naming) : List Expr → List Char → List Char
  | [], rest => ')' :: rest
  | e :: es, rest => e.argumentLetters naming ++ moreArgumentLetters naming es rest

theorem intercalate_arguments (arguments : List Expr) (rest : List Char) :
    [',', ' '].intercalate ((renderArguments naming arguments).map String.toList) ++ ')' :: rest =
      argumentListLetters naming arguments rest := by
  cases arguments with
  | nil => rfl
  | cons e es =>
    show _ = e.argumentLetters naming ++ moreArgumentLetters naming es rest
    induction es generalizing e with
    | nil => simp [renderArguments, moreArgumentLetters, Expr.argumentLetters]
    | cons next es ih =>
      have behind := ih next
      simp only [renderArguments, List.map_cons, List.intercalate_cons_cons, List.append_assoc] at behind ⊢
      rw [behind]
      rfl

theorem IsPlainType.isVoid {type : CType} (isType : IsPlainType type) : type.isVoid = false := by
  cases isType with
  | @named _ _ name _ _ unlisted =>
    show (name == "void") = false
    rw [beq_eq_false_iff_ne]
    rintro rfl
    cases unlisted
  | pointer _ => rfl

section

variable {pos place : Pos}

theorem letters_name (unlisted : naming.valueNames.lookup name = none) :
    (Expr.name pos (.simple place name)).letters naming = (naming.spell name).toList := by
  have same : naming.value (.simple place name) = naming.spell name := by
    rw [Naming.value, unlisted, Option.getD_none, ite_self]
    rfl
  exact congrArg String.toList same

theorem letters_call (callee : String) (arguments : List Expr) (rest : List Char) :
    (Expr.call pos (.simple place callee) arguments).letters naming ++ rest =
      (naming.spell callee).toList ++ '(' :: argumentListLetters naming arguments rest := by
  rw [← intercalate_arguments]
  show (naming.spell callee ++ "(" ++ ", ".intercalate (renderArguments naming arguments) ++ ")").toList ++ rest = _
  simp only [String.toList_append, String.toList_intercalate, List.append_assoc]
  rfl

theorem letters_cast {target : CType} {operand : Expr} (notVoid : target.isVoid = false) (rest : List Char) :
    (Expr.cast pos target operand).letters naming ++ rest =
      '(' :: (operand.letters naming ++ ' ' ::
        ("as".toList ++ ' ' :: ((naming.type target).toList ++ ')' :: rest))) := by
  show (if target.isVoid then _ else
      "(" ++ operand.render naming ++ " as " ++ naming.type target ++ ")").toList ++ rest = _
  rw [notVoid, if_neg Bool.false_ne_true]
  simp only [String.toList_append, List.append_assoc]
  rfl

theorem letters_negation (operand : Expr) (rest : List Char) :
    (Expr.unary pos .negate .before operand).letters naming ++ rest = '-' :: (operand.letters naming ++ rest) := by
  show ("-" ++ operand.render naming).toList ++ rest = _
  simp only [String.toList_append, List.append_assoc]
  rfl

theorem letters_addressOf (operand : Expr) (rest : List Char) :
    (Expr.addressOf pos operand).letters naming ++ rest =
      "::core::ptr::addr_of_mut!(".toList ++ (operand.letters naming ++ ')' :: rest) := by
  show ("::core::ptr::addr_of_mut!(" ++ operand.render naming ++ ")").toList ++ rest = _
  simp only [String.toList_append, List.append_assoc]
  rfl

theorem letters_binary (op : BinaryOp) (left right : Expr) (rest : List Char) :
    (Expr.binary pos op left right).letters naming ++ rest =
      '(' :: (left.letters naming ++ ' ' ::
        (op.spelling.toList ++ ' ' :: (right.letters naming ++ ')' :: rest))) := by
  show ("(" ++ left.render naming ++ " " ++ op.spelling ++ " " ++ right.render naming ++ ")").toList ++ rest = _
  simp only [String.toList_append, List.append_assoc]
  rfl

theorem letters_ternary (condition whenTrue whenFalse : Expr) (rest : List Char) :
    (Expr.ternary pos condition whenTrue whenFalse).letters naming ++ rest =
      "if ".toList ++ (condition.letters naming ++ ' ' :: ("\x7b ".toList ++ (whenTrue.letters naming ++
        ' ' :: ("\x7d else \x7b ".toList ++ (whenFalse.letters naming ++ ' ' :: '\x7d' :: rest))))) := by
  show ("if " ++ condition.render naming ++ " \x7b " ++ whenTrue.render naming ++ " \x7d else \x7b " ++
      whenFalse.render naming ++ " \x7d").toList ++ rest = _
  simp only [String.toList_append, List.append_assoc]
  rfl

theorem letters_assign (op : AssignOp) (target value : Expr) (rest : List Char) :
    (Expr.assign pos op target value).letters naming ++ rest =
      "\x7b ".toList ++ (target.letters naming ++ ' ' :: (op.spelling.toList ++ ' ' :: (value.letters naming ++
        ';' :: ' ' :: (target.letters naming ++ ' ' :: '\x7d' :: rest)))) := by
  show ("\x7b " ++ target.render naming ++ " " ++ op.spelling ++ " " ++ value.render naming ++ "; " ++
      target.render naming ++ " \x7d").toList ++ rest = _
  simp only [String.toList_append, List.append_assoc]
  rfl

end

/-- What the text of a formula is told by. -/
inductive Form where
  | name
  | number
  | call
  | bracketed
  | negation
  | addressOf
  | ternary
  | assign
  | nothing

def Form.ofWord (next : Option Char) : List Char → Form
  | [] =>
    if next = some '(' then .bracketed
    else if next = some '-' then .negation
    else if next = some ':' then .addressOf
    else if next = some '\x7b' then .assign
    else .nothing
  | c :: cs =>
    if c.isDigit then .number
    else if c :: cs = ['i', 'f'] then .ternary
    else if next = some '(' then .call
    else .name

def Form.ofLetters (text : List Char) : Form :=
  .ofWord (text.dropWhile isSpellingChar).head? (text.takeWhile isSpellingChar)

def Expr.form : Expr → Form
  | .name _ _ => .name
  | .number _ _ => .number
  | .call _ _ _ => .call
  | .cast _ _ _ | .binary _ _ _ _ => .bracketed
  | .unary _ _ _ _ => .negation
  | .addressOf _ _ => .addressOf
  | .ternary _ _ _ _ => .ternary
  | .assign _ _ _ _ => .assign
  | _ => .nothing

section

variable (noVariadic : variadicName ∉ naming.captures)

include noVariadic

theorem ofLetters_spell (isName : IsPlainName name) (outside : ∀ c ∈ rest.head?, isSpellingChar c = false) :
    Form.ofLetters ((naming.spell name).toList ++ rest) = if rest.head? = some '(' then .call else .name := by
  have inside := spell_letters noVariadic isName
  have notIf := spell_ne_if noVariadic isName
  rw [Form.ofLetters, Text.takeWhile_run inside outside, Text.dropWhile_run inside outside]
  obtain ⟨c, cs, whole, first⟩ := spell_first noVariadic isName
  rw [whole] at notIf ⊢
  have noDigit : c.isDigit = false := by
    rcases first with start | rfl
    · exact not_isDigit_of_isNameStart start
    · rfl
  rw [Form.ofWord, noDigit, if_neg Bool.false_ne_true, if_neg notIf]

end

theorem ofLetters_number {value : Number} (isLiteral : ∃ text marks, Number.ofText? text = some { value with marks })
    (rest : List Char) : Form.ofLetters (value.text.toList ++ rest) = .number := by
  obtain ⟨text, marks, read⟩ := isLiteral
  obtain ⟨c, cs, whole, isDigit⟩ := (Number.written_of_ofText? read).first
  have letter : isSpellingChar c = true := by
    rw [isSpellingChar, isNameChar, Char.isAlphanum, isDigit, Bool.or_true]
    rfl
  have whole : value.text.toList = c :: cs := whole
  rw [Form.ofLetters, whole, List.cons_append, List.takeWhile_cons_of_pos letter, Form.ofWord, isDigit,
    if_pos rfl]

section

variable (noVariadic : variadicName ∉ naming.captures)

include noVariadic

theorem IsFormula.ofLetters (formula : IsFormula naming e) (ends : Ends rest) :
    Form.ofLetters (e.letters naming ++ rest) = e.form := by
  cases formula with
  | name isName _ unlisted =>
    rw [letters_name unlisted, ofLetters_spell noVariadic isName (ends.outside rfl), if_neg]
    · rfl
    · intro bracket
      cases ends _ bracket
  | number isLiteral => exact ofLetters_number isLiteral rest
  | call isName _ =>
    rw [letters_call, ofLetters_spell noVariadic isName (outside_cons rfl _)]
    rfl
  | cast isType _ =>
    rw [letters_cast isType.isVoid]
    rfl
  | negation _ =>
    rw [letters_negation]
    rfl
  | addressOf _ =>
    rw [letters_addressOf]
    rfl
  | binary _ _ =>
    rw [letters_binary]
    rfl
  | ternary _ _ _ =>
    rw [letters_ternary]
    rfl
  | assign _ _ =>
    rw [letters_assign]
    rfl

end

end MacroLift
