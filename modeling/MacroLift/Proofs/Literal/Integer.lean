import Mathlib.Data.Bool.AllAny
import Mathlib.Data.List.Basic
import Mathlib.Data.Nat.Digits.Defs
import MacroLift.Literal.Number
import MacroLift.Proofs.Text.Span

namespace MacroLift

def digitValue (c : Char) : Nat :=
  if c.isDigit then c.toNat - '0'.toNat
  else if 'a' ≤ c then c.toNat - 'a'.toNat + 10
  else c.toNat - 'A'.toNat + 10

def natValue (radix : Nat) (digits : List Char) : Nat :=
  Nat.ofDigits radix (digits.map digitValue).reverse

inductive Base where
  | binary
  | octal
  | decimal
  | hexadecimal
  deriving Repr, DecidableEq

namespace Base

def radix : Base → Nat
  | .binary => 2
  | .octal => 8
  | .decimal => 10
  | .hexadecimal => 16

def isDigit : Base → Char → Bool
  | .binary => Number.isBinaryDigit
  | .octal => Number.isOctalDigit
  | .decimal => Char.isDigit
  | .hexadecimal => Number.isHexDigit

def cMarks : Base → List (List Char)
  | .binary => [['0', 'b'], ['0', 'B']]
  | .octal => [['0']]
  | .decimal => [[]]
  | .hexadecimal => [['0', 'x'], ['0', 'X']]

def rustMark : Base → List Char
  | .binary => ['0', 'b']
  | .octal => ['0', 'o']
  | .decimal => []
  | .hexadecimal => ['0', 'x']

def number? (base : Base) (digits : List Char) : Option Nat :=
  if digits ≠ [] ∧ digits.all base.isDigit then some (natValue base.radix digits) else none

end Base

def rustInteger? : List Char → Option Nat
  | '0' :: 'b' :: digits => Base.binary.number? digits
  | '0' :: 'o' :: digits => Base.octal.number? digits
  | '0' :: 'x' :: digits => Base.hexadecimal.number? digits
  | digits => Base.decimal.number? digits

theorem dropFinalNewline_of_not_mem {text : List Char} (oneLine : '\n' ∉ text) : dropFinalNewline text = text := by
  rw [dropFinalNewline, if_neg]
  intro final
  exact oneLine (List.mem_of_getLast? final)

namespace Marks

def unsignedSpellings : Bool → List (List Char)
  | false => [[]]
  | true => [['u'], ['U']]

def sizeSpellings : Option IntegerSize → List (List Char)
  | none => [[]]
  | some .long => [['l'], ['L']]
  | some .longLong => [['l', 'l'], ['L', 'L']]
  | some .size => [['z'], ['Z']]

def spellings (marks : Marks) : List (List Char) :=
  (unsignedSpellings marks.isUnsigned).flatMap fun first =>
    (sizeSpellings marks.size).flatMap fun second => [first ++ second, second ++ first]

variable {marks : Marks} {suffix text rest : List Char} {mark : IntegerSize} {c : Char}

theorem mem_spellings_iff : suffix ∈ marks.spellings ↔
    ∃ first ∈ unsignedSpellings marks.isUnsigned, ∃ second ∈ sizeSpellings marks.size,
      suffix = first ++ second ∨ suffix = second ++ first := by
  simp [spellings]

theorem forall_spellings {P : Marks → List Char → Prop}
    (each : ∀ isUnsigned, ∀ size ∈ [none, some .long, some .longLong, some .size],
      ∀ suffix ∈ spellings ⟨isUnsigned, size⟩, P ⟨isUnsigned, size⟩ suffix) :
    ∀ suffix ∈ marks.spellings, P marks suffix := by
  obtain ⟨isUnsigned, size⟩ := marks
  apply each isUnsigned size
  rcases size with _ | (_ | _ | _) <;> decide

theorem ofLetters?_spelling : ∀ suffix ∈ marks.spellings, ofLetters? suffix = some marks :=
  forall_spellings (P := fun marks suffix => ofLetters? suffix = some marks) (by decide)

def suffixLetters : List Char := ['u', 'U', 'l', 'L', 'z', 'Z']

theorem letters_spelling : ∀ suffix ∈ marks.spellings, ∀ c ∈ suffix, c ∈ suffixLetters := by
  have each : ∀ suffix ∈ marks.spellings, suffix.all (· ∈ suffixLetters) = true :=
    forall_spellings (P := fun _ suffix => suffix.all (· ∈ suffixLetters) = true) (by decide)
  exact fun suffix member => List.all_iff_forall_prop.mp (each suffix member)

theorem isUnsignedMark_iff : isUnsignedMark c = true ↔ [c] ∈ unsignedSpellings true := by
  simp [isUnsignedMark, unsignedSpellings]

theorem spelling_of_splitSize? (split : splitSize? text = some (mark, rest)) :
    ∃ letters ∈ sizeSpellings (some mark), text = letters ++ rest := by
  unfold splitSize? at split
  split at split <;> cases split
  · exact ⟨['l', 'l'], by decide, rfl⟩
  · exact ⟨['L', 'L'], by decide, rfl⟩
  · exact ⟨['l'], by decide, rfl⟩
  · exact ⟨['L'], by decide, rfl⟩
  · exact ⟨['z'], by decide, rfl⟩
  · exact ⟨['Z'], by decide, rfl⟩

theorem spelling_of_ofLetters? (read : ofLetters? suffix = some marks) : suffix ∈ marks.spellings := by
  rw [mem_spellings_iff]
  -- the unsigned mark stands in front of the size mark, behind it, or nowhere
  unfold ofLetters? at read
  split at read
  · cases read
    exact ⟨[], by decide, [], by decide, .inl rfl⟩
  · rename_i c rest
    split at read
    case isTrue isUnsigned =>
      have first := isUnsignedMark_iff.mp isUnsigned
      split at read
      · cases read
        exact ⟨[c], first, [], by decide, .inl rfl⟩
      · split at read
        · rename_i found
          cases read
          obtain ⟨letters, second, rfl⟩ := spelling_of_splitSize? found
          exact ⟨[c], first, letters, second, .inl (by simp)⟩
        · cases read
    case isFalse =>
      split at read
      · rename_i found
        cases read
        obtain ⟨letters, second, whole⟩ := spelling_of_splitSize? found
        exact ⟨[], List.mem_singleton_self _, letters, second, .inl (by simpa using whole)⟩
      · rename_i d found
        split at read
        · rename_i isUnsigned
          cases read
          obtain ⟨letters, second, whole⟩ := spelling_of_splitSize? found
          exact ⟨[d], isUnsignedMark_iff.mp isUnsigned, letters, second, .inr whole⟩
        · cases read
      · cases read

theorem ofSuffix?_eq_some_iff (oneLine : '\n' ∉ suffix) : ofSuffix? suffix = some marks ↔ suffix ∈ marks.spellings := by
  rw [ofSuffix?, dropFinalNewline_of_not_mem oneLine]
  exact ⟨spelling_of_ofLetters?, ofLetters?_spelling suffix⟩

end Marks

/-- An integer literal of C: digits behind the mark of their base, and a suffix that spells marks. Only the decimal zero
    starts with a zero. -/
structure IntegerLiteral where
  base : Base
  mark : List Char
  digits : List Char
  marks : Marks
  suffix : List Char
  mark_mem : mark ∈ base.cMarks
  digits_ne_nil : digits ≠ []
  isDigit : ∀ c ∈ digits, base.isDigit c = true
  leading : base = .decimal → digits.head? = some '0' → digits = ['0']
  suffix_mem : suffix ∈ marks.spellings

namespace IntegerLiteral

def text (literal : IntegerLiteral) : List Char :=
  literal.mark ++ (literal.digits ++ literal.suffix)

def value (literal : IntegerLiteral) : Nat :=
  natValue literal.base.radix literal.digits

def number (literal : IntegerLiteral) : Number :=
  ⟨String.ofList (literal.base.rustMark ++ literal.digits), literal.marks, false⟩

end IntegerLiteral

theorem Base.not_isDigit_of_letter (base : Base) : ∀ c ∈ Marks.suffixLetters, base.isDigit c = false := by
  refine List.all_iff_forall_prop.mp ?_
  cases base <;> rfl

namespace Number

variable {mark digits suffix text : List Char} {p : Char → Bool} {marks : Marks} {number : Number}

theorem based?_append (nonempty : digits ≠ []) (inside : ∀ c ∈ digits, p c = true)
    (outside : ∀ c ∈ suffix.head?, p c = false) (spelled : Marks.ofSuffix? suffix = some marks) :
    based? mark p (digits ++ suffix) = some ⟨String.ofList (mark ++ digits), marks, false⟩ := by
  rw [based?, Text.takeWhile_run inside outside, Text.dropWhile_run inside outside, withSuffix?, spelled, if_neg]
  · rfl
  · rwa [List.isEmpty_iff]

theorem digits_of_based? (found : based? mark p text = some number) :
    ∃ digits suffix marks, text = digits ++ suffix ∧ digits ≠ [] ∧ (∀ c ∈ digits, p c = true) ∧
      Marks.ofSuffix? suffix = some marks := by
  unfold based? at found
  split at found
  · cases found
  · rename_i nonempty
    obtain ⟨marks, spelled, -⟩ := Option.map_eq_some_iff.mp found
    refine ⟨text.takeWhile p, text.dropWhile p, marks, List.takeWhile_append_dropWhile.symm, ?_, ?_, spelled⟩
    · rwa [List.isEmpty_iff] at nonempty
    · exact fun c member => List.mem_takeWhile_imp member

variable {c : Char} {rest : List Char}

theorem integer?_hexadecimal (isMark : c = 'x' ∨ c = 'X') :
    integer? ('0' :: c :: rest) = based? ['0', 'x'] isHexDigit rest :=
  if_pos isMark

theorem integer?_binary (isMark : c = 'b' ∨ c = 'B') :
    integer? ('0' :: c :: rest) = based? ['0', 'b'] isBinaryDigit rest := by
  rcases isMark with rfl | rfl <;> rfl

theorem integer?_octal (isDigit : isOctalDigit c = true) :
    integer? ('0' :: c :: rest) = based? ['0', 'o'] isOctalDigit (c :: rest) := by
  have noX : ¬ (c = 'x' ∨ c = 'X') := by
    rintro (rfl | rfl) <;> cases isDigit
  have noB : ¬ (c = 'b' ∨ c = 'B') := by
    rintro (rfl | rfl) <;> cases isDigit
  rw [integer?, if_neg noX, if_neg noB, if_pos isDigit]

theorem integer?_zero (isLetter : c ∈ Marks.suffixLetters) :
    integer? ('0' :: c :: rest) = withSuffix? ['0'] (c :: rest) := by
  have apart : ∀ c ∈ Marks.suffixLetters, ¬ (c = 'x' ∨ c = 'X') ∧ ¬ (c = 'b' ∨ c = 'B') ∧ ¬ isOctalDigit c = true :=
    List.all_iff_forall_prop.mp rfl
  obtain ⟨noX, noB, noDigit⟩ := apart c isLetter
  rw [integer?, if_neg noX, if_neg noB, if_neg noDigit]

theorem integer?_decimal (nonzero : c ≠ '0' ∨ rest = []) :
    integer? (c :: rest) = based? [] Char.isDigit (c :: rest) := by
  unfold integer?
  split
  · rename_i same
    cases same
  · rename_i d more same
    cases same
    rcases nonzero with other | none
    · exact absurd rfl other
    · cases none
  · rename_i same
    cases same
    rfl

end Number

namespace IntegerLiteral

open Number

variable (literal : IntegerLiteral)

theorem ofSuffix?_suffix : Marks.ofSuffix? literal.suffix = some literal.marks := by
  have oneLine : '\n' ∉ literal.suffix := fun member =>
    absurd (Marks.letters_spelling _ literal.suffix_mem _ member) (by decide)
  exact (Marks.ofSuffix?_eq_some_iff oneLine).mpr literal.suffix_mem

theorem based?_digits : based? literal.base.rustMark literal.base.isDigit (literal.digits ++ literal.suffix) =
    some literal.number := by
  apply based?_append literal.digits_ne_nil literal.isDigit _ literal.ofSuffix?_suffix
  intro c first
  have isLetter : c ∈ Marks.suffixLetters :=
    Marks.letters_spelling _ literal.suffix_mem c (List.mem_of_mem_head? first)
  exact literal.base.not_isDigit_of_letter c isLetter

theorem integer?_of_decimal (isDecimal : literal.base = .decimal) (unmarked : literal.mark = []) :
    integer? literal.text = some literal.number := by
  have read := literal.based?_digits
  have spelled := literal.ofSuffix?_suffix
  obtain ⟨base, mark, digits, marks, suffix, marked, nonempty, isDigit, leading, letters⟩ := literal
  cases isDecimal
  cases unmarked
  obtain ⟨c, rest, rfl⟩ := List.exists_cons_of_ne_nil nonempty
  by_cases zero : c = '0'
  · subst zero
    obtain rfl : rest = [] := List.tail_eq_of_cons_eq (leading rfl rfl)
    cases suffix with
    | nil => exact read
    | cons d more =>
      have isLetter : d ∈ Marks.suffixLetters := Marks.letters_spelling _ letters d List.mem_cons_self
      refine (integer?_zero isLetter).trans ?_
      rw [withSuffix?, spelled]
      rfl
  · exact (integer?_decimal (.inl zero)).trans read

theorem integer?_text : integer? literal.text = some literal.number := by
  have read := literal.based?_digits
  have marked := literal.mark_mem
  cases base : literal.base with
  | binary =>
    rw [base] at read marked
    rw [text]
    rcases List.mem_pair.mp marked with mark | mark
    · rw [mark]
      exact (integer?_binary (.inl rfl)).trans read
    · rw [mark]
      exact (integer?_binary (.inr rfl)).trans read
  | octal =>
    rw [base] at read marked
    obtain ⟨c, rest, whole⟩ := List.exists_cons_of_ne_nil literal.digits_ne_nil
    have isDigit : isOctalDigit c = true := by
      have first := literal.isDigit c (whole ▸ List.mem_cons_self)
      rwa [base] at first
    rw [text, List.mem_singleton.mp marked, whole]
    rw [whole] at read
    exact (integer?_octal isDigit).trans read
  | decimal =>
    rw [base] at marked
    exact literal.integer?_of_decimal base (List.mem_singleton.mp marked)
  | hexadecimal =>
    rw [base] at read marked
    rw [text]
    rcases List.mem_pair.mp marked with mark | mark
    · rw [mark]
      exact (integer?_hexadecimal (.inl rfl)).trans read
    · rw [mark]
      exact (integer?_hexadecimal (.inr rfl)).trans read

end IntegerLiteral

variable {mark text rest : List Char} {number : Number} {base : Base}

theorem exists_literal_of_based? {written : List Char} (marked : mark ∈ base.cMarks) (oneLine : '\n' ∉ rest)
    (leading : base = .decimal → rest.head? = some '0' → rest = ['0'])
    (found : Number.based? written base.isDigit rest = some number) :
    ∃ literal : IntegerLiteral, literal.text = mark ++ rest := by
  obtain ⟨digits, suffix, marks, rfl, nonempty, isDigit, spelled⟩ := Number.digits_of_based? found
  have oneLine : '\n' ∉ suffix := fun member => oneLine (List.mem_append_right _ member)
  have letters := (Marks.ofSuffix?_eq_some_iff oneLine).mp spelled
  refine ⟨⟨base, mark, digits, marks, suffix, marked, nonempty, isDigit, fun isDecimal zero => ?_, letters⟩, rfl⟩
  obtain ⟨c, more, rfl⟩ := List.exists_cons_of_ne_nil nonempty
  have whole : c :: (more ++ suffix) = ['0'] := leading isDecimal zero
  obtain ⟨rfl, rest⟩ := List.cons_eq_cons.mp whole
  rw [(List.append_eq_nil_iff.mp rest).1]

theorem exists_literal_of_withSuffix? {written : List Char} (oneLine : '\n' ∉ rest)
    (found : Number.withSuffix? written rest = some number) : ∃ literal : IntegerLiteral, literal.text = '0' :: rest := by
  obtain ⟨marks, spelled, -⟩ := Option.map_eq_some_iff.mp found
  have letters := (Marks.ofSuffix?_eq_some_iff oneLine).mp spelled
  have isDigit : ∀ c ∈ ['0'], Base.decimal.isDigit c = true := List.all_eq_true.mp rfl
  exact ⟨⟨.decimal, [], ['0'], marks, rest, by decide, by decide, isDigit, fun _ _ => rfl, letters⟩, rfl⟩

theorem exists_literal_of_integer? (oneLine : '\n' ∉ text) (found : Number.integer? text = some number) :
    ∃ literal : IntegerLiteral, literal.text = text := by
  unfold Number.integer? at found
  split at found
  · cases found
  · rename_i c rest
    have behind : '\n' ∉ rest := fun member => oneLine (List.mem_cons_of_mem _ (List.mem_cons_of_mem _ member))
    have digits : '\n' ∉ c :: rest := fun member => oneLine (List.mem_cons_of_mem _ member)
    split at found
    · rename_i isMark
      have marked : ['0', c] ∈ Base.hexadecimal.cMarks := by
        rcases isMark with rfl | rfl <;> decide
      exact exists_literal_of_based? marked behind nofun found
    · split at found
      · rename_i isMark
        have marked : ['0', c] ∈ Base.binary.cMarks := by
          rcases isMark with rfl | rfl <;> decide
        exact exists_literal_of_based? marked behind nofun found
      · split at found
        · have marked : ['0'] ∈ Base.octal.cMarks := List.mem_singleton_self _
          exact exists_literal_of_based? marked digits nofun found
        · exact exists_literal_of_withSuffix? digits found
  · rename_i c rest notLonger
    have marked : [] ∈ Base.decimal.cMarks := List.mem_singleton_self _
    refine exists_literal_of_based? marked oneLine (fun _ zero => ?_) found
    obtain rfl : c = '0' := Option.some.inj zero
    cases rest with
    | nil => rfl
    | cons d more => exact absurd rfl (notLonger d more rfl)

theorem integer?_eq_some_iff (oneLine : '\n' ∉ text) :
    Number.integer? text = some number ↔ ∃ literal : IntegerLiteral, literal.text = text ∧ literal.number = number := by
  constructor
  · intro found
    obtain ⟨literal, rfl⟩ := exists_literal_of_integer? oneLine found
    exact ⟨literal, rfl, Option.some.inj (literal.integer?_text.symm.trans found)⟩
  · rintro ⟨literal, rfl, rfl⟩
    exact literal.integer?_text

theorem isFloat_of_integer? (oneLine : '\n' ∉ text) (found : Number.integer? text = some number) :
    number.isFloat = false := by
  obtain ⟨literal, -, rfl⟩ := (integer?_eq_some_iff oneLine).mp found
  rfl

namespace Base

variable {base : Base} {digits : List Char}

theorem number?_eq_some (nonempty : digits ≠ []) (isDigit : ∀ c ∈ digits, base.isDigit c = true) :
    base.number? digits = some (natValue base.radix digits) :=
  if_pos ⟨nonempty, List.all_eq_true.mpr isDigit⟩

theorem rustInteger?_digits (nonempty : digits ≠ []) (isDigit : ∀ c ∈ digits, base.isDigit c = true) :
    rustInteger? (base.rustMark ++ digits) = some (natValue base.radix digits) := by
  have read := number?_eq_some nonempty isDigit
  cases base with
  | binary | octal | hexadecimal => exact read
  | decimal =>
    -- No second character is a mark.
    rw [rustMark, List.nil_append]
    unfold rustInteger?
    split
    · exact absurd (isDigit 'b' (List.mem_cons_of_mem _ List.mem_cons_self)) (by decide)
    · exact absurd (isDigit 'o' (List.mem_cons_of_mem _ List.mem_cons_self)) (by decide)
    · exact absurd (isDigit 'x' (List.mem_cons_of_mem _ List.mem_cons_self)) (by decide)
    · exact read

end Base

theorem IntegerLiteral.rustInteger?_number (literal : IntegerLiteral) :
    rustInteger? literal.number.text.toList = some literal.value := by
  rw [number, String.toList_ofList]
  exact Base.rustInteger?_digits literal.digits_ne_nil literal.isDigit

namespace Number

theorem isFloat_of_floatLetters? (found : floatLetters? text = some number) : number.isFloat = true := by
  unfold floatLetters? at found
  dsimp only at found
  split at found
  · split at found <;> cases found
    rfl
  · split at found
    · cases found
    · split at found
      · split at found <;> cases found
        rfl
      · split at found <;> cases found
        rfl

theorem integer?_of_ofText? {text : String} (read : ofText? text = some number) (whole : number.isFloat = false) :
    integer? text.toList = some number := by
  unfold ofText? at read
  split at read
  · rename_i found
    rwa [found]
  · rw [isFloat_of_floatLetters? read] at whole
    cases whole

theorem ofText?_of_integer? {text : String} (found : integer? text.toList = some number) :
    ofText? text = some number := by
  rw [ofText?, found]

/-- Integers are read exactly. A text without a newline is read as an integer if and only if it is an integer literal of
    C. Then the text that is written for it is a literal of Rust for the number that the literal stands for, and the
    marks are those that its suffix spells. -/
theorem integers_exact {text : String} (oneLine : '\n' ∉ text.toList) :
    ((∃ number, ofText? text = some number ∧ number.isFloat = false) ↔
      ∃ literal : IntegerLiteral, literal.text = text.toList) ∧
    ∀ number, ofText? text = some number → number.isFloat = false →
      ∀ literal : IntegerLiteral, literal.text = text.toList →
        rustInteger? number.text.toList = some literal.value ∧ number.marks = literal.marks := by
  constructor
  · constructor
    · rintro ⟨number, read, whole⟩
      exact exists_literal_of_integer? oneLine (integer?_of_ofText? read whole)
    · rintro ⟨literal, same⟩
      have found := literal.integer?_text
      rw [same] at found
      exact ⟨literal.number, ofText?_of_integer? found, rfl⟩
  · intro number read whole literal same
    have found := literal.integer?_text
    rw [same, integer?_of_ofText? read whole] at found
    obtain rfl := Option.some.inj found
    exact ⟨literal.rustInteger?_number, rfl⟩

theorem integers_exact_octal :
    '\n' ∉ "0177uL".toList ∧ ∃ number, ofText? "0177uL" = some number ∧
      rustInteger? number.text.toList = some 127 ∧ number.marks = ⟨true, some .long⟩ := by
  have oneLine : '\n' ∉ "0177uL".toList := by decide
  let literal : IntegerLiteral := ⟨.octal, ['0'], ['1', '7', '7'], ⟨true, some .long⟩, ['u', 'L'], by decide, by decide,
    List.all_eq_true.mp rfl, nofun, by decide⟩
  obtain ⟨number, read, whole⟩ := (integers_exact oneLine).1.mpr ⟨literal, by decide⟩
  have written := (integers_exact oneLine).2 number read whole literal (by decide)
  exact ⟨oneLine, number, read, written⟩

end Number

end MacroLift
