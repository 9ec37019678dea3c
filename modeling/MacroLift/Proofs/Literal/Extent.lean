import MacroLift.Proofs.Literal.Floating
import MacroLift.Proofs.Token.Respacing

namespace MacroLift

open Lexeme

variable {text front rest : List Char} {c : Char} {hex : Bool}

def takesNoSign (hex : Bool) (c : Char) : Bool :=
  isNumberChar c && (hex || !isExponentMark c)

theorem takesSign_of_takesNoSign (h : takesNoSign hex c = true) (d : Char) : takesSign hex c d = false := by
  rw [takesNoSign, Bool.and_eq_true] at h
  cases hex with
  | true => rfl
  | false =>
    have noMark : isExponentMark c = false := by simpa using h.2
    rw [takesSign, noMark]
    rfl

theorem splitNumber_run (plain : ∀ c ∈ front, takesNoSign hex c = true) (rest : List Char) :
    splitNumber hex (front ++ rest) = consume front (splitNumber hex rest) := by
  induction front with
  | nil => rfl
  | cons c front ih =>
    obtain ⟨first, others⟩ := List.forall_mem_cons.mp plain
    have inside : isNumberChar c = true := (Bool.and_eq_true_iff.mp first).1
    rw [List.cons_append, splitNumber_inside inside fun d _ => takesSign_of_takesNoSign first d, ih others,
      Gap.consume_consume, List.singleton_append]

theorem splitNumber_end (outside : ∀ c ∈ rest.head?, isNumberChar c = false) : splitNumber hex rest = ([], rest) := by
  cases rest with
  | nil => rfl
  | cons c rest => exact splitNumber_outside (outside c rfl)

theorem takesNoSign_of_isDigit (hex : Bool) (isDigit : c.isDigit = true) : takesNoSign hex c = true := by
  have noMark : isExponentMark c = false := by
    rw [Bool.eq_false_iff]
    intro mark
    rw [isExponentMark, Bool.or_eq_true, beq_iff_eq, beq_iff_eq] at mark
    rcases mark with rfl | rfl <;> cases isDigit
  simp [takesNoSign, isNumberChar, Char.isAlphanum, isDigit, noMark]

theorem not_isSign_of_isDigit (isDigit : c.isDigit = true) : isSign c = false := by
  rw [Bool.eq_false_iff]
  intro sign
  rw [isSign, Bool.or_eq_true, beq_iff_eq, beq_iff_eq] at sign
  rcases sign with rfl | rfl <;> cases isDigit

theorem startsNumber_of_isDigit (isDigit : c.isDigit = true) (rest : List Char) :
    startsNumber (c :: rest) = true ∧ startsNumber ('.' :: c :: rest) = true := by
  have ascii : c.toNat < 0x80 := by
    simp only [Char.isDigit, Bool.and_eq_true, decide_eq_true_eq, UInt32.le_iff_toNat_le] at isDigit
    have value : c.toNat = c.val.toNat := rfl
    have top : c.val.toNat ≤ 57 := isDigit.2
    omega
  have isDigitChar : Text.isDigitChar c = true := by
    rw [Text.isDigitChar, if_pos ascii]
    exact isDigit
  exact ⟨startsNumber_iff.mpr ⟨c, rest, isDigitChar, .inl rfl⟩, startsNumber_iff.mpr ⟨c, rest, isDigitChar, .inr rfl⟩⟩

/-- A text that is cut off as one number, unless what follows runs on. -/
structure IsOneNumber (text : List Char) : Prop where
  starts : startsNumber text = true
  ends {rest : List Char} : (∀ c ∈ rest.head?, isNumberChar c = false) →
    splitNumber (isHexNumber text) (text ++ rest) = (text, rest)

namespace IsOneNumber

variable (h : IsOneNumber text)

include h

theorem starts_append (rest : List Char) : startsNumber (text ++ rest) = true := by
  obtain ⟨c, more, isDigit, rfl | rfl⟩ := startsNumber_iff.mp h.starts
  · exact startsNumber_iff.mpr ⟨c, more ++ rest, isDigit, .inl rfl⟩
  · exact startsNumber_iff.mpr ⟨c, more ++ rest, isDigit, .inr rfl⟩

theorem scanned (outside : ∀ c ∈ rest.head?, isNumberChar c = false) :
    Scanned (text ++ rest) (.number (String.ofList text)) rest := by
  have scanned := Scanned.number (h.starts_append rest)
  rwa [isHexNumber_append text outside, h.ends outside] at scanned

theorem step (outside : ∀ c ∈ rest.head?, isNumberChar c = false) (pos : Pos) :
    (Token.Cursor.mk (text ++ rest) pos).step =
      .token ⟨.number (String.ofList text), pos⟩ ⟨rest, pos.after text⟩ := by
  have bare : Gap.split (text ++ rest) = ([], text ++ rest) := startsBare_of_startsNumber (h.starts_append rest)
  refine Token.step_eq_token_iff.mpr ⟨[], rest, ?_, ?_, rfl, ?_⟩
  · simpa [Lexeme.text] using bare
  · simpa [Lexeme.text] using h.scanned outside
  · simp [Lexeme.text]

end IsOneNumber

theorem isNumberChar_of_isHexDigit (isDigit : Number.isHexDigit c = true) : isNumberChar c = true := by
  have isAlphanum : c.isAlphanum = true := by
    simp only [Number.isHexDigit, Bool.or_eq_true, Bool.and_eq_true, decide_eq_true_eq] at isDigit
    rw [Char.isAlphanum, Bool.or_eq_true]
    rcases isDigit with (digit | ⟨low, high⟩) | ⟨low, high⟩
    · exact .inr digit
    · have lower : c.isLower = true := Bool.and_eq_true_iff.mpr ⟨decide_eq_true low,
        decide_eq_true (Char.le_trans high (by decide))⟩
      exact .inl (Bool.or_eq_true_iff.mpr (.inr lower))
    · have upper : c.isUpper = true := decide_eq_true ⟨low, Char.le_trans high (by decide)⟩
      exact .inl (Bool.or_eq_true_iff.mpr (.inl upper))
  simp [isNumberChar, isAlphanum]

theorem Base.isDigit_decimal {base : Base} (notHex : base ≠ .hexadecimal) (isDigit : base.isDigit c = true) :
    c.isDigit = true := by
  cases base with
  | hexadecimal => exact absurd rfl notHex
  | decimal => exact isDigit
  | binary =>
    rw [Base.isDigit, Number.isBinaryDigit, Bool.or_eq_true, beq_iff_eq, beq_iff_eq] at isDigit
    rcases isDigit with rfl | rfl <;> rfl
  | octal =>
    rw [Base.isDigit, Number.isOctalDigit, Bool.and_eq_true, decide_eq_true_eq, decide_eq_true_eq] at isDigit
    exact Bool.and_eq_true_iff.mpr ⟨decide_eq_true isDigit.1, decide_eq_true (Char.le_trans isDigit.2 (by decide))⟩

theorem Base.isNumberChar_of_isDigit (base : Base) (isDigit : base.isDigit c = true) : isNumberChar c = true := by
  by_cases isHex : base = .hexadecimal
  · subst isHex
    exact isNumberChar_of_isHexDigit isDigit
  · exact (Bool.and_eq_true_iff.mp (takesNoSign_of_isDigit false (Base.isDigit_decimal isHex isDigit))).1

namespace IntegerLiteral

variable (literal : IntegerLiteral)

theorem isHexNumber_text (isHex : literal.base = .hexadecimal) : isHexNumber literal.text = true := by
  have marked := literal.mark_mem
  rw [isHex] at marked
  rw [text]
  rcases List.mem_pair.mp marked with mark | mark <;> (rw [mark]; rfl)

theorem takesNoSign_text : ∀ c ∈ literal.text, takesNoSign (isHexNumber literal.text) c = true := by
  have suffix : ∀ hex, ∀ c ∈ literal.suffix, takesNoSign hex c = true := by
    have each : ∀ hex, ∀ c ∈ Marks.suffixLetters, takesNoSign hex c = true := by
      intro hex
      cases hex <;> exact List.all_eq_true.mp rfl
    exact fun hex c member => each hex c (Marks.letters_spelling _ literal.suffix_mem c member)
  by_cases isHex : literal.base = .hexadecimal
  · rw [literal.isHexNumber_text isHex]
    have marked := literal.mark_mem
    have digits := literal.isDigit
    rw [isHex] at marked digits
    have mark : ∀ c ∈ literal.mark, takesNoSign true c = true := by
      rcases List.mem_pair.mp marked with mark | mark <;> (rw [mark]; exact List.all_eq_true.mp rfl)
    refine List.forall_mem_append.mpr ⟨mark, List.forall_mem_append.mpr ⟨fun c member => ?_, suffix true⟩⟩
    rw [takesNoSign, Base.isNumberChar_of_isDigit _ (digits c member)]
    rfl
  · have mark : ∀ hex, ∀ c ∈ literal.mark, takesNoSign hex c = true := by
      have marked := literal.mark_mem
      have each : ∀ base : Base, base ≠ .hexadecimal → ∀ hex, ∀ mark ∈ base.cMarks,
          mark.all (takesNoSign hex) = true := by
        intro base other hex
        cases base <;> cases hex <;> first | exact absurd rfl other | decide
      exact fun hex => List.all_eq_true.mp (each _ isHex hex _ marked)
    have digits : ∀ hex, ∀ c ∈ literal.digits, takesNoSign hex c = true := fun hex c member =>
      takesNoSign_of_isDigit hex (Base.isDigit_decimal isHex (literal.isDigit c member))
    exact List.forall_mem_append.mpr ⟨mark _, List.forall_mem_append.mpr ⟨digits _, suffix _⟩⟩

theorem startsNumber_text : startsNumber literal.text = true := by
  have first : ∃ c rest, literal.text = c :: rest ∧ c.isDigit = true := by
    have marked := literal.mark_mem
    cases base : literal.base with
    | decimal =>
      rw [base] at marked
      obtain ⟨c, rest, whole⟩ := List.exists_cons_of_ne_nil literal.digits_ne_nil
      have isDigit := literal.isDigit c (whole ▸ List.mem_cons_self)
      rw [base] at isDigit
      refine ⟨c, rest ++ literal.suffix, ?_, isDigit⟩
      rw [text, List.mem_singleton.mp marked, whole]
      rfl
    | _ =>
      have zero : literal.mark.head? = some '0' := by
        rw [base] at marked
        revert marked
        generalize literal.mark = mark
        revert mark
        decide
      obtain ⟨rest, mark⟩ := List.head?_eq_some_iff.mp zero
      refine ⟨'0', rest ++ (literal.digits ++ literal.suffix), ?_, rfl⟩
      rw [text, mark]
      rfl
  obtain ⟨c, rest, whole, isDigit⟩ := first
  rw [whole]
  exact (startsNumber_of_isDigit isDigit rest).1

theorem isOneNumber : IsOneNumber literal.text where
  starts := literal.startsNumber_text
  ends outside := by
    rw [splitNumber_run literal.takesNoSign_text, splitNumber_end outside, consume, List.append_nil]

end IntegerLiteral

theorem Exponent.splitNumber_spelling (e : Exponent) (rest : List Char) :
    splitNumber false (e.spelling ++ rest) = consume e.spelling (splitNumber false rest) := by
  have inside : isNumberChar e.mark = true := by
    rcases e.head_spelling e.mark rfl with mark | mark <;> (rw [mark]; rfl)
  have isMark : isExponentMark e.mark = true := e.isMark
  have digits : splitNumber false (e.digits ++ rest) = consume e.digits (splitNumber false rest) :=
    splitNumber_run (fun c member => takesNoSign_of_isDigit false (e.isDigit c member)) rest
  have signed (sign : Char) (isSign : isSign sign = true) :
      splitNumber false (e.mark :: sign :: (e.digits ++ rest)) =
        consume (e.mark :: sign :: e.digits) (splitNumber false rest) := by
    have takes : takesSign false e.mark sign = true := by
      rw [takesSign, isMark, isSign]
      rfl
    rw [splitNumber_sign inside takes, digits, Gap.consume_consume]
    rfl
  rw [spelling, List.cons_append, List.append_assoc]
  cases e.sign with
  | plus => exact signed '+' rfl
  | minus => exact signed '-' rfl
  | absent =>
    rw [ExponentSign.spelling, List.nil_append, List.nil_append]
    have noSign : ∀ d ∈ (e.digits ++ rest).head?, takesSign false e.mark d = false := by
      obtain ⟨d, digits, whole⟩ := List.exists_cons_of_ne_nil e.digits_ne_nil
      have isDigit := e.isDigit d (whole ▸ List.mem_cons_self)
      rw [whole]
      rintro _ ⟨⟩
      rw [takesSign, not_isSign_of_isDigit isDigit, Bool.and_false]
    rw [splitNumber_inside inside noSign, digits, Gap.consume_consume]
    rfl

namespace FloatLiteral

variable (literal : FloatLiteral)

theorem takesNoSign_suffix : ∀ c ∈ literal.suffix, takesNoSign false c = true := by
  have each : ∀ suffix ∈ [[], ['f'], ['F'], ['l'], ['L']], suffix.all (takesNoSign false) = true := by decide
  exact List.all_eq_true.mp (each _ literal.suffix_mem)

theorem takesNoSign_digits (d : Decimal) : ∀ c ∈ d.whole ++ d.fractionSpelling, takesNoSign false c = true := by
  refine List.forall_mem_append.mpr ⟨fun c member => takesNoSign_of_isDigit false (d.isDigit_whole c member),
    fun c member => ?_⟩
  have inside := d.fractionSpelling_inside c member
  rw [Bool.or_eq_true, beq_iff_eq] at inside
  rcases inside with rfl | isDigit
  · rfl
  · exact takesNoSign_of_isDigit false isDigit

theorem splitNumber_exponent (d : Decimal) (rest : List Char) :
    splitNumber false (d.exponentSpelling ++ rest) = consume d.exponentSpelling (splitNumber false rest) := by
  rw [Decimal.exponentSpelling]
  cases d.exponent with
  | none => rfl
  | some e => exact e.splitNumber_spelling rest

theorem splitNumber_text (outside : ∀ c ∈ rest.head?, isNumberChar c = false) :
    splitNumber false (literal.text ++ rest) = (literal.text, rest) := by
  have whole : literal.text ++ rest = (literal.decimal.whole ++ literal.decimal.fractionSpelling) ++
      (literal.decimal.exponentSpelling ++ (literal.suffix ++ rest)) := by
    simp [text, Decimal.spelling]
  rw [whole, splitNumber_run (takesNoSign_digits literal.decimal), splitNumber_exponent,
    splitNumber_run literal.takesNoSign_suffix, splitNumber_end outside]
  simp [consume, text, Decimal.spelling]

theorem isHexNumber_text : isHexNumber literal.text = false := by
  rw [Bool.eq_false_iff, ne_eq, isHexNumber_iff]
  rintro ⟨mark, rest, isMark, same⟩
  have member : mark ∈ literal.decimal.spelling ++ literal.suffix := by
    rw [show literal.decimal.spelling ++ literal.suffix = literal.text from rfl, same]
    simp
  rcases List.mem_append.mp member with inside | inside
  · have isLetter := literal.decimal.isLetter_spelling mark inside
    rcases isMark with rfl | rfl <;> cases isLetter
  · have each : ∀ suffix ∈ [[], ['f'], ['F'], ['l'], ['L']], 'x' ∉ suffix ∧ 'X' ∉ suffix := by decide
    obtain ⟨lower, upper⟩ := each _ literal.suffix_mem
    rcases isMark with rfl | rfl
    · exact lower inside
    · exact upper inside

theorem startsNumber_text : startsNumber literal.text = true := by
  rw [text, Decimal.spelling, List.append_assoc]
  have isDigit := literal.decimal.isDigit_whole
  cases found : literal.decimal.whole with
  | cons c whole =>
    rw [found] at isDigit
    exact (startsNumber_of_isDigit (isDigit c List.mem_cons_self) _).1
  | nil =>
    have isDigit := literal.decimal.isDigit_fraction
    have hasDigit := literal.hasDigit.resolve_left (not_not_intro found)
    rw [Decimal.fractionDigits] at hasDigit
    rw [Decimal.fractionSpelling]
    cases fraction : literal.decimal.fraction with
    | none =>
      rw [fraction] at hasDigit
      exact absurd rfl hasDigit
    | some digits =>
      rw [fraction] at hasDigit isDigit
      obtain ⟨c, more, rfl⟩ := List.exists_cons_of_ne_nil hasDigit
      exact (startsNumber_of_isDigit (isDigit _ rfl c List.mem_cons_self) _).2

theorem isOneNumber : IsOneNumber literal.text where
  starts := literal.startsNumber_text
  ends outside := by rw [literal.isHexNumber_text, literal.splitNumber_text outside]

end FloatLiteral

namespace Number

theorem isOneNumber_of_ofText? {text : String} {number : Number} (oneLine : '\n' ∉ text.toList)
    (read : ofText? text = some number) : IsOneNumber text.toList := by
  cases isFloat : number.isFloat with
  | false =>
    obtain ⟨literal, same⟩ := exists_literal_of_integer? oneLine (integer?_of_ofText? read isFloat)
    rw [← same]
    exact literal.isOneNumber
  | true =>
    obtain ⟨literal, same, -⟩ := completes_of_floatLetters? (floatLetters?_of_ofText? oneLine read isFloat)
    rw [← same]
    exact literal.isOneNumber

/-- A text that is read as a literal is the first token, a number with this text, of every text that goes on behind it
    with a character of no number or not at all. -/
theorem literal_is_token {text : String} {number : Number} {rest : List Char} (oneLine : '\n' ∉ text.toList)
    (read : ofText? text = some number) (outside : ∀ c ∈ rest.head?, isNumberChar c = false) (pos : Pos) :
    (Token.Cursor.mk (text.toList ++ rest) pos).step =
      .token ⟨.number text, pos⟩ ⟨rest, pos.after text.toList⟩ := by
  have step := (isOneNumber_of_ofText? oneLine read).step outside pos
  rwa [String.ofList_toList] at step

theorem literal_is_token_signs :
    (Token.Cursor.mk "1e-3+x".toList ⟨1, 1⟩).step = .token ⟨.number "1e-3", ⟨1, 1⟩⟩ ⟨['+', 'x'], ⟨1, 5⟩⟩ ∧
    (Token.Cursor.mk "0x1e+x".toList ⟨1, 1⟩).step = .token ⟨.number "0x1e", ⟨1, 1⟩⟩ ⟨['+', 'x'], ⟨1, 5⟩⟩ := by
  have decimal : ofText? "1e-3" = some ⟨"1e-3", .plain, true⟩ := by decide +kernel
  have hexadecimal : ofText? "0x1e" = some ⟨"0x1e", .plain, false⟩ := by decide +kernel
  have outside : ∀ c ∈ ['+', 'x'].head?, isNumberChar c = false := by
    rintro _ ⟨⟩
    rfl
  exact ⟨literal_is_token (by decide) decimal outside ⟨1, 1⟩, literal_is_token (by decide) hexadecimal outside ⟨1, 1⟩⟩

end Number

end MacroLift
