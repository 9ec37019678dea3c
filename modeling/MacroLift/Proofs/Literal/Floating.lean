import Mathlib.Algebra.Order.Field.Rat
import Mathlib.Tactic.Ring
import MacroLift.Proofs.Literal.Integer

namespace MacroLift

inductive ExponentSign where
  | absent
  | plus
  | minus
  deriving Repr, DecidableEq

def ExponentSign.spelling : ExponentSign → List Char
  | .absent => []
  | .plus => ['+']
  | .minus => ['-']

structure Exponent where
  mark : Char
  sign : ExponentSign
  digits : List Char
  isMark : Number.isExponentMark mark = true
  digits_ne_nil : digits ≠ []
  isDigit : ∀ c ∈ digits, c.isDigit = true

namespace Exponent

def spelling (e : Exponent) : List Char :=
  e.mark :: (e.sign.spelling ++ e.digits)

def value (e : Exponent) : ℤ :=
  match e.sign with
  | .absent | .plus => natValue 10 e.digits
  | .minus => -natValue 10 e.digits

end Exponent

/-- A decimal fraction as it is written: digits, perhaps a point and further digits, perhaps an exponent. -/
structure Decimal where
  whole : List Char
  fraction : Option (List Char)
  exponent : Option Exponent
  isDigit_whole : ∀ c ∈ whole, c.isDigit = true
  isDigit_fraction : ∀ digits ∈ fraction, ∀ c ∈ digits, c.isDigit = true

namespace Decimal

def fractionDigits (d : Decimal) : List Char :=
  d.fraction.getD []

def fractionSpelling (d : Decimal) : List Char :=
  d.fraction.elim [] ('.' :: ·)

def exponentSpelling (d : Decimal) : List Char :=
  d.exponent.elim [] Exponent.spelling

def spelling (d : Decimal) : List Char :=
  d.whole ++ (d.fractionSpelling ++ d.exponentSpelling)

def value (d : Decimal) : ℚ :=
  natValue 10 (d.whole ++ d.fractionDigits) / 10 ^ d.fractionDigits.length * 10 ^ (d.exponent.elim 0 Exponent.value)

/-- A floating literal of Rust: digits, and behind them a point with at least one digit, or else an exponent. -/
def IsRust (d : Decimal) : Prop :=
  d.whole ≠ [] ∧ d.fraction.elim (d.exponent ≠ none) (· ≠ [])

def StopsAtPoint (d : Decimal) : Prop :=
  d.fraction = some [] ∧ d.exponent ≠ none

end Decimal

/-- A floating literal of C: a decimal fraction and a suffix. There is a digit in front of the point or behind it, and
    what has neither a point nor an exponent ends in the suffix of a single float. -/
structure FloatLiteral where
  decimal : Decimal
  suffix : List Char
  suffix_mem : suffix ∈ [[], ['f'], ['F'], ['l'], ['L']]
  hasDigit : decimal.whole ≠ [] ∨ decimal.fractionDigits ≠ []
  isFloating : decimal.fraction = none → decimal.exponent = none → suffix ∈ [['f'], ['F']]

def FloatLiteral.text (literal : FloatLiteral) : List Char :=
  literal.decimal.spelling ++ literal.suffix

section Zeros

variable (radix : Nat) (digits : List Char)

theorem natValue_zero_cons : natValue radix ('0' :: digits) = natValue radix digits :=
  Nat.ofDigits_reverse_zero_cons _

theorem natValue_append_zero : natValue radix (digits ++ ['0']) = radix * natValue radix digits := by
  have zero : digitValue '0' = 0 := rfl
  rw [natValue, List.map_append, List.reverse_append, List.map_singleton, List.reverse_singleton, List.singleton_append,
    Nat.ofDigits_cons, zero, natValue]
  exact Nat.zero_add _

end Zeros

namespace Decimal

variable (d : Decimal)

def withLead : Decimal where
  whole := if d.whole = [] then ['0'] else d.whole
  fraction := d.fraction
  exponent := d.exponent
  isDigit_whole := by
    split
    · exact List.all_eq_true.mp rfl
    · exact d.isDigit_whole
  isDigit_fraction := d.isDigit_fraction

def withTrail : Decimal where
  whole := d.whole
  fraction := if d.fractionDigits = [] ∧ d.exponent.isNone then some ['0'] else d.fraction
  exponent := d.exponent
  isDigit_whole := d.isDigit_whole
  isDigit_fraction := by
    split
    · rintro digits ⟨⟩
      exact List.all_eq_true.mp rfl
    · exact d.isDigit_fraction

theorem value_withLead : d.withLead.value = d.value := by
  unfold value withLead fractionDigits
  dsimp only
  split
  · rename_i empty
    rw [empty, List.singleton_append, natValue_zero_cons, List.nil_append]
  · rfl

theorem fraction_withTrail :
    d.withTrail.fraction = if d.fractionDigits = [] ∧ d.exponent.isNone then some ['0'] else d.fraction := rfl

theorem value_withTrail : d.withTrail.value = d.value := by
  by_cases bare : d.fractionDigits = [] ∧ d.exponent.isNone
  · have digits : d.withTrail.fractionDigits = ['0'] := by
      rw [fractionDigits, fraction_withTrail, if_pos bare]
      rfl
    rw [value, value, digits, bare.1]
    show (natValue 10 (d.whole ++ ['0']) : ℚ) / 10 ^ 1 * _ = natValue 10 (d.whole ++ []) / 10 ^ 0 * _
    rw [natValue_append_zero, List.append_nil, Nat.cast_mul, Nat.cast_ofNat, pow_one, pow_zero, div_one,
      mul_div_cancel_left₀ _ (by norm_num)]
    rfl
  · have digits : d.withTrail.fractionDigits = d.fractionDigits := by
      rw [fractionDigits, fraction_withTrail, if_neg bare]
      rfl
    rw [value, digits]
    rfl

def completed : Decimal :=
  d.withLead.withTrail

theorem value_completed : d.completed.value = d.value :=
  d.withLead.value_withTrail.trans d.value_withLead

theorem whole_withLead : d.withLead.whole ≠ [] := by
  rw [withLead]
  dsimp only
  split
  · decide
  · assumption

theorem isRust_withTrail_iff (d : Decimal) (nonempty : d.whole ≠ []) : d.withTrail.IsRust ↔ ¬ d.StopsAtPoint := by
  obtain ⟨whole, fraction, exponent, digits, furtherDigits⟩ := d
  rcases fraction with _ | (_ | ⟨c, rest⟩)
  · cases exponent <;> simpa [IsRust, StopsAtPoint, withTrail, fractionDigits] using nonempty
  · cases exponent <;> simp [IsRust, StopsAtPoint, withTrail, fractionDigits, show whole ≠ [] from nonempty]
  · simpa [IsRust, StopsAtPoint, withTrail, fractionDigits] using nonempty

theorem spelling_completed : d.completed.spelling =
    (if d.whole = [] then ['0'] else d.whole) ++
      ((if d.fractionDigits = [] ∧ d.exponent.isNone then ['.', '0'] else d.fractionSpelling) ++ d.exponentSpelling) := by
  have fraction : d.completed.fractionSpelling =
      if d.fractionDigits = [] ∧ d.exponent.isNone then ['.', '0'] else d.fractionSpelling := by
    rw [fractionSpelling, completed, fraction_withTrail]
    show Option.elim (if d.fractionDigits = [] ∧ d.exponent.isNone then some ['0'] else d.fraction) [] _ = _
    split <;> rfl
  rw [spelling, fraction]
  rfl

theorem isRust_completed_iff : d.completed.IsRust ↔ ¬ d.StopsAtPoint :=
  isRust_withTrail_iff d.withLead d.whole_withLead

end Decimal

namespace Number

variable {text : List Char} {number : Number}

theorem exists_sign (text : List Char) :
    ∃ sign : ExponentSign, (splitSign text).1 = sign.spelling ∧ text = sign.spelling ++ (splitSign text).2 := by
  unfold splitSign
  split
  · exact ⟨.plus, rfl, rfl⟩
  · exact ⟨.minus, rfl, rfl⟩
  · exact ⟨.absent, rfl, rfl⟩

theorem exists_exponent (text : List Char) :
    ∃ exponent : Option Exponent, (splitExponent text).1 = exponent.elim [] Exponent.spelling ∧
      text = exponent.elim [] Exponent.spelling ++ (splitExponent text).2 := by
  cases text with
  | nil => exact ⟨none, rfl, rfl⟩
  | cons mark rest =>
    obtain ⟨sign, spelled, whole⟩ := exists_sign rest
    rw [splitExponent]
    split
    rename_i front digits split
    rw [split] at spelled whole
    dsimp only at spelled whole
    split
    · rename_i found
      obtain ⟨isMark, nonempty⟩ := Bool.and_eq_true_iff.mp found
      have nonempty : digits.takeWhile Char.isDigit ≠ [] := by
        simpa using nonempty
      refine ⟨some ⟨mark, sign, digits.takeWhile Char.isDigit, isMark, nonempty, fun c => List.mem_takeWhile_imp⟩, ?_, ?_⟩
      · rw [spelled]
        rfl
      · show mark :: rest = mark :: (sign.spelling ++ digits.takeWhile Char.isDigit) ++ digits.dropWhile Char.isDigit
        rw [List.cons_append, List.append_assoc, List.takeWhile_append_dropWhile, ← whole]
    · exact ⟨none, rfl, rfl⟩

theorem mem_suffixes_of_isFloatSuffix {suffix : List Char} (isSuffix : isFloatSuffix suffix = true) :
    suffix ∈ [[], ['f'], ['F'], ['l'], ['L']] := by
  unfold isFloatSuffix at isSuffix
  split at isSuffix
  · exact List.mem_cons_self
  · simpa [or_assoc] using isSuffix
  · cases isSuffix

def Completes (text written : List Char) : Prop :=
  ∃ literal : FloatLiteral, literal.text = text ∧ literal.decimal.completed.spelling = written

section Parts

variable {whole fraction suffix : List Char} (isDigit : ∀ c ∈ whole, c.isDigit = true)

include isDigit

theorem completes_pointed {exponent : Option Exponent} (isDigit' : ∀ c ∈ fraction, c.isDigit = true)
    (hasDigit : (whole.isEmpty && fraction.isEmpty) = false) (isSuffix : isFloatSuffix suffix = true) :
    Completes (whole ++ '.' :: (fraction ++ (exponent.elim [] Exponent.spelling ++ suffix)))
      ((if whole.isEmpty then ['0'] else whole) ++ '.' :: fraction ++ exponent.elim [] Exponent.spelling ++
        if fraction.isEmpty && (exponent.elim [] Exponent.spelling).isEmpty then ['0'] else []) := by
  have hasDigit : whole ≠ [] ∨ fraction ≠ [] := by
    simpa [← not_and_or] using hasDigit
  refine ⟨⟨⟨whole, some fraction, exponent, isDigit, by simpa using isDigit'⟩, suffix,
    mem_suffixes_of_isFloatSuffix isSuffix, hasDigit, nofun⟩, ?_, ?_⟩
  · simp [FloatLiteral.text, Decimal.spelling, Decimal.fractionSpelling, Decimal.exponentSpelling]
  · rw [Decimal.spelling_completed]
    cases exponent with
    | none => cases fraction <;> simp [Decimal.fractionDigits, Decimal.fractionSpelling, Decimal.exponentSpelling]
    | some e =>
      simp [Decimal.fractionDigits, Decimal.fractionSpelling, Decimal.exponentSpelling, Exponent.spelling]

theorem completes_single (nonempty : whole ≠ []) (single : suffix = ['f'] ∨ suffix = ['F']) :
    Completes (whole ++ suffix) (whole ++ ['.', '0']) := by
  have isSuffix : suffix ∈ [['f'], ['F']] := by
    simpa using single
  refine ⟨⟨⟨whole, none, none, isDigit, nofun⟩, suffix, ?_, .inl nonempty, fun _ _ => isSuffix⟩, ?_, ?_⟩
  · rcases single with rfl | rfl <;> decide
  · simp [FloatLiteral.text, Decimal.spelling, Decimal.fractionSpelling, Decimal.exponentSpelling]
  · rw [Decimal.spelling_completed]
    simp [nonempty, Decimal.fractionDigits, Decimal.exponentSpelling]

theorem completes_scaled (nonempty : whole ≠ []) (e : Exponent) (isSuffix : isFloatSuffix suffix = true) :
    Completes (whole ++ (e.spelling ++ suffix)) (whole ++ e.spelling) := by
  refine ⟨⟨⟨whole, none, some e, isDigit, nofun⟩, suffix, mem_suffixes_of_isFloatSuffix isSuffix, .inl nonempty,
    nofun⟩, ?_, ?_⟩
  · simp [FloatLiteral.text, Decimal.spelling, Decimal.fractionSpelling, Decimal.exponentSpelling]
  · rw [Decimal.spelling_completed]
    simp [nonempty, Decimal.fractionSpelling, Decimal.exponentSpelling]

end Parts

theorem completes_of_floatLetters? (found : floatLetters? text = some number) :
    Completes text number.text.toList := by
  unfold floatLetters? at found
  dsimp only at found
  have text_eq := List.takeWhile_append_dropWhile (p := Char.isDigit) (l := text)
  have isDigit : ∀ c ∈ text.takeWhile Char.isDigit, c.isDigit = true := fun c => List.mem_takeWhile_imp
  generalize text.takeWhile Char.isDigit = whole at found text_eq isDigit
  -- with a point, with the suffix of a single float alone, or with an exponent
  split at found
  · rename_i rest point
    have rest_eq := List.takeWhile_append_dropWhile (p := Char.isDigit) (l := rest)
    have isDigit' : ∀ c ∈ rest.takeWhile Char.isDigit, c.isDigit = true := fun c => List.mem_takeWhile_imp
    generalize rest.takeWhile Char.isDigit = fraction at found rest_eq isDigit'
    obtain ⟨exponent, spelled, behind⟩ := exists_exponent (rest.dropWhile Char.isDigit)
    rw [spelled] at found
    rw [behind] at rest_eq
    rw [point, ← rest_eq] at text_eq
    split at found
    · cases found
    · rename_i accepted
      rw [Bool.not_eq_true, Bool.or_eq_false_iff, Bool.not_eq_false'] at accepted
      cases found
      rw [← text_eq, floating, String.toList_ofList]
      exact completes_pointed isDigit isDigit' accepted.1 accepted.2
  · obtain ⟨exponent, spelled, behind⟩ := exists_exponent (text.dropWhile Char.isDigit)
    rw [behind] at text_eq
    split at found
    · cases found
    · rename_i nonempty
      rw [List.isEmpty_iff] at nonempty
      split at found
      · rename_i suffix parts
        rw [parts] at spelled text_eq
        split at found
        · rename_i single
          cases found
          rw [← spelled, List.nil_append] at text_eq
          rw [← text_eq, floating, String.toList_ofList]
          exact completes_single isDigit nonempty single
        · cases found
      · split at found
        · rename_i exponentText suffix notEmpty parts isSuffix
          cases found
          rw [parts] at spelled text_eq
          dsimp only at spelled text_eq
          cases exponent with
          | none => exact absurd spelled notEmpty
          | some e =>
            rw [spelled, ← text_eq, floating, String.toList_ofList]
            exact completes_scaled isDigit nonempty e isSuffix
        · cases found

end Number

theorem ExponentSign.spelling_injective : Function.Injective spelling := by
  intro first second same
  cases first <;> cases second <;> first | rfl | cases same

theorem ExponentSign.not_isDigit (sign : ExponentSign) : ∀ c ∈ sign.spelling, (!c.isDigit) = true := by
  apply List.all_eq_true.mp
  cases sign <;> rfl

namespace Exponent

theorem head_spelling (e : Exponent) : ∀ c ∈ e.spelling.head?, c = 'e' ∨ c = 'E' := by
  intro c first
  obtain rfl := Option.some.inj first
  simpa [Number.isExponentMark] using e.isMark

theorem head_digits (e : Exponent) : ∀ c ∈ e.digits.head?, (!c.isDigit) = false := by
  intro c first
  rw [e.isDigit c (List.mem_of_mem_head? first)]
  rfl

theorem spelling_injective : Function.Injective spelling := by
  intro first second same
  obtain ⟨mark, rest⟩ := List.cons_eq_cons.mp same
  obtain ⟨sign, digits⟩ := Text.run_append_inj first.sign.not_isDigit first.head_digits second.sign.not_isDigit
    second.head_digits rest
  have sign := ExponentSign.spelling_injective sign
  cases first
  cases second
  simp_all

end Exponent

namespace Decimal

variable (d : Decimal)

theorem head_exponentSpelling : ∀ c ∈ d.exponentSpelling.head?, c = 'e' ∨ c = 'E' := by
  unfold exponentSpelling
  cases d.exponent with
  | none => nofun
  | some e => exact e.head_spelling

theorem head_behind_whole : ∀ c ∈ (d.fractionSpelling ++ d.exponentSpelling).head?, c.isDigit = false := by
  unfold fractionSpelling
  cases d.fraction with
  | none =>
    intro c first
    rcases d.head_exponentSpelling c first with rfl | rfl <;> rfl
  | some digits =>
    intro c first
    obtain rfl := Option.some.inj first
    rfl

theorem fractionSpelling_inside : ∀ c ∈ d.fractionSpelling, (c == '.' || c.isDigit) = true := by
  have isDigit := d.isDigit_fraction
  unfold fractionSpelling
  cases found : d.fraction with
  | none => nofun
  | some digits =>
    rw [found] at isDigit
    refine List.forall_mem_cons.mpr ⟨rfl, fun c member => ?_⟩
    rw [isDigit digits rfl c member, Bool.or_true]

theorem head_behind_fraction : ∀ c ∈ d.exponentSpelling.head?, (c == '.' || c.isDigit) = false := by
  intro c first
  rcases d.head_exponentSpelling c first with rfl | rfl <;> rfl

theorem fraction_eq_of_spelling {first second : Decimal} (same : first.fractionSpelling = second.fractionSpelling) :
    first.fraction = second.fraction := by
  unfold fractionSpelling at same
  cases one : first.fraction <;> cases other : second.fraction <;> simp_all

theorem exponent_eq_of_spelling {first second : Decimal} (same : first.exponentSpelling = second.exponentSpelling) :
    first.exponent = second.exponent := by
  unfold exponentSpelling at same
  revert same
  cases first.exponent with
  | none =>
    cases second.exponent with
    | none => exact fun _ => rfl
    | some => nofun
  | some e =>
    cases second.exponent with
    | none => nofun
    | some e' => exact fun same => congrArg some (Exponent.spelling_injective same)

theorem spelling_injective : Function.Injective spelling := by
  intro first second same
  obtain ⟨whole, behind⟩ := Text.run_append_inj first.isDigit_whole first.head_behind_whole second.isDigit_whole
    second.head_behind_whole same
  obtain ⟨fraction, exponent⟩ := Text.run_append_inj first.fractionSpelling_inside first.head_behind_fraction
    second.fractionSpelling_inside second.head_behind_fraction behind
  have fraction := fraction_eq_of_spelling fraction
  have exponent := exponent_eq_of_spelling exponent
  cases first
  cases second
  simp_all

def isLetter (c : Char) : Bool :=
  c.isDigit || c == '.' || Number.isExponentMark c || c == '+' || c == '-'

theorem isLetter_of_isDigit {c : Char} (isDigit : c.isDigit = true) : isLetter c = true := by
  simp [isLetter, isDigit]

theorem isLetter_exponentSpelling : ∀ c ∈ d.exponentSpelling, isLetter c = true := by
  unfold exponentSpelling
  cases d.exponent with
  | none => nofun
  | some e =>
    have isMark : isLetter e.mark = true := by
      simp [isLetter, e.isMark]
    have isSign : ∀ c ∈ e.sign.spelling, isLetter c = true := by
      apply List.all_eq_true.mp
      cases e.sign <;> rfl
    have isDigit : ∀ c ∈ e.digits, isLetter c = true := fun c member => isLetter_of_isDigit (e.isDigit c member)
    exact List.forall_mem_cons.mpr ⟨isMark, List.forall_mem_append.mpr ⟨isSign, isDigit⟩⟩

theorem isLetter_spelling : ∀ c ∈ d.spelling, isLetter c = true := by
  have whole : ∀ c ∈ d.whole, isLetter c = true := fun c member => isLetter_of_isDigit (d.isDigit_whole c member)
  have fraction : ∀ c ∈ d.fractionSpelling, isLetter c = true := by
    intro c member
    have isPart := d.fractionSpelling_inside c member
    rw [Bool.or_eq_true] at isPart
    rcases isPart with point | isDigit
    · rw [eq_of_beq point]
      rfl
    · exact isLetter_of_isDigit isDigit
  exact List.forall_mem_append.mpr ⟨whole, List.forall_mem_append.mpr ⟨fraction, d.isLetter_exponentSpelling⟩⟩

end Decimal

namespace FloatLiteral

theorem head_suffix (literal : FloatLiteral) : ∀ c ∈ literal.suffix.head?, Decimal.isLetter c = false := by
  have each : ∀ suffix ∈ [[], ['f'], ['F'], ['l'], ['L']], suffix.head?.all (!Decimal.isLetter ·) = true := by
    decide
  intro c first
  have all := each _ literal.suffix_mem
  rw [Option.all_eq_true] at all
  exact (Bool.not_eq_true' _).mp (all c first)

theorem decimal_eq_of_text {first second : FloatLiteral} (same : first.text = second.text) :
    first.decimal = second.decimal :=
  Decimal.spelling_injective
    (Text.run_append_inj first.decimal.isLetter_spelling first.head_suffix second.decimal.isLetter_spelling
      second.head_suffix same).1

end FloatLiteral

namespace Number

theorem floatLetters?_of_ofText? {text : String} {number : Number} (oneLine : '\n' ∉ text.toList)
    (read : ofText? text = some number) (isFloat : number.isFloat = true) : floatLetters? text.toList = some number := by
  unfold ofText? at read
  split at read
  · rename_i found
    cases read
    rw [isFloat_of_integer? oneLine found] at isFloat
    cases isFloat
  · rwa [dropFinalNewline_of_not_mem oneLine] at read

/-- Floats keep their value. A text without a newline that is read as a floating number is a floating literal of C, and
    the text that is written for it is a decimal fraction of the same value. It is a literal of Rust, unless an exponent
    follows right behind the point. -/
theorem floats_kept {text : String} {number : Number} (oneLine : '\n' ∉ text.toList)
    (read : ofText? text = some number) (isFloat : number.isFloat = true) :
    (∃ literal : FloatLiteral, literal.text = text.toList) ∧
      (∃ written : Decimal, written.spelling = number.text.toList) ∧
      ∀ (literal : FloatLiteral) (written : Decimal), literal.text = text.toList →
        written.spelling = number.text.toList →
          written.value = literal.decimal.value ∧ (written.IsRust ↔ ¬ literal.decimal.StopsAtPoint) := by
  obtain ⟨known, text_eq, number_eq⟩ := completes_of_floatLetters? (floatLetters?_of_ofText? oneLine read isFloat)
  refine ⟨⟨known, text_eq⟩, ⟨known.decimal.completed, number_eq⟩, fun literal written sameText sameNumber => ?_⟩
  have decimal := FloatLiteral.decimal_eq_of_text (sameText.trans text_eq.symm)
  obtain rfl := Decimal.spelling_injective (sameNumber.trans number_eq.symm)
  rw [decimal]
  exact ⟨known.decimal.value_completed, known.decimal.isRust_completed_iff⟩

theorem floats_kept_point :
    '\n' ∉ ".5e-3f".toList ∧ ∃ number, ofText? ".5e-3f" = some number ∧ number.isFloat = true ∧
      ∃ written : Decimal, written.spelling = number.text.toList ∧ written.value = 1 / 2000 ∧ written.IsRust := by
  have oneLine : '\n' ∉ ".5e-3f".toList := by decide
  have read : ofText? ".5e-3f" = some ⟨"0.5e-3", .plain, true⟩ := by decide +kernel
  obtain ⟨-, ⟨written, spelled⟩, kept⟩ := floats_kept oneLine read rfl
  let exponent : Exponent := ⟨'e', .minus, ['3'], by decide, by decide, List.all_eq_true.mp rfl⟩
  let decimal : Decimal := ⟨[], some ['5'], some exponent, nofun, by
    rintro _ ⟨⟩
    exact List.all_eq_true.mp rfl⟩
  let literal : FloatLiteral := ⟨decimal, ['f'], by decide, .inr (by decide), nofun⟩
  obtain ⟨value, isRust⟩ := kept literal written (by decide) spelled
  refine ⟨oneLine, _, read, rfl, written, spelled, ?_, isRust.mpr nofun⟩
  have five : natValue 10 ['5'] = 5 := rfl
  have three : natValue 10 ['3'] = 3 := rfl
  rw [value]
  show (natValue 10 ['5'] : ℚ) / 10 ^ 1 * 10 ^ (-(natValue 10 ['3'] : ℤ)) = 1 / 2000
  rw [five, three]
  norm_num

/-- A point right in front of an exponent stays as it is, and Rust takes what follows it for a name. -/
theorem point_before_exponent_kept :
    ∃ number, ofText? "1.e5" = some number ∧ number.isFloat = true ∧
      ¬ ∃ written : Decimal, written.spelling = number.text.toList ∧ written.IsRust := by
  have read : ofText? "1.e5" = some ⟨"1.e5", .plain, true⟩ := by decide +kernel
  refine ⟨_, read, rfl, ?_⟩
  rintro ⟨written, spelled, isRust⟩
  let exponent : Exponent := ⟨'e', .absent, ['5'], by decide, by decide, List.all_eq_true.mp rfl⟩
  let pointed : Decimal := ⟨['1'], some [], some exponent, List.all_eq_true.mp rfl, by
    rintro _ ⟨⟩
    exact nofun⟩
  have same : written = pointed := Decimal.spelling_injective (spelled.trans (by decide))
  subst same
  exact isRust.2 rfl

end Number

end MacroLift
