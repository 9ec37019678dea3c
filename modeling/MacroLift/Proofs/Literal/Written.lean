import MacroLift.Proofs.Literal.Extent

namespace MacroLift

variable {text : List Char} {number : Number} {isFloat : Bool}

inductive WrittenNumber : List Char → Bool → Prop where
  | integer {base : Base} {digits : List Char} (nonempty : digits ≠ [])
      (isDigit : ∀ c ∈ digits, base.isDigit c = true) : WrittenNumber (base.rustMark ++ digits) false
  | floating {decimal : Decimal} (whole : decimal.whole ≠ [])
      (behind : decimal.fractionSpelling ++ decimal.exponentSpelling ≠ []) : WrittenNumber decimal.spelling true

namespace Number

theorem written_of_withSuffix? (base : Base) {digits suffix : List Char} (nonempty : digits ≠ [])
    (isDigit : ∀ c ∈ digits, base.isDigit c = true)
    (found : withSuffix? (base.rustMark ++ digits) suffix = some number) :
    WrittenNumber number.text.toList number.isFloat := by
  obtain ⟨marks, -, rfl⟩ := Option.map_eq_some_iff.mp found
  rw [String.toList_ofList]
  exact .integer nonempty isDigit

theorem written_of_based? (base : Base) (found : based? base.rustMark base.isDigit text = some number) :
    WrittenNumber number.text.toList number.isFloat := by
  unfold based? at found
  split at found
  · cases found
  · rename_i nonempty
    rw [List.isEmpty_iff] at nonempty
    exact written_of_withSuffix? base nonempty (fun c => List.mem_takeWhile_imp) found

theorem written_of_integer? (found : integer? text = some number) :
    WrittenNumber number.text.toList number.isFloat := by
  unfold integer? at found
  split at found
  · cases found
  · split at found
    · exact written_of_based? .hexadecimal found
    · split at found
      · exact written_of_based? .binary found
      · split at found
        · exact written_of_based? .octal found
        · have zero : ∀ c ∈ ['0'], Base.decimal.isDigit c = true := List.all_eq_true.mp rfl
          exact written_of_withSuffix? .decimal (by decide) zero found
  · exact written_of_based? .decimal found

end Number

theorem Decimal.behind_completed (d : Decimal) :
    d.completed.fractionSpelling ++ d.completed.exponentSpelling ≠ [] := by
  intro empty
  obtain ⟨noFraction, noExponent⟩ := List.append_eq_nil_iff.mp empty
  have exponent : d.exponent = none := by
    cases found : d.exponent with
    | none => rfl
    | some e =>
      have same : d.completed.exponentSpelling = e.spelling := by
        show d.exponent.elim [] Exponent.spelling = _
        rw [found]
        rfl
      rw [same] at noExponent
      cases noExponent
  have fraction : d.completed.fraction = none := by
    rw [fractionSpelling] at noFraction
    cases found : d.completed.fraction with
    | none => rfl
    | some digits =>
      rw [found] at noFraction
      cases noFraction
  rw [completed, fraction_withTrail] at fraction
  split at fraction
  · cases fraction
  · rename_i digits
    refine digits ⟨?_, ?_⟩
    · rw [fractionDigits, fraction]
      rfl
    · show d.exponent.isNone = true
      rw [exponent]
      rfl

theorem Number.written_of_ofText? {text : String} (read : ofText? text = some number) :
    WrittenNumber number.text.toList number.isFloat := by
  unfold ofText? at read
  split at read
  · rename_i found
    cases read
    exact written_of_integer? found
  · obtain ⟨literal, -, written⟩ := completes_of_floatLetters? read
    rw [← written, isFloat_of_floatLetters? read]
    exact .floating literal.decimal.whole_withLead literal.decimal.behind_completed

namespace WrittenNumber

theorem not_both {decimal : Decimal} {base : Base} {digits : List Char}
    (behind : decimal.fractionSpelling ++ decimal.exponentSpelling ≠ [])
    (isDigit : ∀ c ∈ digits, base.isDigit c = true) : base.rustMark ++ digits ≠ decimal.spelling := by
  intro same
  obtain ⟨c, rest, first⟩ := List.exists_cons_of_ne_nil behind
  have noDigit : c.isDigit = false := decimal.head_behind_whole c (by rw [first]; rfl)
  have member : c ∈ base.rustMark ++ digits := by
    rw [same, Decimal.spelling, first]
    simp
  have letter : ∀ d ∈ base.rustMark, Decimal.isLetter d = true := fun d inside =>
    decimal.isLetter_spelling d (same ▸ List.mem_append_left _ inside)
  cases base with
  | decimal => exact absurd (isDigit c member) (by rw [Base.isDigit, noDigit]; decide)
  | binary => exact absurd (letter 'b' (by decide)) (by decide)
  | octal => exact absurd (letter 'o' (by decide)) (by decide)
  | hexadecimal => exact absurd (letter 'x' (by decide)) (by decide)

theorem unique {isFloat' : Bool} (one : WrittenNumber text isFloat) (other : WrittenNumber text isFloat') :
    isFloat = isFloat' := by
  cases one with
  | @integer base digits _ isDigit =>
    generalize whole : base.rustMark ++ digits = text at other
    cases other with
    | integer => rfl
    | floating _ behind => exact absurd whole (not_both behind isDigit)
  | @floating decimal _ behind =>
    generalize whole : decimal.spelling = text at other
    cases other with
    | integer _ isDigit => exact absurd whole.symm (not_both behind isDigit)
    | floating => rfl

theorem letters (h : WrittenNumber text isFloat) :
    ∀ c ∈ text, (Lexeme.isNumberChar c || Lexeme.isSign c) = true := by
  cases h with
  | @integer base digits _ isDigit =>
    refine List.forall_mem_append.mpr ⟨?_, fun c member => ?_⟩
    · apply List.all_eq_true.mp
      cases base <;> rfl
    · rw [base.isNumberChar_of_isDigit (isDigit c member), Bool.true_or]
  | @floating decimal _ _ =>
    intro c member
    have letter := decimal.isLetter_spelling c member
    simp only [Decimal.isLetter, Bool.or_eq_true, beq_iff_eq] at letter
    rcases letter with (((isDigit | rfl) | mark) | rfl) | rfl
    · simp [Lexeme.isNumberChar, Char.isAlphanum, isDigit]
    · rfl
    · simp only [Number.isExponentMark, Bool.or_eq_true, beq_iff_eq] at mark
      rcases mark with rfl | rfl <;> rfl
    · rfl
    · rfl

theorem first (h : WrittenNumber text isFloat) : ∃ c rest, text = c :: rest ∧ c.isDigit = true := by
  cases h with
  | @integer base digits nonempty isDigit =>
    cases base with
    | decimal =>
      obtain ⟨c, rest, rfl⟩ := List.exists_cons_of_ne_nil nonempty
      exact ⟨c, rest, rfl, isDigit c List.mem_cons_self⟩
    | _ => exact ⟨'0', _, rfl, rfl⟩
  | @floating decimal whole _ =>
    obtain ⟨c, rest, found⟩ := List.exists_cons_of_ne_nil whole
    refine ⟨c, rest ++ (decimal.fractionSpelling ++ decimal.exponentSpelling), ?_, ?_⟩
    · rw [Decimal.spelling, found]
      rfl
    · exact decimal.isDigit_whole c (found ▸ List.mem_cons_self)

end WrittenNumber

end MacroLift
