import MacroLift.Grammar.Macro
import MacroLift.Proofs.Token.Gap

namespace MacroLift

@[simp] theorem Lexeme.text_ofWord (word : String) : (Lexeme.ofWord word).text = word := by
  unfold Lexeme.ofWord
  split
  case h_1 k found =>
    unfold Keyword.ofSpelling? at found
    have same := List.find?_some found
    exact beq_iff_eq.mp same
  case h_2 => rfl

namespace Punct

theorem ofText?_chars (p : Punct) : ofText? p.chars = some p := by
  cases p <;> rfl

theorem ofText?_eq_some {text : List Char} {p : Punct} (found : ofText? text = some p) : p.chars <+: text := by
  simpa using List.find?_some found

theorem head_of_prefix {p : Punct} {c : Char} {rest : List Char} (h : p.chars <+: c :: rest) :
    Lexeme.isNameStart c = false ∧ c ≠ '"' ∧ c ≠ '\x27' := by
  obtain ⟨behind, same⟩ := h
  cases p <;> (cases same; decide)

theorem ofText?_eq_none_iff {text : List Char} : ofText? text = none ↔ ∀ p : Punct, ¬ p.chars <+: text := by
  simp [ofText?, mem_all]

end Punct

namespace Lexeme

theorem splitNumber_append (hex : Bool) (text : List Char) :
    (splitNumber hex text).1 ++ (splitNumber hex text).2 = text := by
  fun_induction splitNumber hex text <;> simp_all [consume]

theorem splitQuoted?_append {quote : Char} {text body rest : List Char}
    (closed : splitQuoted? quote text = some (body, rest)) : body ++ rest = text := by
  fun_induction splitQuoted? quote text generalizing body rest with
  | case1 | case3 | case4 => cases closed
  | case2 => cases closed; rfl
  | case5 _ _ d rest' ih | case6 c rest' _ _ _ ih =>
    obtain ⟨⟨body', after⟩, found, same⟩ := Option.map_eq_some_iff.mp closed
    cases same
    simp [← ih found]

/-- The lexemes at the start of a text: each kind by what it consists of. -/
inductive Scanned : List Char → Lexeme → List Char → Prop where
  | word {c : Char} {rest : List Char} (start : isNameStart c = true) :
      Scanned (c :: rest) (.ofWord (String.ofList ((c :: rest).takeWhile isNameChar)))
        ((c :: rest).dropWhile isNameChar)
  | number {text : List Char} (start : startsNumber text = true) :
      Scanned text (.number (String.ofList (splitNumber (isHexNumber text) text).1))
        (splitNumber (isHexNumber text) text).2
  | string {rest body after : List Char} (closed : splitQuoted? '"' rest = some (body, after)) :
      Scanned ('"' :: rest) (.string (String.ofList ('"' :: body))) after
  | character {rest body after : List Char} (closed : splitQuoted? '\x27' rest = some (body, after)) :
      Scanned ('\x27' :: rest) (.character (String.ofList ('\x27' :: body))) after
  | punct {text : List Char} {p : Punct} (noNumber : startsNumber text = false)
      (noComment : ¬ ['/', '*'] <+: text) (found : Punct.ofText? text = some p) :
      Scanned text (.punct p) (text.drop p.chars.length)

variable {text rest after : List Char} {l : Lexeme} {c : Char} {p : Punct}

theorem toNat_of_isAlpha (h : c.isAlpha = true) : 0x41 ≤ c.toNat ∧ c.toNat ≤ 0x7a := by
  have letter : (decide ('A'.val ≤ c.val ∧ c.val ≤ 'Z'.val) || 'a'.val ≤ c.val && c.val ≤ 'z'.val) = true := h
  simp only [Bool.or_eq_true, Bool.and_eq_true, decide_eq_true_eq, UInt32.le_iff_toNat_le, Char.reduceVal,
    UInt32.reduceToNat] at letter
  have value : c.toNat = c.val.toNat := rfl
  omega

theorem not_isDigitChar_of_isNameStart (h : isNameStart c = true) : Text.isDigitChar c = false := by
  rw [isNameStart, Bool.or_eq_true, beq_iff_eq] at h
  rcases h with letter | rfl
  · obtain ⟨low, high⟩ := toNat_of_isAlpha letter
    have ascii : c.toNat < 0x80 := by omega
    have value : c.toNat = c.val.toNat := rfl
    simp only [Text.isDigitChar, ascii, if_true, Char.isDigit, Bool.and_eq_false_iff, decide_eq_false_iff_not,
      ge_iff_le, UInt32.le_iff_toNat_le, Char.reduceVal, UInt32.reduceToNat]
    omega
  · decide

theorem startsNumber_iff : startsNumber text = true ↔
    ∃ c rest, Text.isDigitChar c = true ∧ (text = c :: rest ∨ text = '.' :: c :: rest) := by
  constructor
  · intro h
    unfold startsNumber at h
    split at h
    · exact ⟨_, _, h, .inr rfl⟩
    · exact ⟨_, _, h, .inl rfl⟩
    · cases h
  · rintro ⟨c, rest, isDigit, rfl | rfl⟩
    · unfold startsNumber
      split
      · rename_i same
        cases same
        cases isDigit
      · rename_i same
        cases same
        exact isDigit
      · rename_i same
        cases same
    · exact isDigit

theorem not_startsNumber_of_isNameStart (h : isNameStart c = true) : startsNumber (c :: rest) = false := by
  rw [Bool.eq_false_iff, ne_eq, startsNumber_iff]
  rintro ⟨d, more, isDigit, same | same⟩
  · cases same
    cases (not_isDigitChar_of_isNameStart h).symm.trans isDigit
  · cases same
    cases h

/-- The kinds of lexemes exclude each other, so the order in which they are tried does not show. -/
theorem scan_eq_ok_iff {c : Char} : scan c rest = .ok (l, after) ↔ Scanned (c :: rest) l after := by
  constructor
  · intro h
    -- each branch has what kept the kinds before it away
    rw [scan] at h
    split at h
    · cases h
      exact .word ‹_›
    · split at h
      · cases h
        exact .number ‹_›
      · rename_i noNumber
        split at h
        · rename_i isQuote
          subst isQuote
          split at h <;> cases h
          exact .string ‹_›
        · split at h
          · rename_i isQuote
            subst isQuote
            split at h <;> cases h
            exact .character ‹_›
          · split at h
            · cases h
            · rename_i noComment
              rw [List.isPrefixOf_iff_prefix] at noComment
              split at h <;> cases h
              exact .punct (Bool.eq_false_iff.mpr noNumber) noComment ‹_›
  · intro h
    -- what begins one kind begins none of those that are tried before it
    cases h with
    | word start => simp [scan, start]
    | number start =>
      have noName : isNameStart c = false := by
        rw [Bool.eq_false_iff]
        intro isName
        cases (not_startsNumber_of_isNameStart isName).symm.trans start
      simp [scan, start, noName]
    | string closed =>
      have noNumber (rest : List Char) : startsNumber ('"' :: rest) = false := by rfl
      simp [scan, noNumber, closed, show isNameStart '"' = false by rfl]
    | character closed =>
      have noNumber (rest : List Char) : startsNumber ('\x27' :: rest) = false := by rfl
      simp [scan, noNumber, closed, show isNameStart '\x27' = false by rfl]
    | @punct _ p noNumber noComment found =>
      obtain ⟨noName, noString, noCharacter⟩ := p.head_of_prefix (Punct.ofText?_eq_some found)
      rw [← List.isPrefixOf_iff_prefix, Bool.not_eq_true] at noComment
      simp [scan, noNumber, noName, noString, noCharacter, noComment, found]

theorem Scanned.ne_nil (h : Scanned text l after) : text ≠ [] := by
  rintro rfl
  cases h with
  | number start => cases start
  | punct noNumber noComment found => cases found

theorem Scanned.append (h : Scanned text l after) : l.text.toList ++ after = text := by
  cases h with
  | word => simp [List.takeWhile_append_dropWhile]
  | number => simp [Lexeme.text, splitNumber_append]
  | string closed | character closed => simp [Lexeme.text, splitQuoted?_append closed]
  | @punct _ p _ _ found =>
    obtain ⟨behind, rfl⟩ := Punct.ofText?_eq_some found
    simp [Lexeme.text, Punct.spelling]

end Lexeme

inductive LexicalFault.IsAt : LexicalFault → List Char → Prop where
  | invalidCharacter {c : Char} {rest : List Char} (noName : Lexeme.isNameStart c = false)
      (noNumber : Lexeme.startsNumber (c :: rest) = false) (noQuote : c ≠ '"' ∧ c ≠ '\x27')
      (noPunct : ∀ p : Punct, ¬ p.chars <+: c :: rest) : IsAt (.invalidCharacter c) (c :: rest)
  | unterminatedLiteral {quote : Char} {rest : List Char} (isQuote : quote = '"' ∨ quote = '\x27')
      (unclosed : Lexeme.splitQuoted? quote rest = none) : IsAt (.unterminatedLiteral quote) (quote :: rest)
  | unterminatedComment {rest : List Char} (unclosed : ¬ ['*', '/'] <:+: rest) :
      IsAt .unterminatedComment ('/' :: '*' :: rest)

theorem LexicalFault.IsAt.ne_nil {fault : LexicalFault} {text : List Char} (h : fault.IsAt text) : text ≠ [] := by
  cases h <;> exact List.cons_ne_nil _ _

theorem Lexeme.isAt_of_scan {c : Char} {rest : List Char} {fault : LexicalFault} (bare : Gap.StartsBare (c :: rest))
    (h : scan c rest = .error fault) : fault.IsAt (c :: rest) := by
  rw [scan] at h
  split at h
  · cases h
  · rename_i noName
    split at h
    · cases h
    · rename_i noNumber
      split at h
      · rename_i isQuote
        subst isQuote
        split at h <;> cases h
        exact .unterminatedLiteral (.inl rfl) ‹_›
      · rename_i noString
        split at h
        · rename_i isQuote
          subst isQuote
          split at h <;> cases h
          exact .unterminatedLiteral (.inr rfl) ‹_›
        · rename_i noCharacter
          split at h
          · rename_i comment
            obtain ⟨behind, same⟩ := List.isPrefixOf_iff_prefix.mp comment
            cases same
            cases h
            exact .unterminatedComment (Gap.unclosed_of_startsBare bare)
          · split at h <;> cases h
            exact .invalidCharacter (Bool.eq_false_iff.mpr noName) (Bool.eq_false_iff.mpr noNumber)
              ⟨noString, noCharacter⟩ (Punct.ofText?_eq_none_iff.mp ‹_›)

end MacroLift
