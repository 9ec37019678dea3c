import MacroLift.Proofs.Grammar.Derivation
import MacroLift.Proofs.Rust.Brackets
import MacroLift.Proofs.Token.Position

namespace MacroLift

open Brackets (IsBalanced isPlain)

theorem Brackets.isPlain_of_kind {kind : Char → Bool} {c : Char}
    (others : ['"', '\x27', '(', ')', '\x7b', '\x7d', '[', ']'].any kind = false) (isKind : kind c = true) :
    isPlain c = true := by
  have marked : isPlain c = false → c ∈ ['"', '\x27', '(', ')', '\x7b', '\x7d', '[', ']'] := by
    unfold isPlain isQuote isClosing closing?
    split
    all_goals
      simp only [List.mem_cons, List.not_mem_nil, or_false]
      simp
    tauto
  by_contra plain
  exact List.any_eq_false.mp others c (marked (Bool.eq_false_iff.mpr plain)) isKind

theorem isPlain_of_isNameChar {c : Char} (h : Lexeme.isNameChar c = true) : isPlain c = true :=
  Brackets.isPlain_of_kind (by decide) h

def Lexeme.IsBalanced : Lexeme → Prop
  | .name text | .string text | .character text => Brackets.IsBalanced text
  | _ => True

theorem Lexeme.Scanned.isBalanced {text after : List Char} {l : Lexeme} (h : Scanned text l after) :
    l.IsBalanced := by
  cases h with
  | @word c rest =>
    unfold Lexeme.ofWord
    split
    · trivial
    · refine Brackets.isBalanced_of_isPlain fun d member => isPlain_of_isNameChar ?_
      rw [String.toList_ofList] at member
      exact List.mem_takeWhile_imp member
  | string closed => exact Brackets.isBalanced_quoted (by decide) closed
  | character closed => exact Brackets.isBalanced_quoted (by decide) closed
  | number | punct => trivial

theorem Token.ReadsAll.isBalanced {cursor : Cursor} {ts : List Token} {stop : Pos} (h : ReadsAll cursor ts stop) :
    ∀ t ∈ ts, t.lexeme.IsBalanced := by
  induction h with
  | stop => exact List.forall_mem_nil _
  | token step _ _ ih =>
    obtain ⟨_, _, _, scanned, -, -⟩ := step_eq_token_iff.mp step
    exact List.forall_mem_cons.mpr ⟨scanned.isBalanced, ih⟩

theorem isBalanced_of_tokenize {text file : String} {line : Int} {stream : Token.Stream}
    (read : tokenize text file line = .ok stream) : ∀ t ∈ stream.tokens, t.lexeme.IsBalanced :=
  (Token.readsAll_of_tokenize read).isBalanced

namespace Number

def isLetter (c : Char) : Bool :=
  Lexeme.isNumberChar c || Lexeme.isSign c

theorem isLetter_of_isDigit {c : Char} (h : c.isDigit = true) : isLetter c = true := by
  simp [isLetter, Lexeme.isNumberChar, Char.isAlphanum, h]

theorem isLetter_of_isAlpha {c : Char} (h : c.isAlpha = true) : isLetter c = true := by
  simp [isLetter, Lexeme.isNumberChar, Char.isAlphanum, h]

theorem isLetter_of_isBinaryDigit {c : Char} (h : isBinaryDigit c = true) : isLetter c = true := by
  simp only [isBinaryDigit, Bool.or_eq_true, beq_iff_eq] at h
  rcases h with rfl | rfl <;> decide

theorem isLetter_of_isOctalDigit {c : Char} (h : isOctalDigit c = true) : isLetter c = true := by
  rw [isOctalDigit, Bool.and_eq_true, decide_eq_true_eq, decide_eq_true_eq] at h
  have top : c ≤ '9' := Char.le_trans h.2 (by decide)
  have digit : c.isDigit = true := Bool.and_eq_true_iff.mpr ⟨decide_eq_true h.1, decide_eq_true top⟩
  exact isLetter_of_isDigit digit

theorem isLetter_of_isHexDigit {c : Char} (h : isHexDigit c = true) : isLetter c = true := by
  simp only [isHexDigit, Bool.or_eq_true, Bool.and_eq_true, decide_eq_true_eq] at h
  rcases h with (digit | ⟨low, high⟩) | ⟨low, high⟩
  · exact isLetter_of_isDigit digit
  · have top : c ≤ 'z' := Char.le_trans high (by decide)
    have lower : c.isLower = true := Bool.and_eq_true_iff.mpr ⟨decide_eq_true low, decide_eq_true top⟩
    exact isLetter_of_isAlpha (Bool.or_eq_true_iff.mpr (.inr lower))
  · have top : c ≤ 'Z' := Char.le_trans high (by decide)
    have upper : c.isUpper = true := decide_eq_true ⟨low, top⟩
    exact isLetter_of_isAlpha (Bool.or_eq_true_iff.mpr (.inl upper))

def AllLetters (chars : List Char) : Prop :=
  ∀ c ∈ chars, isLetter c = true

instance (chars : List Char) : Decidable (AllLetters chars) :=
  List.decidableBAll (isLetter · = true) chars

variable {value text mark suffix : List Char} {number : Number}

theorem AllLetters.append (one : AllLetters value) (other : AllLetters text) : AllLetters (value ++ text) :=
  List.forall_mem_append.mpr ⟨one, other⟩

theorem allLetters_takeWhile {isBaseDigit : Char → Bool} (letter : ∀ {c}, isBaseDigit c = true → isLetter c = true)
    (text : List Char) : AllLetters (text.takeWhile isBaseDigit) :=
  fun _ member => letter (List.mem_takeWhile_imp member)

theorem AllLetters.isBalanced (letters : AllLetters value) : IsBalanced (String.ofList value) := by
  refine Brackets.isBalanced_of_isPlain fun c member => ?_
  rw [String.toList_ofList] at member
  exact Brackets.isPlain_of_kind (by decide) (letters c member)

theorem isBalanced_withSuffix? (letters : AllLetters value) (found : withSuffix? value suffix = some number) :
    IsBalanced number.text := by
  obtain ⟨marks, -, rfl⟩ := Option.map_eq_some_iff.mp found
  exact letters.isBalanced

theorem isBalanced_based? {isBaseDigit : Char → Bool} (letter : ∀ {c}, isBaseDigit c = true → isLetter c = true)
    (marked : AllLetters mark) (found : based? mark isBaseDigit text = some number) : IsBalanced number.text := by
  unfold based? at found
  split at found
  · cases found
  · exact isBalanced_withSuffix? (marked.append (allLetters_takeWhile letter text)) found

theorem isBalanced_integer? (found : integer? text = some number) : IsBalanced number.text := by
  unfold integer? at found
  split at found
  · cases found
  · split at found
    · exact isBalanced_based? isLetter_of_isHexDigit (by decide) found
    · split at found
      · exact isBalanced_based? isLetter_of_isBinaryDigit (by decide) found
      · split at found
        · exact isBalanced_based? isLetter_of_isOctalDigit (by decide) found
        · exact isBalanced_withSuffix? (by decide) found
  · exact isBalanced_based? isLetter_of_isDigit (by decide) found

theorem allLetters_splitSign (text : List Char) : AllLetters (splitSign text).1 := by
  unfold splitSign
  split <;> (dsimp only; decide)

theorem allLetters_splitExponent (text : List Char) : AllLetters (splitExponent text).1 := by
  unfold splitExponent
  split
  · exact List.forall_mem_nil _
  · rename_i mark rest
    dsimp only
    split
    · rename_i isExponent
      rw [Bool.and_eq_true] at isExponent
      have marked : isLetter mark = true := by
        have mark := isExponent.1
        simp only [isExponentMark, Bool.or_eq_true, beq_iff_eq] at mark
        rcases mark with rfl | rfl <;> decide
      rw [List.cons_append]
      exact List.forall_mem_cons.mpr ⟨marked,
        (allLetters_splitSign rest).append (allLetters_takeWhile isLetter_of_isDigit _)⟩
    · exact List.forall_mem_nil _

theorem isBalanced_floatLetters? (found : floatLetters? text = some number) : IsBalanced number.text := by
  have whole : AllLetters (text.takeWhile Char.isDigit) := allLetters_takeWhile isLetter_of_isDigit text
  unfold floatLetters? at found
  dsimp only at found
  split at found
  · rename_i rest _
    have fraction : AllLetters (rest.takeWhile Char.isDigit) := allLetters_takeWhile isLetter_of_isDigit rest
    have exponent := allLetters_splitExponent (rest.dropWhile Char.isDigit)
    split at found
    · cases found
    · cases found
      refine AllLetters.isBalanced (.append (.append (.append ?_ (List.forall_mem_cons.mpr ⟨by decide, fraction⟩))
        exponent) ?_)
      · split
        · decide
        · exact whole
      · split
        · decide
        · exact List.forall_mem_nil _
  · have exponent := allLetters_splitExponent (text.dropWhile Char.isDigit)
    split at found
    · cases found
    · split at found
      · split at found
        · cases found
          exact (whole.append (by decide)).isBalanced
        · cases found
      · rename_i same
        split at found
        · cases found
          rw [same] at exponent
          exact (whole.append exponent).isBalanced
        · cases found

theorem isBalanced_ofText? {text : String} (found : ofText? text = some number) : IsBalanced number.text := by
  unfold ofText? at found
  split at found
  · cases found
    exact isBalanced_integer? ‹_›
  · exact isBalanced_floatLetters? found

end Number

end MacroLift
