import MacroLift.Proofs.Grammar.Signature
import MacroLift.Proofs.Header.Directive

namespace MacroLift

variable {c : Char} {text file : String} {name rest : List Char}

theorem Gap.split_of_isWordChar (word : Text.isWordChar c = true) (rest : List Char) :
    split (c :: rest) = ([], c :: rest) := by
  refine startsBare_cons ?_ ?_ ?_
  · rw [← Bool.not_eq_true]
    intro blank
    simp only [isBlank, Bool.or_eq_true, beq_iff_eq] at blank
    rcases blank with ((((rfl | rfl) | rfl) | rfl) | rfl) | rfl <;> cases word
  · rintro rfl
    cases word
  · rintro rfl
    cases word

namespace Header

inductive IsName : List Char → Prop where
  | intro {initial : Char} {more : List Char} (start : isNameStart initial = true)
      (word : ∀ c ∈ initial :: more, Text.isWordChar c = true) : IsName (initial :: more)

instance : DecidablePred IsName := fun name =>
  decidable_of_iff (name.head?.any isNameStart = true ∧ name.all Text.isWordChar = true) <| by
    rw [List.all_eq_true]
    cases name with
    | nil => exact ⟨fun h => absurd h.1 (by decide), nofun⟩
    | cons initial more => exact ⟨fun h => .intro h.1 h.2, fun | .intro start word => ⟨start, word⟩⟩

theorem IsName.isWordChar (isName : IsName name) : ∀ c ∈ name, Text.isWordChar c = true := by
  cases isName with
  | intro _ word => exact word

theorem isName_of_mem {d : Definition} (member : d ∈ definitions text file) : IsName d.name.toList := by
  obtain ⟨logical, -, first, -, read⟩ := exists_line_of_mem member
  obtain ⟨name, parameters, bodyStart, isDirective, rfl⟩ := readLine_fst_eq_some read
  obtain ⟨head, -, isHead⟩ := directive?_eq_some_iff.mp isDirective
  rw [String.toList_ofList]
  cases isHead with
  | intro _ _ _ start word => exact .intro start word

/-- The name that is read off a text which begins with a name and a parenthesis is that name, and it has none but the
    letters of C: behind these the parenthesis has to come at once, and it is no character of a word. -/
theorem IsName.eq_of_signature (isName : IsName name) (whole : text.toList = name ++ '(' :: rest)
    {signature : Signature} (signed : Signature.ofText text file = .ok signature) :
    signature.name.toList = name ∧ ∀ c ∈ name, Lexeme.isNameChar c = true := by
  obtain ⟨pos, openPos, more, stop, read⟩ := Signature.readsAll_of_ofText signed
  obtain ⟨gap, c, behind, next, split, -, found, left, read⟩ := read.word
  dsimp only at split
  have bare : Gap.split text.toList = ([], name ++ '(' :: rest) := by
    rw [whole]
    cases isName with
    | intro _ word => exact Gap.split_of_isWordChar (word _ List.mem_cons_self) _
  obtain ⟨-, same⟩ := Prod.mk.inj (bare.symm.trans split)
  rw [← same] at found left
  have letters : ∀ c ∈ name, Lexeme.isNameChar c = true := by
    cases remains : name.dropWhile Lexeme.isNameChar with
    | nil => exact fun c member => List.dropWhile_eq_nil_iff.mp remains c member
    | cons d others =>
      have word : Text.isWordChar d = true := by
        have among : d ∈ name := (List.dropWhile_suffix _).subset (remains ▸ List.mem_cons_self)
        exact isName.isWordChar d among
      -- what is left of the name stands where the parenthesis is read
      cases read with
      | token step =>
        obtain ⟨gap, after, split, -⟩ := Token.step_eq_token_iff.mp step
        have paren : (Lexeme.punct .leftParen).text.toList = ['('] := String.toList_ofList
        dsimp only at split
        rw [left, List.dropWhile_append, remains, paren] at split
        have head := (Gap.split_of_isWordChar word _).symm.trans split
        cases (Prod.mk.inj head).2
        cases word
  refine ⟨?_, letters⟩
  rw [found, List.takeWhile_append_of_pos letters]
  simp [Lexeme.isNameChar]

end Header

end MacroLift
