import MacroLift.Proofs.Header.Directive
import MacroLift.Proofs.Token.Progress

namespace MacroLift.Header

/-- Reading a text comes to its end, in front of the end of the text or a fault, or it stands still in front of a digit
    that is no part of a number. Where the text is a header, what is read of its definitions comes to an end unless
    such a digit is one of the header's own characters. -/
theorem ends_unless_foreign_digit (text : String) (line : Int) (file : String) :
    ((∃ ts ending, Token.Ends text line ts ending) ∨
      ∃ ts front c behind, Token.StandsStill text line ts front c behind) ∧
    ∀ d ∈ definitions text file, ∀ part ∈ [d.signatureText, Text.unlines d.bodyLines],
      (∃ ts ending, Token.Ends part 1 ts ending) ∨
      ∃ c ∈ text.toList, Text.isDigitChar c = true ∧ Lexeme.isNumberChar c = false := by
  refine ⟨Token.ends_or_stands_still text line, fun d member part isPart => ?_⟩
  rcases Token.ends_or_stands_still part 1 with ends | ⟨ts, front, c, behind, still⟩
  · exact .inl ends
  · have inPart : c ∈ part.toList := by simp [still.whole]
    have origin : c ∈ text.toList ∨ c = '(' ∨ c = ')' ∨ c = '\n' := by
      refine mem_of_mem_definitions member ?_
      simp only [List.mem_cons, List.not_mem_nil, or_false] at isPart
      rcases isPart with rfl | rfl
      · exact .inl inPart
      · exact .inr inPart
    have isDigit := still.isDigit
    rcases origin with inText | rfl | rfl | rfl
    · exact .inr ⟨c, inText, isDigit, still.outside⟩
    all_goals exact absurd isDigit (by decide)

theorem ends_of_sum : ∃ ts ending, Token.Ends "x + 1" 1 ts ending := by
  have member : (⟨"INC", "x", ["x + 1"], some ⟨"inc.h", ⟨1, 1⟩⟩⟩ : Definition) ∈
      definitions "#define INC(x) x + 1" "inc.h" := by
    decide +kernel
  have readable := (ends_unless_foreign_digit "#define INC(x) x + 1" 1 "inc.h").2
  rcases readable _ member "x + 1" (by decide) with ends | ⟨c, inHeader, isDigit, outside⟩
  · exact ends
  · have plain : "#define INC(x) x + 1".toList.all (fun c => !Text.isDigitChar c || Lexeme.isNumberChar c) = true := by
      decide +kernel
    have kept := List.all_eq_true.mp plain c inHeader
    rw [isDigit, outside] at kept
    cases kept

/-- A superscript is read as an empty number, and reading it does not end. -/
theorem superscript_stands_still :
    (∃ t ∈ (Token.Cursor.take 1 ⟨"²".toList, ⟨1, 1⟩⟩).1, t.lexeme.text = "") ∧
      ¬ ∃ ts ending, Token.Ends "²" 1 ts ending := by
  refine ⟨by decide +kernel, ?_⟩
  rintro ⟨ts, ending, ends⟩
  have short : ts.length < 2 := Nat.lt_succ_of_le ends.bounded
  have taken : (ts, ending).2 = .more := by
    rw [← ends.taken 2 short]
    decide +kernel
  rcases ends.final with ⟨pos, rfl, -⟩ | ⟨fault, pos, rfl, -⟩ <;> cases taken

end MacroLift.Header
