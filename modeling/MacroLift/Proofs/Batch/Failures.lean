import MacroLift.Proofs.Batch.Translator
import MacroLift.Proofs.Grammar.Faults
import MacroLift.Proofs.Rust.Rendering
import MacroLift.Proofs.Token.Progress

namespace MacroLift

def Cause.isLexical : Cause → Bool
  | .invalidCharacter _ | .unterminatedLiteral _ | .unterminatedComment => true
  | _ => false

def Cause.Rejects (cause : Cause) : Prop :=
  cause.isLexical = true ∨ cause.isSyntactic = true ∨ cause.isUnsupported = true

variable {signatureText : String} {bodyLines : List String} {d : Diagnostic}

theorem Failure.InGrammar.rejects {failure : Failure} (inGrammar : failure.InGrammar) : failure.cause.Rejects :=
  .inr inGrammar

theorem isLexical_of_tokenize {text file : String} (failed : tokenize text file 1 = .error d) :
    d.cause.isLexical = true := by
  unfold tokenize at failed
  split at failed <;> cases failed
  rename_i fault _ _
  cases fault <;> rfl

theorem rejects_of_signature {file : String} (failed : Signature.ofText signatureText file = .error d) :
    d.cause.Rejects := by
  unfold Signature.ofText at failed
  cases read : tokenize signatureText file 1 with
  | error =>
    rw [read] at failed
    cases failed
    exact .inl (isLexical_of_tokenize read)
  | endless =>
    rw [read] at failed
    cases failed
  | ok stream =>
    have inGrammar := Parser.inGrammar_signature ⟨stream.stop, []⟩ stream.tokens
    rw [read, Attempt.ok_bind] at failed
    split at failed
    · cases failed
    · rename_i rejected
      cases failed
      exact (inGrammar.outcome rejected).rejects

theorem rejects_of_body {file : String} {lines parameters : List String}
    (failed : Body.ofText (Text.unlines bodyLines) file lines parameters = .error d) : d.cause.Rejects := by
  rcases Body.ofText_eq_error_iff.mp failed with read | ⟨stream, failure, -, rejected, rfl⟩
  · exact .inl (isLexical_of_tokenize read)
  · exact (Parser.inGrammar_body rejected).rejects

theorem rejects_of_analyze (failed : analyze signatureText bodyLines = .error d) : d.cause.Rejects := by
  rcases analyze_eq_error_iff.mp failed with rejected | ⟨signature, -, rejected⟩
  · exact rejects_of_signature rejected
  · exact rejects_of_body rejected

theorem open?_of_analyze {analysis : Analysis} (analyzed : analyze signatureText bodyLines = .ok analysis) :
    analysis.body.open? = none := by
  obtain ⟨signature, stream, body, -, -, parsed, rfl⟩ := analyze_eq_ok_iff.mp analyzed
  exact (readsBody_of_body parsed).derives.open?

theorem translate_eq_map (tables : Rust.Tables) (signatureText : String) (bodyLines : List String) :
    translate tables signatureText bodyLines = (analyze signatureText bodyLines).map (Rust.item tables) := by
  cases analyzed : analyze signatureText bodyLines with
  | error | endless =>
    unfold translate
    rw [analyzed]
    rfl
  | ok analysis => exact translate_eq_ok_iff.mpr ⟨analysis, analyzed, open?_of_analyze analyzed, rfl⟩

theorem tokenize_eq_endless_iff {text file : String} : tokenize text file 1 = .endless ↔ Token.NeverEnds text 1 := by
  rw [← Token.ofText_eq_endless_iff, tokenize]
  split <;> simp [*]

theorem Signature.ofText_eq_endless_iff {file : String} :
    Signature.ofText signatureText file = .endless ↔ Token.NeverEnds signatureText 1 := by
  rw [← @tokenize_eq_endless_iff signatureText file, Signature.ofText]
  cases tokenize signatureText file 1 with
  | error | endless => simp
  | ok stream =>
    rw [Attempt.ok_bind]
    split <;> simp

theorem Body.ofText_eq_endless_iff {text file : String} {lines parameters : List String} :
    Body.ofText text file lines parameters = .endless ↔ Token.NeverEnds text 1 := by
  rw [← @tokenize_eq_endless_iff text file, Body.ofText]
  cases tokenize text file 1 with
  | error | endless => simp
  | ok stream =>
    rw [Attempt.ok_bind]
    split <;> simp

theorem analyze_eq_endless_iff : analyze signatureText bodyLines = .endless ↔
    Token.NeverEnds signatureText 1 ∨
      (∃ signature, Signature.ofText signatureText (signatureFile signatureText) = .ok signature) ∧
        Token.NeverEnds (Text.unlines bodyLines) 1 := by
  rw [← @Signature.ofText_eq_endless_iff signatureText (signatureFile signatureText), analyze]
  cases signed : Signature.ofText signatureText (signatureFile signatureText) with
  | error | endless => simp
  | ok signature =>
    rw [← @Body.ofText_eq_endless_iff _ (signatureFile signatureText) bodyLines signature.parameters]
    cases read : Body.ofText (Text.unlines bodyLines) (signatureFile signatureText) bodyLines signature.parameters with
    | error | endless => simp [read]
    | ok => simp [pure, read]

theorem translate_eq_endless_iff {tables : Rust.Tables} : translate tables signatureText bodyLines = .endless ↔
    Token.NeverEnds signatureText 1 ∨
      (∃ signature, Signature.ofText signatureText (signatureFile signatureText) = .ok signature) ∧
        Token.NeverEnds (Text.unlines bodyLines) 1 := by
  rw [translate_eq_map, ← analyze_eq_endless_iff]
  cases analyze signatureText bodyLines <;> simp [Attempt.map]

/-- A macro is translated exactly if it is classified, and else rejected with the same diagnostic: no tree that was
    read has a part that cannot be rendered. What it is rejected for is lexical, an error of the grammar, or C that is
    not supported. Neither comes to an end exactly if the reading of one of its texts does not. -/
theorem translate_eq_analyze (tables : Rust.Tables) (signatureText : String) (bodyLines : List String) :
    translate tables signatureText bodyLines = (analyze signatureText bodyLines).map (Rust.item tables) ∧
      (∀ analysis, analyze signatureText bodyLines = .ok analysis → analysis.body.open? = none) ∧
      (∀ d, translate tables signatureText bodyLines = .error d → d.cause.Rejects) ∧
      (translate tables signatureText bodyLines = .endless ↔
        Token.NeverEnds signatureText 1 ∨
          (∃ signature, Signature.ofText signatureText (signatureFile signatureText) = .ok signature) ∧
            Token.NeverEnds (Text.unlines bodyLines) 1) := by
  have same := translate_eq_map tables signatureText bodyLines
  refine ⟨same, fun _ => open?_of_analyze, fun d failed => ?_, translate_eq_endless_iff⟩
  rw [same] at failed
  cases analyzed : analyze signatureText bodyLines with
  | error =>
    rw [analyzed] at failed
    cases failed
    exact rejects_of_analyze analyzed
  | ok | endless =>
    rw [analyzed] at failed
    cases failed

theorem translate_eq_analyze_remainder :
    ∃ d, analyze "F(x)" ["x % 2"] = .error d ∧ translate .kernel "F(x)" ["x % 2"] = .error d ∧ d.cause.Rejects := by
  obtain ⟨same, -, rejects, -⟩ := translate_eq_analyze .kernel "F(x)" ["x % 2"]
  have failed : (analyze "F(x)" ["x % 2"]).toOption = none := by decide +kernel
  have ends : (analyze "F(x)" ["x % 2"]).isEndless = false := by decide +kernel
  cases analyzed : analyze "F(x)" ["x % 2"] with
  | ok =>
    rw [analyzed] at failed
    cases failed
  | endless =>
    rw [analyzed] at ends
    cases ends
  | error d =>
    rw [analyzed] at same
    exact ⟨d, rfl, same, rejects d same⟩

end MacroLift
