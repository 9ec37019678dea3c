import MacroLift.Batch.Translator

namespace MacroLift

theorem exists_ok_of_map {ε α β : Type} {result : Attempt ε α} {f : α → β} {b : β}
    (found : result.toOption.map f = some b) : ∃ a, result = .ok a ∧ f a = b := by
  cases result with
  | error | endless => cases found
  | ok a => exact ⟨a, rfl, Option.some.inj found⟩

theorem eq_ok_of_toOption {ε α : Type} {result : Attempt ε α} {a : α} (found : result.toOption = some a) :
    result = .ok a := by
  cases result with
  | error | endless => cases found
  | ok b => exact congrArg Attempt.ok (Option.some.inj found)

variable {signatureText : String} {bodyLines : List String} {analysis : Analysis} {d : Diagnostic}

theorem analyze_eq_ok_iff :
    analyze signatureText bodyLines = .ok analysis ↔
      ∃ signature stream body,
        Signature.ofText signatureText (signatureFile signatureText) = .ok signature ∧
        tokenize (Text.unlines bodyLines) (signatureFile signatureText) 1 = .ok stream ∧
        Parser.body ⟨stream.stop, signature.parameters.map bindingName⟩ stream.tokens = .ok body ∧
        analysis = Analysis.of signature.name signature.parameters body := by
  unfold analyze Body.ofText
  cases signed : Signature.ofText signatureText (signatureFile signatureText) with
  | error | endless => simp [signed]
  | ok signature =>
    cases read : tokenize (Text.unlines bodyLines) (signatureFile signatureText) 1 with
    | error | endless => simp [signed, read]
    | ok stream =>
      cases parsed : Parser.body ⟨stream.stop, signature.parameters.map bindingName⟩ stream.tokens with
      | error => simp [signed, read, parsed]
      | ok body => simp [pure, signed, read, parsed, eq_comm]

theorem Body.ofText_eq_error_iff {text file : String} {lines parameters : List String} :
    Body.ofText text file lines parameters = .error d ↔
      tokenize text file 1 = .error d ∨ ∃ stream failure, tokenize text file 1 = .ok stream ∧
        Parser.body ⟨stream.stop, parameters.map bindingName⟩ stream.tokens = .error failure ∧
        d = failure.diagnostic file lines := by
  unfold Body.ofText
  cases read : tokenize text file 1 with
  | error | endless => simp
  | ok stream =>
    cases parsed : Parser.body ⟨stream.stop, parameters.map bindingName⟩ stream.tokens with
    | error => simp [parsed, eq_comm]
    | ok => simp [parsed]

theorem analyze_eq_error_iff :
    analyze signatureText bodyLines = .error d ↔
      Signature.ofText signatureText (signatureFile signatureText) = .error d ∨
        ∃ signature, Signature.ofText signatureText (signatureFile signatureText) = .ok signature ∧
          Body.ofText (Text.unlines bodyLines) (signatureFile signatureText) bodyLines signature.parameters =
            .error d := by
  unfold analyze
  cases signed : Signature.ofText signatureText (signatureFile signatureText) with
  | error | endless => simp [signed]
  | ok signature =>
    cases read : Body.ofText (Text.unlines bodyLines) (signatureFile signatureText) bodyLines signature.parameters with
    | error | endless => simp [signed, read]
    | ok => simp [pure, signed, read]

theorem translate_eq_ok_iff {tables : Rust.Tables} {text : String} :
    translate tables signatureText bodyLines = .ok text ↔
      ∃ analysis, analyze signatureText bodyLines = .ok analysis ∧ analysis.body.open? = none ∧
        text = Rust.item tables analysis := by
  unfold translate Rust.render
  cases analyzed : analyze signatureText bodyLines with
  | error | endless => simp
  | ok analysis =>
    cases found : analysis.body.open? with
    | none => simp [Attempt.ofExcept, found, eq_comm]
    | some => simp [Attempt.ofExcept, found]

theorem text_eq_item {tables : Rust.Tables} {text : String} (analyzed : analyze signatureText bodyLines = .ok analysis)
    (translated : translate tables signatureText bodyLines = .ok text) : text = Rust.item tables analysis := by
  obtain ⟨other, analyzed', -, rfl⟩ := translate_eq_ok_iff.mp translated
  obtain rfl := Attempt.ok.inj (analyzed.symm.trans analyzed')
  rfl

end MacroLift
