import MacroLift.Proofs.Batch.Failures
import MacroLift.Proofs.Grammar.Alignment.Statement
import MacroLift.Proofs.Rust.Rendering
import MacroLift.Proofs.Token.Order

namespace MacroLift

open Token (Stream)

variable {signatureText : String} {lines lines' : List String} {stream stream' : Stream}

def Token.Stream.alignment (parameters : List String) (ordered : stream.places.Pairwise (· < ·))
    (ordered' : stream'.places.Pairwise (· < ·))
    (same : stream.tokens.map Token.lexeme = stream'.tokens.map Token.lexeme) : Alignment where
  first := ⟨stream.stop, parameters⟩
  second := ⟨stream'.stop, parameters⟩
  places p q := ∃ index, stream.places[index]? = some p ∧ stream'.places[index]? = some q
  ordered := by
    rintro p p' q q' ⟨i, first, first'⟩ ⟨j, second, second'⟩
    rw [lt_iff_of_pairwise ordered first second, lt_iff_of_pairwise ordered' first' second']
  stop := by
    have long : stream.tokens.length = stream'.tokens.length := by
      rw [← List.length_map Token.lexeme, same, List.length_map]
    exact ⟨stream.tokens.length, stream.places_stop, long ▸ stream'.places_stop⟩
  parameters := rfl

theorem Token.Stream.aligned (parameters : List String) (ordered : stream.places.Pairwise (· < ·))
    (ordered' : stream'.places.Pairwise (· < ·))
    (same : stream.tokens.map Token.lexeme = stream'.tokens.map Token.lexeme) :
    (alignment parameters ordered ordered' same).Tokens stream.tokens stream'.tokens := by
  have long : stream.tokens.length = stream'.tokens.length := by
    rw [← List.length_map Token.lexeme, same, List.length_map]
  refine List.forall₂_iff_get.mpr ⟨long, fun i inside inside' => ⟨?_, i, places_token inside, places_token inside'⟩⟩
  have lexeme := congrArg (·[i]?) same
  simpa [inside, inside'] using lexeme

theorem translate_eq {tables : Rust.Tables} {signature : Signature}
    (signed : Signature.ofText signatureText (signatureFile signatureText) = .ok signature)
    (read : Stream.ofText (Text.unlines lines) 1 = .ok stream) :
    translate tables signatureText lines =
      match Parser.body ⟨stream.stop, signature.parameters.map bindingName⟩ stream.tokens with
      | .ok body => .ok (Rust.item tables (.of signature.name signature.parameters body))
      | .error failure => .error (failure.diagnostic (signatureFile signatureText) lines) := by
  have tokens : tokenize (Text.unlines lines) (signatureFile signatureText) 1 = .ok stream := by
    rw [tokenize, read]
  unfold translate analyze Body.ofText
  dsimp only
  rw [signed, tokens]
  simp only [Attempt.ok_bind]
  cases parsed : Parser.body ⟨stream.stop, signature.parameters.map bindingName⟩ stream.tokens with
  | error failure => rfl
  | ok body =>
    have complete : body.open? = none := (readsBody_of_body parsed).derives.open?
    simp only [Attempt.ok_bind, pure, Rust.render]
    rw [show (Analysis.of signature.name signature.parameters body).body.open? = none from complete]
    rfl

/-- However the body of a macro is laid out, the macro becomes the same item, or fails for the same cause: in its
    signature, or at the same token of its body. A signature that is read without end is read so for both. -/
theorem translate_relaid {tables : Rust.Tables} (read : Stream.ofText (Text.unlines lines) 1 = .ok stream)
    (read' : Stream.ofText (Text.unlines lines') 1 = .ok stream')
    (same : stream.tokens.map Token.lexeme = stream'.tokens.map Token.lexeme) :
    (∃ text, translate tables signatureText lines = .ok text ∧ translate tables signatureText lines' = .ok text) ∨
    (∃ d, Signature.ofText signatureText (signatureFile signatureText) = .error d ∧
      translate tables signatureText lines = .error d ∧ translate tables signatureText lines' = .error d) ∨
    (Token.NeverEnds signatureText 1 ∧
      translate tables signatureText lines = .endless ∧ translate tables signatureText lines' = .endless) ∨
    ∃ (d d' : Diagnostic) (index : Nat) (pos pos' : Pos),
      translate tables signatureText lines = .error d ∧ translate tables signatureText lines' = .error d' ∧
      d.cause = d'.cause ∧
      stream.places[index]? = some pos ∧ d.location = some ⟨signatureFile signatureText, pos⟩ ∧
      stream'.places[index]? = some pos' ∧ d'.location = some ⟨signatureFile signatureText, pos'⟩ := by
  cases signed : Signature.ofText signatureText (signatureFile signatureText) with
  | error d =>
    have failed (lines : List String) : translate tables signatureText lines = .error d := by
      simp [translate, analyze, signed]
    exact .inr (.inl ⟨d, rfl, failed lines, failed lines'⟩)
  | endless =>
    have never : Token.NeverEnds signatureText 1 := Signature.ofText_eq_endless_iff.mp signed
    have endless (lines : List String) : translate tables signatureText lines = .endless :=
      translate_eq_endless_iff.mpr (.inl never)
    exact .inr (.inr (.inl ⟨never, endless lines, endless lines'⟩))
  | ok signature =>
    have aligned := Stream.aligned (signature.parameters.map bindingName) (Stream.places_ordered read)
      (Stream.places_ordered read') same
    have result := aligned.body
    rw [translate_eq signed read, translate_eq signed read']
    dsimp only [Stream.alignment] at result
    generalize Parser.body ⟨stream.stop, signature.parameters.map bindingName⟩ stream.tokens = outcome at *
    generalize Parser.body ⟨stream'.stop, signature.parameters.map bindingName⟩ stream'.tokens = outcome' at *
    cases result with
    | @ok b b' alike =>
      refine .inl ⟨_, rfl, ?_⟩
      dsimp only
      rw [item_of_unplaced tables signature.name signature.parameters alike]
    | @error failure other alike =>
      obtain ⟨cause, index, place, place'⟩ := alike
      exact .inr (.inr (.inr ⟨_, _, index, _, _, rfl, rfl, cause, place, rfl, place', rfl⟩))

theorem translate_relaid_sum :
    ∃ (d d' : Diagnostic) (index : Nat), translate .kernel "F(x)" ["x +"] = .error d ∧
      translate .kernel "F(x)" ["x /* sum */", "+"] = .error d' ∧ d.cause = d'.cause ∧
      [(⟨1, 1⟩ : Pos), ⟨1, 3⟩, ⟨1, 4⟩][index]? = d.location.map Location.pos ∧
      [(⟨1, 1⟩ : Pos), ⟨2, 1⟩, ⟨2, 2⟩][index]? = d'.location.map Location.pos := by
  have read : Stream.ofText (Text.unlines ["x +"]) 1 =
      .ok ⟨[⟨.name "x", ⟨1, 1⟩⟩, ⟨.punct .plus, ⟨1, 3⟩⟩], ⟨1, 4⟩⟩ := by
    decide +kernel
  have read' : Stream.ofText (Text.unlines ["x /* sum */", "+"]) 1 =
      .ok ⟨[⟨.name "x", ⟨1, 1⟩⟩, ⟨.punct .plus, ⟨2, 1⟩⟩], ⟨2, 2⟩⟩ := by
    decide +kernel
  have rejected : (translate .kernel "F(x)" ["x +"]).toOption = none := by decide +kernel
  have ends : (translate .kernel "F(x)" ["x +"]).isEndless = false := by decide +kernel
  have signed : (Signature.ofText "F(x)" (signatureFile "F(x)")).toOption.isSome = true := by decide +kernel
  rcases @translate_relaid "F(x)" _ _ _ _ .kernel read read' rfl with
    ⟨text, translated, -⟩ | ⟨d, failed, -⟩ | ⟨-, endless, -⟩ |
    ⟨d, d', index, pos, pos', error, error', cause, place, location, place', location'⟩
  · rw [translated] at rejected
    cases rejected
  · rw [failed] at signed
    cases signed
  · rw [endless] at ends
    cases ends
  · exact ⟨d, d', index, error, error', cause, by rw [location]; exact place, by rw [location']; exact place'⟩

end MacroLift
