import MacroLift.Proofs.Grammar.Runs
import MacroLift.Proofs.Token.Position

namespace MacroLift

variable {text file : String} {signature : Signature} {name rest : List Char} {c : Char}

theorem Signature.ofText_eq_ok_iff :
    Signature.ofText text file = .ok signature ↔
      ∃ stream rest, tokenize text file 1 = .ok stream ∧
        Parser.Parses Parser.signature ⟨stream.stop, []⟩ stream.tokens signature rest := by
  unfold Signature.ofText
  cases read : tokenize text file 1 with
  | error | endless => simp
  | ok stream =>
    simp only [Attempt.ok_bind, Attempt.ok.injEq, exists_and_left, exists_eq_left']
    unfold Parser.Parses
    cases (Parser.signature ⟨stream.stop, []⟩ stream.tokens).outcome with
    | error => simp
    | ok result => obtain ⟨found, rest⟩ := result; simp

namespace Parser

theorem tokens_of_signature {setting : Setting} {ts rest : List Token}
    (read : Parses Parser.signature setting ts signature rest) :
    ∃ pos openPos more, ts = ⟨.name signature.name, pos⟩ :: ⟨.punct .leftParen, openPos⟩ :: more := by
  unfold Parser.signature at read
  rw [parses_place_bind] at read
  simp only [parses_bind, parses_expectAs, parses_expect, parses_peek] at read
  obtain ⟨name, _, ⟨⟨lexeme, pos⟩, rfl, named⟩, -, mid, ⟨openPos, rfl⟩, next, _, ⟨-, rfl⟩, read⟩ := read
  have same : signature.name = name := by
    split at read <;> simp only [parses_bind, parses_pure] at read
    · obtain ⟨_, _, -, _, _, -, _, _, -, rfl, -⟩ := read
      rfl
    · obtain ⟨_, _, -, _, _, -, _, _, -, rfl, -⟩ := read
      rfl
  cases lexeme <;> cases named
  exact ⟨pos, openPos, mid, by rw [same]⟩

end Parser

open Token (ReadsAll)

theorem Token.ReadsAll.word {cursor : Token.Cursor} {found : String} {pos stop : Pos} {ts : List Token}
    (read : ReadsAll cursor (⟨.name found, pos⟩ :: ts) stop) :
    ∃ gap c more next, Gap.split cursor.rest = (gap, c :: more) ∧ Lexeme.isNameStart c = true ∧
      found.toList = (c :: more).takeWhile Lexeme.isNameChar ∧
      next.rest = (c :: more).dropWhile Lexeme.isNameChar ∧ ReadsAll next ts stop := by
  cases read with
  | @token _ next _ _ _ first _ read =>
    obtain ⟨gap, after, split, scanned, -, rfl⟩ := step_eq_token_iff.mp first
    dsimp only at split scanned
    generalize (Lexeme.name found).text.toList ++ after = text at split scanned
    generalize same : Lexeme.name found = lexeme at scanned
    cases scanned with
    | @word c more start =>
      have spelled := congrArg Lexeme.text same
      rw [Lexeme.text_ofWord] at spelled
      have whole : found = String.ofList ((c :: more).takeWhile Lexeme.isNameChar) := spelled
      exact ⟨gap, c, more, _, split, start, by rw [whole, String.toList_ofList], rfl, read⟩
    | _ => cases same

theorem Signature.readsAll_of_ofText (signed : Signature.ofText text file = .ok signature) :
    ∃ pos openPos more stop,
      ReadsAll ⟨text.toList, ⟨1, 1⟩⟩ (⟨.name signature.name, pos⟩ :: ⟨.punct .leftParen, openPos⟩ :: more) stop := by
  obtain ⟨stream, rest, read, parsed⟩ := ofText_eq_ok_iff.mp signed
  obtain ⟨pos, openPos, more, front⟩ := Parser.tokens_of_signature parsed
  refine ⟨pos, openPos, more, stream.stop, ?_⟩
  rw [← front]
  exact Token.readsAll_of_tokenize read

end MacroLift
