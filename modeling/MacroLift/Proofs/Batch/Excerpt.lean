import MacroLift.Proofs.Batch.Layout
import MacroLift.Proofs.Grammar.Signature
import MacroLift.Proofs.Header.Directive

namespace MacroLift

open Token (Stream)

variable {signatureText body file : String} {signature : Signature} {d : Diagnostic} {p : Pos}

namespace Text

variable {text : List Char} {c : Char}

theorem trim_ne_nil (member : c ∈ text) (solid : isBlank c = false) : trim text ≠ [] := by
  intro empty
  obtain ⟨blanks, whole, blank⟩ := trimEnd_append (text.dropWhile isBlank)
  rw [← trim, empty, List.nil_append] at whole
  rw [← List.takeWhile_append_dropWhile (p := isBlank) (l := text), whole] at member
  rcases List.mem_append.mp member with front | back
  · rw [List.all_eq_true.mp List.all_takeWhile c front] at solid
    cases solid
  · rw [blank c back] at solid
    cases solid

end Text

theorem Gap.IsGap.exists_solid {gap : List Char} {c : Char} (isGap : IsGap false gap)
    (start : Lexeme.isNameStart c = true) (rest : List Char) :
    ∃ d ∈ (gap ++ c :: rest).takeWhile (· != '('), Text.isBlank d = false := by
  have first {d : Char} (solid : Text.isBlank d = false) (noParen : (d != '(') = true) (text : List Char) :
      ∃ e ∈ (d :: text).takeWhile (· != '('), Text.isBlank e = false := by
    rw [List.takeWhile_cons, if_pos noParen]
    exact ⟨d, List.mem_cons_self, solid⟩
  induction isGap with
  | nil =>
    refine first (Header.not_isBlank_of_isNameStart start) (bne_iff_ne.mpr ?_) rest
    rintro rfl
    cases start
  | @blank b more isBlank _ ih =>
    obtain ⟨d, member, solid⟩ := ih
    have noParen : (b != '(') = true := by
      rw [bne_iff_ne]
      rintro rfl
      cases isBlank
    rw [List.cons_append, List.takeWhile_cons, if_pos noParen]
    exact ⟨d, List.mem_cons_of_mem _ member, solid⟩
  | continuation | returnContinuation | lineComment | blockComment => exact first (by decide) (by decide) _
  | lastComment last => cases last

theorem signatureFile_of_signed (signed : Signature.ofText signatureText file = .ok signature) :
    signatureFile signatureText =
      "<macro " ++ String.ofList (Text.trim (signatureText.toList.takeWhile (· != '('))) ++ ">" := by
  obtain ⟨pos, openPos, more, stop, read⟩ := Signature.readsAll_of_ofText signed
  obtain ⟨gap, c, rest, -, split, start, -⟩ := read.word
  have whole := Gap.split_append signatureText.toList
  have isGap := Gap.isGap_split signatureText.toList
  dsimp only at split
  rw [split] at whole isGap
  obtain ⟨d, member, solid⟩ := isGap.exists_solid start rest
  rw [whole] at member
  have named : nameInSignature signatureText =
      String.ofList (Text.trim (signatureText.toList.takeWhile (· != '('))) := by
    unfold nameInSignature
    split
    · rename_i empty
      exact absurd empty (Text.trim_ne_nil member solid)
    · rfl
  rw [signatureFile, macroFile, named]

theorem isIn_of_body {text : String} {stream : Stream} {parameters : List String} {failure : Failure}
    (read : tokenize text file 1 = .ok stream)
    (failed : Parser.body ⟨stream.stop, parameters⟩ stream.tokens = .error failure) :
    failure.pos.IsIn 1 text.toList := by
  have reads := Token.readsAll_of_tokenize read
  -- the parse is in step with itself, so it fails at a place of the stream
  have result := (Stream.aligned parameters reads.ordered reads.ordered rfl).body
  dsimp only [Stream.alignment] at result
  rw [failed] at result
  cases result with
  | error alike =>
    obtain ⟨-, index, place, -⟩ := alike
    exact reads.isIn (Pos.after_eq_behind 1 []) failure.pos (List.mem_of_getElem? place)

theorem pieces_unlines (nonempty : Text.stringLines body ≠ []) :
    (Text.pieces (Text.unlines (Text.stringLines body)).toList).map String.ofList = Text.stringLines body := by
  have joined : (Text.unlines (Text.stringLines body)).toList = ['\n'].intercalate (Text.lines body.toList) := by
    have same : (Text.stringLines body).map String.toList = Text.lines body.toList := by simp [Text.stringLines]
    rw [Text.unlines, String.toList_intercalate, same]
    rfl
  rw [joined, Text.stringLines]
  cases lines : Text.lines body.toList with
  | nil => simp [Text.stringLines, lines] at nonempty
  | cons first more =>
    have noBreak : ∀ line ∈ first :: more, '\n' ∉ line := by
      intro line member newline
      rw [← lines] at member
      cases Text.not_isLineBreak_of_mem_lines member _ newline
    rw [Text.pieces_intercalate noBreak]

theorem stringLines_ne_nil {parameters : List String}
    (failed : Body.ofText (Text.unlines (Text.stringLines body)) file (Text.stringLines body) parameters = .error d) :
    Text.stringLines body ≠ [] := by
  intro empty
  rw [empty] at failed
  have read : Stream.ofText (Text.unlines []) 1 = .ok ⟨[], ⟨1, 1⟩⟩ := by decide +kernel
  rw [Body.ofText, tokenize, read] at failed
  cases failed

theorem exists_isIn_of_rejected {parameters : List String}
    (failed : Body.ofText (Text.unlines (Text.stringLines body)) file (Text.stringLines body) parameters = .error d) :
    ∃ p, p.IsIn 1 (Text.unlines (Text.stringLines body)).toList ∧
      d = ⟨d.cause, some ⟨file, p⟩, lineAt? (Text.stringLines body) p.line⟩ := by
  rcases Body.ofText_eq_error_iff.mp failed with untokenized | ⟨stream, failure, read, rejected, rfl⟩
  · unfold tokenize at untokenized
    split at untokenized <;> cases untokenized
    rename_i fault p read
    refine ⟨p, Stream.isIn_of_error read, ?_⟩
    simp only [LexicalFault.diagnostic, pieces_unlines (stringLines_ne_nil failed), Int.sub_add_cancel]
  · exact ⟨failure.pos, isIn_of_body read rejected, rfl⟩

theorem lineAt?_of_isIn (nonempty : Text.stringLines body ≠ [])
    (isIn : p.IsIn 1 (Text.unlines (Text.stringLines body)).toList) :
    ∃ (number column : Nat) (line : String), (Text.stringLines body)[number]? = some line ∧
      1 ≤ column ∧ column ≤ line.length + 1 ∧ p = ⟨number + 1, column⟩ ∧
      lineAt? (Text.stringLines body) p.line = some line := by
  obtain ⟨before, after, whole, rfl⟩ := isIn
  have found : (Text.stringLines body)[before.count '\n']? = some (String.ofList (Text.lineAround before after)) := by
    rw [← pieces_unlines nonempty, whole, List.getElem?_map, Text.getElem?_pieces, Option.map_some]
  refine ⟨before.count '\n', 1 + (Text.lastLine before).length, _, found, Nat.le_add_right _ _, ?_, ?_, ?_⟩
  · rw [String.length_ofList, Text.lineAround, List.length_append]
    omega
  · rw [Pos.behind, Int.add_comm]
    rfl
  · have positive : 0 < 1 + (before.count '\n' : Int) := by omega
    have index : (1 + (before.count '\n' : Int) - 1).toNat = before.count '\n' := by omega
    rw [lineAt?, Pos.behind, if_pos positive, index, found]

/-- The text of a diagnostic with a line. The mark stands behind as many blanks as the line is indented by, and as many
    as there are characters in front of the column. -/
theorem Diagnostic.text_of_sourceLine {location : Location} {line : String} {column : Nat}
    (placed : d.location = some location) (shown : d.sourceLine = some line)
    (marked : location.pos.column = column) (positive : 1 ≤ column) :
    d.text = "\n".intercalate
      ([location.text ++ ": error: " ++ d.cause.message, "    " ++ line,
          String.ofList (List.replicate (4 + (column - 1)) ' ') ++ "^"] ++
        if d.cause.hint.isEmpty then [] else ["hint: " ++ d.cause.hint]) := by
  have blanks : 3 + column = 4 + (column - 1) := by omega
  have isColumn : 0 < (column : Int) := by omega
  rw [Diagnostic.text, textLines, placed, shown]
  dsimp only
  rw [excerpt, marked, if_pos isColumn, Int.toNat_natCast, blanks]
  rfl

/-- A diagnostic on the body of a macro points into it. Its file is the macro by the name that its signature opens with,
    its line is the one of that number in the body, and its text shows the line with a mark under the column, which is
    one of the line's or the one behind it. -/
theorem analyze_points (signatureText body : String) (signature : Signature) (d : Diagnostic)
    (signed : Signature.ofText signatureText (signatureFile signatureText) = .ok signature)
    (failed : analyze signatureText (Text.stringLines body) = .error d) :
    ∃ (location : Location) (number column : Nat) (line : String),
      d.location = some location ∧ d.sourceLine = some line ∧
      location.file = "<macro " ++ String.ofList (Text.trim (signatureText.toList.takeWhile (· != '('))) ++ ">" ∧
      location.pos = ⟨number + 1, column⟩ ∧ (Text.stringLines body)[number]? = some line ∧
      1 ≤ column ∧ column ≤ line.length + 1 ∧
      d.text = "\n".intercalate
        ([location.text ++ ": error: " ++ d.cause.message, "    " ++ line,
            String.ofList (List.replicate (4 + (column - 1)) ' ') ++ "^"] ++
          if d.cause.hint.isEmpty then [] else ["hint: " ++ d.cause.hint]) := by
  rcases analyze_eq_error_iff.mp failed with unsigned | ⟨_, -, rejected⟩
  · cases signed.symm.trans unsigned
  obtain ⟨p, isIn, shown⟩ := exists_isIn_of_rejected rejected
  obtain ⟨number, column, line, isLine, low, high, place, found⟩ := lineAt?_of_isIn (stringLines_ne_nil rejected) isIn
  have located : d.location = some ⟨signatureFile signatureText, p⟩ := by rw [shown]
  have hasLine : d.sourceLine = some line := by rw [shown, found]
  refine ⟨_, number, column, line, located, hasLine, signatureFile_of_signed signed, place, isLine, low, high, ?_⟩
  exact Diagnostic.text_of_sourceLine located hasLine (congrArg Pos.column place) low

theorem analyze_points_literal :
    ∃ (d : Diagnostic) (location : Location) (number column : Nat) (line : String),
      analyze "F(x)" (Text.stringLines "f(\"a\\\nb\" +\n\n") = .error d ∧ d.location = some location ∧
      d.sourceLine = some line ∧ location.file = "<macro F>" ∧ location.pos = ⟨number + 1, column⟩ ∧
      ["f(\"a\\", "b\" +", ""][number]? = some line ∧ 1 ≤ column ∧ column ≤ line.length + 1 := by
  have lines : Text.stringLines "f(\"a\\\nb\" +\n\n" = ["f(\"a\\", "b\" +", ""] := by decide +kernel
  have name : "<macro " ++ String.ofList (Text.trim ("F(x)".toList.takeWhile (· != '('))) ++ ">" = "<macro F>" := by
    decide +kernel
  have named : (Signature.ofText "F(x)" (signatureFile "F(x)")).toOption.map Signature.name = some "F" := by
    decide +kernel
  have rejected : (analyze "F(x)" (Text.stringLines "f(\"a\\\nb\" +\n\n")).toOption.isNone = true := by
    decide +kernel
  have ends : (analyze "F(x)" (Text.stringLines "f(\"a\\\nb\" +\n\n")).isEndless = false := by decide +kernel
  obtain ⟨signature, signed, -⟩ := exists_ok_of_map named
  cases failed : analyze "F(x)" (Text.stringLines "f(\"a\\\nb\" +\n\n") with
  | ok analysis =>
    rw [failed] at rejected
    cases rejected
  | endless =>
    rw [failed] at ends
    cases ends
  | error d =>
    obtain ⟨location, number, column, line, located, shown, file, place, isLine, low, high, -⟩ :=
      analyze_points _ _ signature d signed failed
    exact ⟨d, location, number, column, line, rfl, located, shown, file.trans name, place, lines ▸ isLine, low, high⟩

end MacroLift
