import MacroLift.Proofs.Batch.Excerpt
import MacroLift.Proofs.Grammar.Steps
import MacroLift.Proofs.Header.Printing

namespace MacroLift

open Token (Stream ReadsAll)
open MacroLift.Parser (expect expectEnd)

namespace Text

variable {before after line : List Char}

/-- Every line break is a newline, or a carriage return in front of one. -/
def BreaksAtNewlines (text : List Char) : Prop :=
  ∀ before c after, text = before ++ c :: after → isLineBreak c = true → c = '\n' ∨ c = '\r' ∧ after.head? = some '\n'

instance : DecidablePred BreaksAtNewlines := fun text =>
  decidable_of_iff (∀ tail ∈ text.tails, tail.head?.all (fun c =>
    !isLineBreak c || c == '\n' || c == '\r' && tail.tail.head? == some '\n') = true) <| by
    constructor
    · rintro h before c after rfl isBreak
      have allowed := h (c :: after) (List.mem_tails _ _ |>.mpr (List.suffix_append _ _))
      simpa [isBreak] using allowed
    · intro h tail member
      obtain ⟨before, rfl⟩ := List.mem_tails _ _ |>.mp member
      cases tail with
      | nil => rfl
      | cons c after =>
        cases isBreak : isLineBreak c with
        | false => simp [isBreak]
        | true => simpa [isBreak] using h before c after rfl isBreak

def throughLine (text : List Char) : List Char :=
  text.takeWhile (· != '\n') ++ (text.dropWhile (· != '\n')).take 1

def withoutReturn (line : List Char) : List Char :=
  if line.getLast? = some '\r' then line.dropLast else line

theorem BreaksAtNewlines.behind (h : BreaksAtNewlines (before ++ after)) : BreaksAtNewlines after := by
  rintro front c back rfl
  exact h (before ++ front) c back (List.append_assoc _ _ _).symm

theorem BreaksAtNewlines.upTo (h : BreaksAtNewlines (line ++ '\n' :: after)) : BreaksAtNewlines (line ++ ['\n']) := by
  intro front c back same isBreak
  have whole : line ++ '\n' :: after = front ++ c :: (back ++ after) := by
    rw [List.append_cons, same]
    simp
  cases back with
  | nil => exact .inl (List.append_singleton_inj.mp same).2.symm
  | cons d back => exact h front c (d :: back ++ after) whole isBreak

section

variable (h : BreaksAtNewlines (line ++ ['\n'])) (noNewline : '\n' ∉ line)
include h noNewline

theorem BreaksAtNewlines.last {front back : List Char} {c : Char} (whole : line = front ++ c :: back)
    (isBreak : isLineBreak c = true) : back = [] ∧ c = '\r' := by
  have split : line ++ ['\n'] = front ++ c :: (back ++ ['\n']) := by
    rw [whole]
    simp
  rcases h front c _ split isBreak with rfl | ⟨rfl, newline⟩
  · exact absurd (by simp [whole]) noNewline
  · cases back with
    | nil => exact ⟨rfl, rfl⟩
    | cons d back =>
      cases newline
      exact absurd (by simp [whole]) noNewline

theorem BreaksAtNewlines.not_isLineBreak : ∀ c ∈ withoutReturn line, isLineBreak c = false := by
  intro c member
  rw [← Bool.not_eq_true]
  intro isBreak
  unfold withoutReturn at member
  split at member
  · rename_i returned
    obtain ⟨kept, rfl⟩ := List.getLast?_eq_some_iff.mp returned
    rw [List.dropLast_concat] at member
    obtain ⟨front, back, rfl⟩ := List.append_of_mem member
    obtain ⟨empty, -⟩ := h.last noNewline (List.append_assoc front (c :: back) ['\r']) isBreak
    exact List.append_ne_nil_of_right_ne_nil back (List.cons_ne_nil _ _) empty
  · rename_i plain
    obtain ⟨front, back, rfl⟩ := List.append_of_mem member
    obtain ⟨rfl, rfl⟩ := h.last noNewline rfl isBreak
    exact plain List.getLast?_concat

theorem lines_of_line (rest : List Char) : lines (line ++ '\n' :: rest) = withoutReturn line :: lines rest := by
  have inLine := h.not_isLineBreak noNewline
  unfold withoutReturn at inLine ⊢
  split
  · rename_i returned
    obtain ⟨front, rfl⟩ := List.getLast?_eq_some_iff.mp returned
    rw [if_pos returned, List.dropLast_concat] at inLine
    rw [List.dropLast_concat, List.append_assoc]
    exact lines_append_lineEnd inLine .pair
  · rename_i plain
    rw [if_neg plain] at inLine
    have newline : IsLineEnd rest ['\n'] := .single rfl fun isReturn => absurd isReturn (by decide)
    exact lines_append_lineEnd inLine newline

end

theorem lines_of_lastLine (h : BreaksAtNewlines line) (noNewline : '\n' ∉ line) (solid : line ≠ []) :
    lines line = [line] ∧ withoutReturn line = line := by
  have noReturn {front back : List Char} {c : Char} (whole : line = front ++ c :: back)
      (isBreak : isLineBreak c = true) : False := by
    rcases h front c back whole isBreak with rfl | ⟨-, newline⟩
    · exact noNewline (by simp [whole])
    · obtain ⟨back, rfl⟩ := List.head?_eq_some_iff.mp newline
      exact noNewline (by simp [whole])
  constructor
  · refine lines_single (fun c member => ?_) solid
    obtain ⟨front, back, whole⟩ := List.append_of_mem member
    rw [← Bool.not_eq_true]
    exact noReturn whole
  · rw [withoutReturn, if_neg]
    intro returned
    obtain ⟨front, whole⟩ := List.getLast?_eq_some_iff.mp returned
    exact noReturn whole rfl

theorem lastLine_of_noNewline (noNewline : '\n' ∉ line) : lastLine line = line := by
  refine List.rtakeWhile_eq_self_iff.mpr fun c member => bne_iff_ne.mpr ?_
  rintro rfl
  exact noNewline member

theorem lastLine_behind (before after : List Char) : lastLine (before ++ '\n' :: after) = lastLine after := by
  induction after using List.reverseRecOn with
  | nil => simp [lastLine]
  | append_singleton after c ih =>
    rw [← List.cons_append, ← List.append_assoc]
    by_cases newline : c = '\n'
    · rw [newline, lastLine_newline, lastLine_newline]
    · rw [lastLine_concat _ newline, lastLine_concat _ newline, ih]

theorem head?_lines (h : BreaksAtNewlines (before ++ throughLine after)) (noNewline : '\n' ∉ before)
    (found : (lines (before ++ after))[0]? = some line) : line = withoutReturn (lineAround before after) := by
  have noNewline' : '\n' ∉ before ++ after.takeWhile (· != '\n') := by
    rw [List.mem_append]
    rintro (member | member)
    · exact noNewline member
    · exact absurd (List.mem_takeWhile_imp member) (by decide)
  rw [lineAround, lastLine_of_noNewline noNewline]
  rw [throughLine, ← List.append_assoc] at h
  rw [← List.takeWhile_append_dropWhile (p := (· != '\n')) (l := after), ← List.append_assoc] at found
  cases rest : after.dropWhile (· != '\n') with
  | nil =>
    rw [rest, List.take_nil, List.append_nil] at h
    rw [rest, List.append_nil] at found
    by_cases empty : before ++ after.takeWhile (· != '\n') = []
    · rw [empty] at found
      cases found
    · obtain ⟨single, same⟩ := lines_of_lastLine h noNewline' empty
      rw [single] at found
      cases found
      exact same.symm
  | cons c more =>
    have newline : c = '\n' := by
      have stopped := List.head?_dropWhile_not (· != '\n') after
      rw [rest] at stopped
      simpa using stopped
    subst newline
    rw [rest] at h found
    rw [lines_of_line h noNewline'] at found
    cases found
    rfl

theorem getElem?_lines (h : BreaksAtNewlines (before ++ throughLine after))
    (found : (lines (before ++ after))[before.count '\n']? = some line) :
    line = withoutReturn (lineAround before after) := by
  -- on the newlines in front of the offset, each of which ends the first line of what is left
  induction number : before.count '\n' generalizing before with
  | zero =>
    rw [number] at found
    exact head?_lines h (List.count_eq_zero.mp number) found
  | succ n ih =>
    have member : '\n' ∈ before := List.count_pos_iff.mp (by omega)
    obtain ⟨first, rest, rfl, noNewline⟩ := List.eq_append_cons_of_mem member
    have fewer : rest.count '\n' = n := by
      rw [List.count_append, List.count_cons_self, List.count_eq_zero.mpr noNewline] at number
      omega
    rw [List.append_assoc, List.cons_append] at h found
    rw [lines_of_line h.upTo noNewline, number, List.getElem?_cons_succ, ← fewer] at found
    have later : BreaksAtNewlines ((first ++ ['\n']) ++ (rest ++ throughLine after)) := by simpa using h
    rw [lineAround, lastLine_behind]
    exact ih later.behind found fewer

theorem length_lastLine_le (h : BreaksAtNewlines (before ++ throughLine after)) (solid : after.head? ≠ some '\n') :
    (lastLine before).length ≤ (withoutReturn (lineAround before after)).length := by
  unfold withoutReturn
  split
  · rename_i returned
    cases after with
    | nil =>
      -- a carriage return at the very end of the text has no newline behind it
      obtain ⟨front, whole⟩ := List.getLast?_eq_some_iff.mp returned
      obtain ⟨start, split⟩ : lastLine before <:+ before := List.rtakeWhile_suffix _ _
      rw [lineAround, List.takeWhile_nil, List.append_nil] at whole
      rw [← split, whole] at h
      rcases h (start ++ front) '\r' [] (by simp [throughLine]) rfl with same | ⟨-, none⟩
      · cases same
      · cases none
    | cons c more =>
      have inside : (c != '\n') = true := bne_iff_ne.mpr fun same => solid (congrArg some same)
      rw [lineAround, List.takeWhile_cons, if_pos inside, List.length_dropLast, List.length_append, List.length_cons]
      omega
  · rw [lineAround, List.length_append]
    omega

end Text

theorem Pos.behind_inj {number : Int} {before after before' after' : List Char}
    (split : before ++ after = before' ++ after') (same : behind number before = behind number before') :
    before = before' ∧ after = after' := by
  have apart {front back : List Char} (longer : behind number front = behind number (front ++ back)) : back = [] := by
    by_contra nonempty
    have later := (behind number front).lt_after nonempty
    rw [after_behind, ← longer] at later
    exact Pos.lt_irrefl _ later
  rcases List.append_eq_append_iff.mp split with ⟨back, rfl, rfl⟩ | ⟨back, rfl, rfl⟩
  · obtain rfl := apart same
    simp
  · obtain rfl := apart same.symm
    simp

theorem Gap.StartsBare.head?_ne {text : List Char} (bare : Gap.StartsBare text) : text.head? ≠ some '\n' := by
  intro newline
  obtain ⟨rest, rfl⟩ := List.head?_eq_some_iff.mp newline
  have split := Gap.split_blank (c := '\n') rfl rest
  rw [show Gap.split _ = _ from bare] at split
  cases congrArg Prod.fst split

namespace Token

variable {cursor : Cursor} {ts : List Token} {stop : Pos} {number : Int} {read : List Char}

theorem ReadsAll.solid (h : ReadsAll cursor ts stop) (placed : cursor.pos = .behind number read) :
    ∀ p ∈ ts.map Token.pos ++ [stop], ∃ before after, read ++ cursor.rest = before ++ after ∧
      p = .behind number before ∧ after.head? ≠ some '\n' := by
  induction h generalizing read with
  | stop step =>
    obtain ⟨-, rfl⟩ := step_eq_stop_iff.mp step
    rw [placed, Pos.after_behind]
    exact List.forall_mem_singleton.mpr ⟨_, [], (List.append_nil _).symm, rfl, nofun⟩
  | @token cursor next t ts _ step _ rest ih =>
    obtain ⟨gap, after, split, -, start, rfl⟩ := step_eq_token_iff.mp step
    have whole := Gap.split_append cursor.rest
    have bare := Gap.startsBare_split cursor.rest
    rw [split] at whole bare
    rw [placed, Pos.after_behind] at start
    rw [List.map_cons, List.cons_append, List.forall_mem_cons, ← whole]
    refine ⟨⟨read ++ gap, _, (List.append_assoc _ _ _).symm, start, bare.head?_ne⟩, fun p member => ?_⟩
    have behind : t.pos.after t.lexeme.text.toList = .behind number (read ++ gap ++ t.lexeme.text.toList) := by
      rw [start, Pos.after_behind]
    simpa using ih behind p member

end Token

namespace Alignment

variable {A : Alignment} {ts us : List Token}

theorem Tokens.parameterNames (h : A.Tokens ts us) :
    A.Outcomes Eq (Parser.parameterNames A.first ts) (Parser.parameterNames A.second us) := by
  induction ts using Parser.parameterNames.induct generalizing us with
  | case1 pos rest =>
    obtain ⟨_, us, rfl, -, h⟩ := tokens_cons.mp h
    exact .ok rfl h
  | case2 name pos commaPos rest ih =>
    simp only [tokens_cons] at h
    obtain ⟨_, _, rfl, -, _, us, rfl, -, h⟩ := h
    rw [Parser.parameterNames, Parser.parameterNames]
    exact (ih h).map fun _ _ => congrArg (name :: ·)
  | case3 name pos rest noComma =>
    obtain ⟨_, us, rfl, -, h⟩ := tokens_cons.mp h
    rw [Parser.parameterNames.eq_3 _ _ _ _ noComma, Parser.parameterNames.eq_3 _ _ _ _ (h.noHead noComma)]
    exact .ok rfl h
  | case4 ts noEllipsis noPair noName =>
    rw [Parser.parameterNames.eq_4 _ _ noEllipsis noPair noName]
    rw [Parser.parameterNames.eq_4 _ us (h.noHead noEllipsis) (fun name => h.noPair (noPair name))
      (fun name => h.noHead (noName name))]
    exact .error (h.mismatchAt _)

theorem inStep_signature :
    A.InStep (fun s s' => s.name = s'.name ∧ s.parameters = s'.parameters) Parser.signature Parser.signature := by
  unfold Parser.signature
  refine inStep_place.bind fun p q _ => (inStep_expectAs _ _).bindEq fun name => (inStep_expect _ _).bindEq fun _ =>
    inStep_peek.bindEq fun next => ?_
  have closed (parameters : List String) :
      A.InStep (fun s s' : Signature => s.name = s'.name ∧ s.parameters = s'.parameters)
        (do expect (.punct .rightParen) "')'"; expectEnd; pure ⟨p, name, parameters⟩)
        (do expect (.punct .rightParen) "')'"; expectEnd; pure ⟨q, name, parameters⟩) :=
    (inStep_expect _ _).bindEq fun _ => inStep_expectEnd.bindEq fun _ => inStep_pure ⟨rfl, rfl⟩
  exact .ite _ ((inStep_pure rfl).bindEq closed)
    ((inStep_ofTokens fun _ _ tokens => tokens.parameterNames).bindEq closed)

end Alignment

theorem Cause.not_grammatical (fault : LexicalFault) :
    ¬ (fault.cause.isSyntactic = true ∨ fault.cause.isUnsupported = true) := by
  rintro (syntactic | isUnsupported)
  · cases fault <;> cases syntactic
  · cases fault <;> cases isUnsupported

variable {source file : String} {parameters : List String} {d : Diagnostic}

theorem exists_place_of_rejected (grammatical : d.cause.isSyntactic = true ∨ d.cause.isUnsupported = true)
    (failed : Signature.ofText source file = .error d ∨
      Body.ofText source file (Text.stringLines source) parameters = .error d) :
    ∃ (stream : Stream) (failure : Failure), tokenize source file 1 = .ok stream ∧ failure.pos ∈ stream.places ∧
      d = failure.diagnostic file (Text.stringLines source) := by
  -- what has no tokens is rejected for its characters
  have untokenized (rejected : tokenize source file 1 = .error d) : False := by
    unfold tokenize at rejected
    split at rejected <;> cases rejected
    exact Cause.not_grammatical _ grammatical
  rcases failed with failed | failed
  · unfold Signature.ofText at failed
    cases read : tokenize source file 1 with
    | error fault =>
      rw [read] at failed
      cases failed
      exact (untokenized read).elim
    | endless =>
      rw [read] at failed
      cases failed
    | ok stream =>
      rw [read, Attempt.ok_bind] at failed
      have ordered := (Token.readsAll_of_tokenize read).ordered
      have result := (Alignment.inStep_signature (Stream.aligned [] ordered ordered rfl)).outcome
      dsimp only [Stream.alignment] at result failed
      cases outcome : (Parser.signature ⟨stream.stop, []⟩ stream.tokens).outcome with
      | ok found =>
        rw [outcome] at failed
        cases failed
      | error failure =>
        rw [outcome] at failed result
        cases failed
        cases result with
        | error alike =>
          obtain ⟨-, index, place, -⟩ := alike
          exact ⟨stream, failure, rfl, List.mem_of_getElem? place, rfl⟩
  · rcases Body.ofText_eq_error_iff.mp failed with rejected | ⟨stream, failure, read, rejected, rfl⟩
    · exact (untokenized rejected).elim
    · have ordered := (Token.readsAll_of_tokenize read).ordered
      have result := (Stream.aligned (parameters.map bindingName) ordered ordered rfl).body
      dsimp only [Stream.alignment] at result
      rw [rejected] at result
      cases result with
      | error alike =>
        obtain ⟨-, index, place, -⟩ := alike
        exact ⟨stream, failure, read, List.mem_of_getElem? place, rfl⟩

/-- A text that is rejected by the grammar is rejected at a place in it. It is quoted with the line that the place is on
    by newlines, less a carriage return at its end, and the place is at a column of it or behind it, if up to the end of
    this line the text has no line breaks but newlines, with or without a carriage return. -/
theorem rejected_quotes_line (source file quoted : String) (parameters : List String) (d : Diagnostic)
    (failed : Signature.ofText source file = .error d ∨
      Body.ofText source file (Text.stringLines source) parameters = .error d)
    (grammatical : d.cause.isSyntactic = true ∨ d.cause.isUnsupported = true) (shown : d.sourceLine = some quoted) :
    ∃ pos : Pos, d.location = some ⟨file, pos⟩ ∧ pos.IsIn 1 source.toList ∧
      ∀ before after, source.toList = before ++ after → pos = .behind 1 before →
        Text.BreaksAtNewlines (before ++ Text.throughLine after) →
          quoted = String.ofList (Text.withoutReturn (Text.lineAround before after)) ∧
            pos.column ≤ quoted.length + 1 := by
  obtain ⟨stream, failure, read, member, rfl⟩ := exists_place_of_rejected grammatical failed
  obtain ⟨before, after, whole, place, solid⟩ :=
    (Token.readsAll_of_tokenize read).solid (Pos.after_eq_behind 1 []) failure.pos member
  have split : source.toList = before ++ after := whole
  refine ⟨failure.pos, rfl, ⟨before, after, split, place⟩, fun before' after' split' place' breaks => ?_⟩
  -- a place belongs to one offset, so both splits are the same
  obtain ⟨rfl, rfl⟩ := Pos.behind_inj (split.symm.trans split') (place.symm.trans place')
  have found : lineAt? (Text.stringLines source) failure.pos.line = some quoted := shown
  have positive : 0 < 1 + (before.count '\n' : Int) := by omega
  have index : (1 + (before.count '\n' : Int) - 1).toNat = before.count '\n' := by omega
  rw [place, lineAt?, Pos.behind, if_pos positive, index, Text.stringLines, List.getElem?_map, split] at found
  obtain ⟨line, isLine, rfl⟩ := Option.map_eq_some_iff.mp found
  obtain rfl := Text.getElem?_lines breaks isLine
  refine ⟨rfl, ?_⟩
  have inside := Text.length_lastLine_le breaks solid
  rw [place, Pos.behind, String.length_ofList]
  dsimp only
  omega

theorem rejected_quotes_line_second : ∃ d,
    Body.ofText "x +\r\n y | z" "<input>" (Text.stringLines "x +\r\n y | z") [] = .error d ∧
      d.location = some ⟨"<input>", ⟨2, 4⟩⟩ ∧
      " y | z" = String.ofList (Text.withoutReturn (Text.lineAround "x +\r\n y ".toList "| z".toList)) ∧
      (4 : Int) ≤ " y | z".length + 1 := by
  have lines : Text.stringLines "x +\r\n y | z" = ["x +", " y | z"] := by decide +kernel
  have read : tokenize "x +\r\n y | z" "<input>" 1 = .ok ⟨[⟨.name "x", ⟨1, 1⟩⟩, ⟨.punct .plus, ⟨1, 3⟩⟩,
      ⟨.name "y", ⟨2, 2⟩⟩, ⟨.punct .pipe, ⟨2, 4⟩⟩, ⟨.name "z", ⟨2, 6⟩⟩], ⟨2, 7⟩⟩ := by
    decide +kernel
  have failed : Body.ofText "x +\r\n y | z" "<input>" (Text.stringLines "x +\r\n y | z") [] =
      .error ⟨.unsupported "bitwise operator '|'", some ⟨"<input>", ⟨2, 4⟩⟩, some " y | z"⟩ := by
    rw [Body.ofText, read, lines]
    rfl
  obtain ⟨pos, located, -, quoted⟩ := rejected_quotes_line _ _ " y | z" _ _ (.inr failed) (.inr rfl) rfl
  cases located
  exact ⟨_, failed, rfl, quoted "x +\r\n y ".toList "| z".toList (by decide +kernel) (by decide +kernel)
    (by decide +kernel)⟩

/-- Behind a form feed an operator is quoted with the text in front of the form feed, and its place is not on it. -/
theorem form_feed_misquoted : ∃ d,
    Body.ofText "x\x0c|" "<input>" (Text.stringLines "x\x0c|") [] = .error d ∧ d.cause.isUnsupported = true ∧
      d.location = some ⟨"<input>", ⟨1, 3⟩⟩ ∧ d.sourceLine = some "x" ∧ ¬ (3 : Int) ≤ "x".length + 1 ∧
      (Text.pieces "x\x0c|".toList).map String.ofList = ["x\x0c|"] := by
  have lines : Text.stringLines "x\x0c|" = ["x", "|"] := by decide +kernel
  have read : tokenize "x\x0c|" "<input>" 1 =
      .ok ⟨[⟨.name "x", ⟨1, 1⟩⟩, ⟨.punct .pipe, ⟨1, 3⟩⟩], ⟨1, 4⟩⟩ := by
    decide +kernel
  refine ⟨⟨.unsupported "bitwise operator '|'", some ⟨"<input>", ⟨1, 3⟩⟩, some "x"⟩, ?_, rfl, rfl, rfl, by decide, ?_⟩
  · rw [Body.ofText, read, lines]
    rfl
  · decide +kernel

end MacroLift
