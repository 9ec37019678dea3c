import MacroLift.Header.Scan
import MacroLift.Proofs.Header.Lines
import MacroLift.Proofs.Token.Scan

namespace MacroLift

theorem mem_of_mem_intercalate {α : Type} {separator : List α} {parts : List (List α)} {a : α}
    (h : a ∈ separator.intercalate parts) : a ∈ separator ∨ ∃ part ∈ parts, a ∈ part := by
  induction parts with
  | nil => cases h
  | cons part parts ih =>
    cases parts with
    | nil =>
      rw [List.intercalate_singleton] at h
      exact .inr ⟨part, List.mem_cons_self, h⟩
    | cons next parts =>
      rw [List.intercalate_cons_cons, List.mem_append, List.mem_append] at h
      rcases h with (h | h) | h
      · exact .inr ⟨part, List.mem_cons_self, h⟩
      · exact .inl h
      · exact (ih h).imp id fun ⟨p, member, found⟩ => ⟨p, List.mem_cons_of_mem _ member, found⟩

theorem mem_intercalate_of_mem {α : Type} {separator part : List α} {parts : List (List α)} {a : α}
    (member : part ∈ parts) (h : a ∈ part) : a ∈ separator.intercalate parts := by
  induction parts with
  | nil => cases member
  | cons first parts ih =>
    cases parts with
    | nil =>
      rw [List.intercalate_singleton]
      rwa [List.mem_singleton.mp member] at h
    | cons next parts =>
      rw [List.intercalate_cons_cons, List.mem_append, List.mem_append]
      rcases List.mem_cons.mp member with rfl | member
      · exact .inl (.inl h)
      · exact .inr (ih member)

namespace Text

theorem intercalate_pieces (text : List Char) : ['\n'].intercalate (pieces text) = text := by
  fun_induction pieces text with
  | case1 => rfl
  | case2 rest ih =>
    obtain ⟨piece, more, found⟩ := List.exists_cons_of_ne_nil (pieces_ne_nil rest)
    rw [found] at ih ⊢
    rw [List.intercalate_cons_cons, ih]
    rfl
  | case3 c rest _ none => exact absurd none (pieces_ne_nil rest)
  | case4 c rest _ piece more found ih =>
    rw [found] at ih
    rw [← ih]
    cases more with
    | nil => rw [List.intercalate_singleton, List.intercalate_singleton]
    | cons next more => rw [List.intercalate_cons_cons, List.intercalate_cons_cons]; rfl

theorem pieces_cons_of_ne {c : Char} (notBreak : c ≠ '\n') {rest piece : List Char} {more : List (List Char)}
    (found : pieces rest = piece :: more) : pieces (c :: rest) = (c :: piece) :: more := by
  rw [pieces, found]
  exact fun same => notBreak same

theorem pieces_of_not_mem {line : List Char} (noBreak : '\n' ∉ line) : pieces line = [line] := by
  induction line with
  | nil => rfl
  | cons c line ih =>
    exact pieces_cons_of_ne (List.ne_of_not_mem_cons noBreak).symm (ih (List.not_mem_of_not_mem_cons noBreak))

theorem pieces_append_newline {line : List Char} (noBreak : '\n' ∉ line) (rest : List Char) :
    pieces (line ++ '\n' :: rest) = line :: pieces rest := by
  induction line with
  | nil => rfl
  | cons c line ih =>
    exact pieces_cons_of_ne (List.ne_of_not_mem_cons noBreak).symm (ih (List.not_mem_of_not_mem_cons noBreak))

theorem pieces_intercalate {first : List Char} {more : List (List Char)}
    (noBreak : ∀ line ∈ first :: more, '\n' ∉ line) : pieces (['\n'].intercalate (first :: more)) = first :: more := by
  induction more generalizing first with
  | nil =>
    rw [List.intercalate_singleton]
    exact pieces_of_not_mem (noBreak first List.mem_cons_self)
  | cons next more ih =>
    obtain ⟨noBreak, others⟩ := List.forall_mem_cons.mp noBreak
    rw [List.intercalate_cons_cons, List.append_assoc, List.singleton_append, pieces_append_newline noBreak, ih others]

end Text

namespace Header

variable {text rest line first name parameters body bodyStart start head : List Char} {file : String} {d : Definition}
  {logical : LogicalLine}

theorem not_isBlank_of_isNameStart {c : Char} (h : isNameStart c = true) : Text.isBlank c = false := by
  rw [isNameStart, Bool.or_eq_true, beq_iff_eq] at h
  rcases h with letter | rfl
  · obtain ⟨low, high⟩ := Lexeme.toNat_of_isAlpha letter
    simp only [Text.isBlank, Bool.or_eq_false_iff, Bool.and_eq_false_iff, decide_eq_false_iff_not,
      beq_eq_false_iff_ne]
    omega
  · decide

theorem isWordChar_of_isNameStart {c : Char} (h : isNameStart c = true) : Text.isWordChar c = true := by
  rw [isNameStart, Bool.or_eq_true, beq_iff_eq] at h
  rcases h with letter | rfl
  · obtain ⟨low, high⟩ := Lexeme.toNat_of_isAlpha letter
    have ascii : c.toNat < 0x80 := by omega
    rw [Text.isWordChar, if_pos ascii, Char.isAlphanum, letter]
    rfl
  · decide

@[simp] theorem dropStart?_nil (text : List Char) : dropStart? [] text = some text := rfl

@[simp] theorem dropStart?_cons_cons (c : Char) (start text : List Char) :
    dropStart? (c :: start) (c :: text) = dropStart? start text := by
  simp [dropStart?]

theorem dropWhile_isBlank {blanks : List Char} {c : Char} (blank : ∀ b ∈ blanks, Text.isBlank b = true)
    (solid : Text.isBlank c = false) (rest : List Char) :
    (blanks ++ c :: rest).dropWhile Text.isBlank = c :: rest := by
  rw [List.dropWhile_append_of_pos blank, List.dropWhile_cons_of_neg (by rw [solid]; decide)]

theorem dropStart?_eq_some (h : dropStart? start text = some rest) : text = start ++ rest := by
  unfold dropStart? at h
  split at h
  · rename_i found
    cases h
    exact (List.prefix_iff_eq_append.mp (List.isPrefixOf_iff_prefix.mp found)).symm
  · cases h

theorem dropBlanks?_eq_some (h : dropBlanks? text = some rest) :
    ∃ blank gap, text = blank :: gap ++ rest ∧ ∀ c ∈ blank :: gap, Text.isBlank c = true := by
  unfold dropBlanks? at h
  split at h
  · rename_i first
    cases h
    cases text with
    | nil => cases first
    | cons blank text =>
      have isBlank : Text.isBlank blank = true := first
      refine ⟨blank, text.takeWhile Text.isBlank, ?_, List.forall_mem_cons.mpr ⟨isBlank, ?_⟩⟩
      · rw [List.dropWhile_cons_of_pos isBlank, List.cons_append, List.takeWhile_append_dropWhile]
      · exact List.all_eq_true.mp List.all_takeWhile
  · cases h

theorem splitName?_eq_some (h : splitName? text = some (name, rest)) :
    text = name ++ rest ∧ (∀ c ∈ name, Text.isWordChar c = true) ∧
      ∃ initial more, name = initial :: more ∧ isNameStart initial = true := by
  unfold splitName? at h
  split at h
  · rename_i first
    cases h
    refine ⟨List.takeWhile_append_dropWhile.symm, List.all_eq_true.mp List.all_takeWhile, ?_⟩
    cases text with
    | nil => cases first
    | cons initial text =>
      have start : isNameStart initial = true := first
      exact ⟨initial, _, List.takeWhile_cons_of_pos (isWordChar_of_isNameStart start), start⟩
  · cases h

theorem splitParameters?_eq_some (h : splitParameters? text = some (parameters, rest)) :
    text = parameters ++ ')' :: rest ∧ ')' ∉ parameters := by
  unfold splitParameters? at h
  split at h
  · cases h
  · rename_i c rest' found
    cases h
    have isClose : c = ')' := by
      have stopped := List.head_dropWhile_not (· != ')') (l := text) (by rw [found]; exact List.cons_ne_nil _ _)
      simpa [found] using stopped
    refine ⟨?_, fun member => ?_⟩
    · have whole := @List.takeWhile_append_dropWhile _ (· != ')') text
      rw [found, isClose] at whole
      exact whole.symm
    · simpa using List.all_eq_true.mp List.all_takeWhile _ member

def IsPlain (text : List Char) : Prop :=
  ∀ c ∈ text, c ≠ '/' ∧ c ≠ '*'

theorem isPlain_of_isBlank (h : ∀ c ∈ text, Text.isBlank c = true) : IsPlain text := by
  intro c member
  constructor <;> rintro rfl <;> exact absurd (h _ member) (by decide)

theorem isPlain_of_isWordChar (h : ∀ c ∈ text, Text.isWordChar c = true) : IsPlain text := by
  intro c member
  constructor <;> rintro rfl <;> exact absurd (h _ member) (by decide)

theorem IsPlain.append (left : IsPlain text) (right : IsPlain rest) : IsPlain (text ++ rest) :=
  List.forall_mem_append.mpr ⟨left, right⟩

/-- The start of a definition, up to the parenthesis that closes its parameters. -/
inductive IsHead : List Char → List Char → List Char → Prop where
  | intro {margin inner gap more parameters : List Char} {blank initial : Char}
      (marginBlank : ∀ c ∈ margin, Text.isBlank c = true) (innerBlank : ∀ c ∈ inner, Text.isBlank c = true)
      (gapBlank : ∀ c ∈ blank :: gap, Text.isBlank c = true) (start : isNameStart initial = true)
      (word : ∀ c ∈ initial :: more, Text.isWordChar c = true) (unclosed : ')' ∉ parameters) :
      IsHead (initial :: more) parameters
        (margin ++ '#' :: (inner ++ 'd' :: 'e' :: 'f' :: 'i' :: 'n' :: 'e' :: (blank :: gap ++
          initial :: (more ++ '(' :: (parameters ++ [')'])))))

theorem IsHead.directive?_append (h : IsHead name parameters head) (body : List Char) :
    directive? (head ++ body) = some (name, parameters, body) := by
  obtain @⟨margin, inner, gap, more, parameters, blank, initial, marginBlank, innerBlank, gapBlank, start, word,
    unclosed⟩ := h
  have atName : dropBlanks? (blank :: gap ++ initial :: (more ++ '(' :: (parameters ++ ')' :: body))) =
      some (initial :: (more ++ '(' :: (parameters ++ ')' :: body))) := by
    rw [dropBlanks?, dropWhile_isBlank gapBlank (not_isBlank_of_isNameStart start)]
    exact if_pos (gapBlank blank List.mem_cons_self)
  have named : splitName? (initial :: (more ++ '(' :: (parameters ++ ')' :: body))) =
      some (initial :: more, '(' :: (parameters ++ ')' :: body)) := by
    rw [splitName?, ← List.cons_append, List.takeWhile_append_of_pos word, List.dropWhile_append_of_pos word]
    simp [start, Text.isWordChar]
  have closed : splitParameters? (parameters ++ ')' :: body) = some (parameters, body) := by
    have inside : ∀ c ∈ parameters, (c != ')') = true := by
      intro c member
      rw [bne_iff_ne]
      rintro rfl
      exact unclosed member
    simp [splitParameters?, List.takeWhile_append_of_pos inside, List.dropWhile_append_of_pos inside]
  have letter : Text.isBlank 'd' = false := rfl
  simp only [List.append_assoc, List.cons_append, List.nil_append] at atName named closed ⊢
  rw [directive?, dropWhile_isBlank marginBlank (by decide)]
  simp [dropWhile_isBlank innerBlank letter, atName, named, closed]

theorem directive?_eq_some_iff :
    directive? line = some (name, parameters, body) ↔ ∃ head, line = head ++ body ∧ IsHead name parameters head := by
  constructor
  · intro h
    simp only [directive?, Option.bind_eq_bind, Option.bind_eq_some_iff, Option.pure_def, Option.some.injEq,
      Prod.exists, Prod.mk.injEq] at h
    obtain ⟨afterHash, hash, afterWord, word, atName, blanks, name', afterName, named, atParameters, paren, parameters',
      body', closed, rfl, rfl, rfl⟩ := h
    obtain ⟨blank, gap, afterWordWhole, gapBlank⟩ := dropBlanks?_eq_some blanks
    obtain ⟨nameWhole, nameWord, initial, more, rfl, start⟩ := splitName?_eq_some named
    obtain ⟨closedWhole, unclosed⟩ := splitParameters?_eq_some closed
    have innerWhole := @List.takeWhile_append_dropWhile _ Text.isBlank afterHash
    rw [dropStart?_eq_some word, afterWordWhole, nameWhole, dropStart?_eq_some paren, closedWhole] at innerWhole
    have whole := @List.takeWhile_append_dropWhile _ Text.isBlank line
    rw [dropStart?_eq_some hash, ← innerWhole] at whole
    exact ⟨_, by simpa using whole.symm, .intro (List.all_eq_true.mp List.all_takeWhile)
      (List.all_eq_true.mp List.all_takeWhile) gapBlank start nameWord unclosed⟩
  · rintro ⟨head, rfl, isHead⟩
    exact isHead.directive?_append body

theorem directive?_eq_some (h : directive? line = some (name, parameters, body)) :
    ∃ front, line = front ++ name ++ '(' :: parameters ++ ')' :: body ∧ IsPlain front ∧ IsPlain name := by
  obtain ⟨head, rfl, @⟨margin, inner, gap, more, parameters, blank, initial, marginBlank, innerBlank, gapBlank, -, word,
    -⟩⟩ := directive?_eq_some_iff.mp h
  refine ⟨margin ++ ['#'] ++ (inner ++ ['d', 'e', 'f', 'i', 'n', 'e'] ++ blank :: gap), by simp, ?_,
    isPlain_of_isWordChar word⟩
  exact ((isPlain_of_isBlank marginBlank).append (by simp [IsPlain])).append
    (((isPlain_of_isBlank innerBlank).append (by simp [IsPlain])).append (isPlain_of_isBlank gapBlank))

theorem prefix_of_cutOpenComment (text : List Char) : (cutOpenComment text).1 <+: text := by
  fun_induction cutOpenComment text with
  | case1 => exact List.prefix_refl _
  | case2 rest => exact List.nil_prefix
  | case3 rest _ kept opened found ih | case4 c rest _ kept opened found ih =>
    rw [found] at ih
    exact (List.prefix_cons_inj _).mpr ih

theorem infix_of_dropEmptyEnds (lines : List (List Char)) : dropEmptyEnds lines <:+: lines := by
  have front : (lines.reverse.dropWhile List.isEmpty).reverse <+: lines := by
    have back := List.dropWhile_suffix List.isEmpty (l := lines.reverse)
    rwa [← List.reverse_prefix, List.reverse_reverse] at back
  exact (List.dropWhile_suffix _).isInfix.trans front.isInfix

theorem mem_of_mem_bodyLines {lines : List (List Char)} {c : Char} (member : line ∈ (bodyLines lines).1)
    (found : c ∈ line) : c = '\n' ∨ ∃ line ∈ lines, c ∈ line := by
  have trimmed : line ∈ (Text.pieces (cutOpenComment (['\n'].intercalate lines)).1).map Text.trim :=
    (infix_of_dropEmptyEnds _).subset member
  obtain ⟨piece, isPiece, rfl⟩ := List.mem_map.mp trimmed
  have kept : c ∈ (cutOpenComment (['\n'].intercalate lines)).1 := by
    rw [← Text.intercalate_pieces (cutOpenComment (['\n'].intercalate lines)).1]
    exact mem_intercalate_of_mem isPiece ((Text.infix_trim piece).subset found)
  exact (mem_of_mem_intercalate ((prefix_of_cutOpenComment _).subset kept)).imp List.mem_singleton.mp id

theorem readLine_fst_eq_some (h : (readLine file logical first).1 = some d) :
    ∃ name parameters bodyStart, directive? first = some (name, parameters, bodyStart) ∧
      d = ⟨String.ofList name, String.ofList (Text.trim parameters),
        (bodyLines (bodyStart :: logical.more)).1.map String.ofList, some ⟨file, ⟨logical.number, 1⟩⟩⟩ := by
  unfold readLine at h
  split at h
  · cases h
  · rename_i name parameters bodyStart found
    exact ⟨name, parameters, bodyStart, found, (Option.some.inj h).symm⟩

theorem afterComment?_suffix (h : afterComment? text = some rest) : rest <:+ text := by
  obtain ⟨⟨comment, rest'⟩, closed, rfl⟩ := Option.map_eq_some_iff.mp h
  exact ⟨comment, Gap.closeComment?_append closed⟩

theorem exists_line_of_mem {inComment : Bool} {lines : List LogicalLine}
    (h : d ∈ definitionsFrom file inComment lines) :
    ∃ line ∈ lines, ∃ first, first <:+ line.first ∧ (readLine file line first).1 = some d := by
  induction lines generalizing inComment with
  | nil => cases h
  | cons line lines ih =>
    have later {inComment : Bool} (h : d ∈ definitionsFrom file inComment lines) :
        ∃ l ∈ line :: lines, ∃ first, first <:+ l.first ∧ (readLine file l first).1 = some d := by
      obtain ⟨l, member, found⟩ := ih h
      exact ⟨l, List.mem_cons_of_mem _ member, found⟩
    rw [definitionsFrom] at h
    split at h
    case h_1 => exact later h
    case h_2 first visible =>
      rcases List.mem_append.mp h with here | h
      · refine ⟨line, List.mem_cons_self, first, ?_, Option.mem_toList.mp here⟩
        cases inComment with
        | false =>
          cases visible
          exact List.suffix_refl _
        | true => exact afterComment?_suffix visible
      · exact later h

theorem mem_of_mem_definitions {header : String} {c : Char} (member : d ∈ definitions header file)
    (found : c ∈ d.signatureText.toList ∨ c ∈ (Text.unlines d.bodyLines).toList) :
    c ∈ header.toList ∨ c = '(' ∨ c = ')' ∨ c = '\n' := by
  obtain ⟨logical, isLine, first, isSuffix, read⟩ := exists_line_of_mem member
  obtain ⟨name, parameters, bodyStart, isDirective, rfl⟩ := readLine_fst_eq_some read
  obtain ⟨front, whole, -, -⟩ := directive?_eq_some isDirective
  -- a line that belongs to the logical line is a stretch of the header
  have ofLine {l : List Char} (among : l ∈ logical.lines) : l <:+: header.toList := by
    obtain ⟨physical, isPhysical, front⟩ := exists_prefix_of_mem isLine among
    exact front.isInfix.trans (Text.infix_of_mem_lines isPhysical)
  have ofFirst : c ∈ first → c ∈ header.toList :=
    fun h => (isSuffix.isInfix.trans (ofLine List.mem_cons_self)).subset h
  rcases found with inSignature | inBody
  · simp only [Definition.signatureText, String.toList_append, String.toList_ofList, List.mem_append] at inSignature
    rcases inSignature with ((inName | paren) | inParameters) | paren
    · exact .inl (ofFirst (by rw [whole]; simp [inName]))
    · exact .inr (.inl (List.mem_singleton.mp paren))
    · have inParameters := (Text.infix_trim parameters).subset inParameters
      exact .inl (ofFirst (by rw [whole]; simp [inParameters]))
    · exact .inr (.inr (.inl (List.mem_singleton.mp paren)))
  · rw [Text.unlines, String.toList_intercalate, List.map_map] at inBody
    rcases mem_of_mem_intercalate inBody with newline | ⟨part, isPart, inLine⟩
    · exact .inr (.inr (.inr (List.mem_singleton.mp newline)))
    · obtain ⟨line, isBodyLine, rfl⟩ := List.mem_map.mp isPart
      rw [Function.comp, String.toList_ofList] at inLine
      rcases mem_of_mem_bodyLines isBodyLine inLine with newline | ⟨l, among, inLine⟩
      · exact .inr (.inr (.inr newline))
      · rcases List.mem_cons.mp among with rfl | among
        · exact .inl (ofFirst (by rw [whole]; simp [inLine]))
        · exact .inl ((ofLine (List.mem_cons_of_mem _ among)).subset inLine)

end Header

end MacroLift
