import MacroLift.Proofs.Header.Comments
import MacroLift.Proofs.Header.Continuation
import MacroLift.Proofs.Header.Names

namespace MacroLift

namespace Text

variable {text l : List Char} {ls js : List (List Char)} {c : Char}

theorem not_isLineBreak_of_isWordChar (word : isWordChar c = true) : isLineBreak c = false := by
  have breaks : ∀ n ∈ [0x0A, 0x0B, 0x0C, 0x0D, 0x1C, 0x1D, 0x1E, 0x85, 0x2028, 0x2029],
      isWordChar (Char.ofNat n) = false := by
    decide +kernel
  rw [← Bool.not_eq_true]
  intro isBreak
  have among : c.toNat ∈ [0x0A, 0x0B, 0x0C, 0x0D, 0x1C, 0x1D, 0x1E, 0x85, 0x2028, 0x2029] := by
    simp only [isLineBreak, Bool.or_eq_true, Bool.and_eq_true, decide_eq_true_eq, beq_iff_eq] at isBreak
    simp only [List.mem_cons, List.not_mem_nil, or_false]
    omega
  have noWord := breaks _ among
  rw [Char.ofNat_toNat, word] at noWord
  cases noWord

theorem any_isLineBreak_iff : l.any isLineBreak = false ↔ ∀ c ∈ l, isLineBreak c = false := by
  simp

def ofLines (lines : List (List Char)) : List Char :=
  lines.flatMap (· ++ ['\n'])

theorem lines_ofLines_append (inLine : ∀ l ∈ ls, ∀ c ∈ l, isLineBreak c = false) (rest : List Char) :
    lines (ofLines ls ++ rest) = ls ++ lines rest := by
  induction ls with
  | nil => rfl
  | cons l ls ih =>
    obtain ⟨first, more⟩ := List.forall_mem_cons.mp inLine
    have newline : IsLineEnd (ofLines ls ++ rest) ['\n'] := .single rfl nofun
    have split : ofLines (l :: ls) ++ rest = l ++ (['\n'] ++ (ofLines ls ++ rest)) := by simp [ofLines]
    rw [split, lines_append_lineEnd first newline, ih more, List.cons_append]

theorem lines_single (inLine : ∀ c ∈ l, isLineBreak c = false) (solid : l ≠ []) : lines l = [l] := by
  induction l with
  | nil => exact absurd rfl solid
  | cons c l ih =>
    obtain ⟨first, more⟩ := List.forall_mem_cons.mp inLine
    rw [lines_cons first]
    cases l with
    | nil => rfl
    | cons d l => rw [ih more (List.cons_ne_nil _ _), List.headD_cons, List.tail_cons]

theorem lines_of_ofLines (inLine : ∀ l ∈ ls, ∀ c ∈ l, isLineBreak c = false) (last : ls.getLast? ≠ some [])
    (whole : text = ofLines ls ∨ text ++ ['\n'] = ofLines ls) : lines text = ls := by
  rcases whole with rfl | whole
  · have all := lines_ofLines_append inLine []
    rwa [List.append_nil, lines, List.append_nil] at all
  · rcases List.eq_nil_or_concat ls with rfl | ⟨front, l, rfl⟩
    · cases text <;> cases whole
    · rw [List.concat_eq_append] at inLine last whole ⊢
      obtain ⟨front', last'⟩ := List.forall_mem_append.mp inLine
      have same : text = ofLines front ++ l := by
        rw [ofLines, List.flatMap_append, List.flatMap_singleton, ← List.append_assoc] at whole
        exact List.append_cancel_right whole
      have solid : l ≠ [] := by
        rintro rfl
        exact last List.getLast?_concat
      rw [same, lines_ofLines_append front', lines_single (last' l List.mem_cons_self) solid]

theorem trim_cons_blank (blank : isBlank c = true) (l : List Char) : trim (c :: l) = trim l := by
  rw [trim, List.dropWhile_cons_of_pos blank, trim]

theorem trim_append_blank (blank : isBlank c = true) (l : List Char) : trim (l ++ [c]) = trim l := by
  rw [trim, trim, List.dropWhile_append]
  split
  · rename_i empty
    rw [List.isEmpty_iff.mp empty, List.dropWhile_cons_of_pos blank, List.dropWhile_nil]
  · simp [trimEnd, blank]

theorem not_isBlank_of_trim (trimmed : trim l = l) (last : l.getLast? = some c) : isBlank c = false := by
  rw [← trimmed, trim, trimEnd, List.getLast?_reverse] at last
  have stopped := List.head?_dropWhile_not isBlank (l.dropWhile isBlank).reverse
  rw [last] at stopped
  simpa using stopped

theorem forall_of_spaceBehind {P : List Char → Prop} (space : ∀ l, P l → P (l ++ [' ']))
    (spaced : List.Forall₂ SpaceBehind ls js) (all : ∀ l ∈ ls, P l) : ∀ j ∈ js, P j := by
  induction spaced with
  | nil => nofun
  | cons first _ ih =>
    obtain ⟨here, later⟩ := List.forall_mem_cons.mp all
    refine List.forall_mem_cons.mpr ⟨?_, ih later⟩
    rcases first with rfl | rfl
    · exact here
    · exact space _ here

theorem map_trim_of_spaceBehind (spaced : List.Forall₂ SpaceBehind ls js) : js.map trim = ls.map trim := by
  induction spaced with
  | nil => rfl
  | cons first _ ih =>
    rw [List.map_cons, List.map_cons, ih]
    rcases first with rfl | rfl
    · rfl
    · rw [trim_append_blank rfl]

end Text

namespace Header

variable {file : String} {d : Definition} {number : Nat} {l first : List Char} {more : List (List Char)}

def attached : List Char → List (List Char) → List (List Char)
  | first, [] => [first]
  | first, next :: more => (first ++ [' ', '\\']) :: attached next more

theorem getLast?_attached (first : List Char) (more : List (List Char)) :
    (attached first more).getLast? = (first :: more).getLast? := by
  induction more generalizing first with
  | nil => rfl
  | cons next more ih =>
    rw [attached, List.getLast?_cons, ih, List.getLast?_cons_cons, List.getLast?_cons, Option.getD_some]

theorem not_isLineBreak_attached (inLine : ∀ l ∈ first :: more, ∀ c ∈ l, Text.isLineBreak c = false) :
    ∀ l ∈ attached first more, ∀ c ∈ l, Text.isLineBreak c = false := by
  induction more generalizing first with
  | nil => exact inLine
  | cons next more ih =>
    obtain ⟨here, later⟩ := List.forall_mem_cons.mp inLine
    exact List.forall_mem_cons.mpr ⟨List.forall_mem_append.mpr ⟨here, Text.any_isLineBreak_iff.mp rfl⟩, ih later⟩

theorem continued?_of_getLast? {c : Char} (last : l.getLast? = some c) (solid : Text.isBlank c = false)
    (noBackslash : c ≠ '\\') : continued? l = none := by
  obtain ⟨front, rfl⟩ := List.getLast?_eq_some_iff.mp last
  have whole : Text.trimEnd (front ++ [c]) = front ++ [c] := by simp [Text.trimEnd, solid]
  rw [continued?, whole, List.getLast?_concat, if_neg]
  exact fun same => noBackslash (Option.some.inj same)

theorem logicalLines_attached (stops : ∀ last ∈ (first :: more).getLast?, continued? last = none) (number : Nat)
    (rest : List (List Char)) :
    ∃ first' more', logicalLines number (attached first more ++ rest) =
        ⟨number, first', more'⟩ :: logicalLines (number + (attached first more).length) rest ∧
      List.Forall₂ Text.SpaceBehind (first :: more) (first' :: more') := by
  induction more generalizing first number with
  | nil => exact ⟨first, [], logicalLines_of_not_continued (stops first rfl), .cons (.inl rfl) .nil⟩
  | cons next more ih =>
    rw [List.getLast?_cons_cons] at stops
    obtain ⟨next', more', later, spaced⟩ := ih stops (number + 1)
    have goesOn : continued? (first ++ [' ', '\\']) = some (first ++ [' ']) := by
      have space := @continued?_backslash [] nofun (first ++ [' '])
      rwa [List.append_assoc] at space
    refine ⟨first ++ [' '], next' :: more', ?_, .cons (.inr rfl) spaced⟩
    rw [attached, List.cons_append, logicalLines_of_continued goesOn later, List.length_cons, Nat.add_right_comm,
      Nat.add_assoc]
    rfl

theorem dropEmptyEnds_of_solid {lines : List (List Char)} (begins : lines.head? ≠ some [])
    (ends : lines.getLast? ≠ some []) : dropEmptyEnds lines = lines := by
  have stays {lines : List (List Char)} (begins : lines.head? ≠ some []) : lines.dropWhile List.isEmpty = lines := by
    cases lines with
    | nil => rfl
    | cons line lines =>
      refine List.dropWhile_cons_of_neg fun empty => begins ?_
      rw [List.isEmpty_iff.mp empty, List.head?_cons]
  have back : lines.reverse.dropWhile List.isEmpty = lines.reverse := stays (by rwa [List.head?_reverse])
  rw [dropEmptyEnds, back, List.reverse_reverse, stays begins]

theorem bodyLines_of_noOpening (inLine : ∀ l ∈ first :: more, ∀ c ∈ l, Text.isLineBreak c = false)
    (noOpening : ∀ l ∈ first :: more, ¬ ['/', '*'] <:+: l) :
    bodyLines (first :: more) = (dropEmptyEnds ((first :: more).map Text.trim), false) := by
  have noBreak : ∀ l ∈ first :: more, '\n' ∉ l := fun l member newline => by cases inLine l member _ newline
  rcases cutOpenComment_cases (['\n'].intercalate (first :: more)) with ⟨closed, kept⟩ | ⟨-, rest, whole, -⟩
  · have cut : cutOpenComment (['\n'].intercalate (first :: more)) = (['\n'].intercalate (first :: more), false) :=
      Prod.ext kept closed
    rw [bodyLines, cut]
    dsimp only
    rw [Text.pieces_intercalate noBreak]
  · have opening : ['/', '*'] <:+: ['\n'].intercalate (first :: more) := ⟨_, rest, by simpa using whole.symm⟩
    obtain ⟨l, member, found⟩ := Text.pair_infix_intercalate (by decide) (by decide) opening
    exact absurd found (noOpening l member)

namespace Definition

def opening (d : Definition) : List Char :=
  ['#', 'd', 'e', 'f', 'i', 'n', 'e', ' '] ++ d.name.toList ++ ['('] ++ d.parametersText.toList ++ [')']

def bodyStart (d : Definition) : List Char :=
  match d.bodyLines with
  | [] => []
  | first :: _ => ' ' :: first.toList

def laterLines (d : Definition) : List (List Char) :=
  d.bodyLines.tail.map String.toList

def written (d : Definition) : List (List Char) :=
  attached (d.opening ++ d.bodyStart) d.laterLines

theorem eq_nil_or_line (member : l ∈ d.bodyStart :: d.laterLines) :
    l = [] ∨ ∃ line ∈ d.bodyLines, l = line.toList ∨ l = ' ' :: line.toList := by
  unfold bodyStart laterLines at member
  cases lines : d.bodyLines with
  | nil =>
    rw [lines] at member
    exact .inl (List.mem_singleton.mp member)
  | cons first more =>
    rw [lines] at member
    rcases List.mem_cons.mp member with rfl | member
    · exact .inr ⟨first, List.mem_cons_self, .inr rfl⟩
    · obtain ⟨line, among, rfl⟩ := List.mem_map.mp member
      exact .inr ⟨line, List.mem_cons_of_mem _ among, .inl rfl⟩

def found (d : Definition) (file : String) (number : Nat) : Definition :=
  { d with location := some ⟨file, ⟨number, 1⟩⟩ }

end Definition

/-- A line of a body that is found as it is written. -/
structure IsBodyLine (line : List Char) : Prop where
  trimmed : Text.trim line = line
  inLine : ∀ c ∈ line, Text.isLineBreak c = false
  noOpening : ¬ ['/', '*'] <:+: line
  noBackslash : line.getLast? ≠ some '\\'

instance : DecidablePred IsBodyLine := fun line =>
  decidable_of_iff (Text.trim line = line ∧ line.any Text.isLineBreak = false ∧ ¬ ['/', '*'] <:+: line ∧
      line.getLast? ≠ some '\\')
    ⟨fun ⟨trimmed, inLine, noOpening, noBackslash⟩ =>
        ⟨trimmed, Text.any_isLineBreak_iff.mp inLine, noOpening, noBackslash⟩,
      fun h => ⟨h.trimmed, Text.any_isLineBreak_iff.mpr h.inLine, h.noOpening, h.noBackslash⟩⟩

/-- A definition that is found as it is written. Its body may be empty, but has no blank line at either end. -/
structure IsPrintable (d : Definition) : Prop where
  isName : IsName d.name.toList
  trimmed : Text.trim d.parametersText.toList = d.parametersText.toList
  unclosed : ')' ∉ d.parametersText.toList
  inLine : ∀ c ∈ d.parametersText.toList, Text.isLineBreak c = false
  isBody : ∀ line ∈ d.bodyLines, IsBodyLine line.toList
  begins : d.bodyLines.head? ≠ some ""
  ends : d.bodyLines.getLast? ≠ some ""

instance : DecidablePred IsPrintable := fun d =>
  decidable_of_iff (IsName d.name.toList ∧ Text.trim d.parametersText.toList = d.parametersText.toList ∧
      ')' ∉ d.parametersText.toList ∧ d.parametersText.toList.any Text.isLineBreak = false ∧
      (∀ line ∈ d.bodyLines, IsBodyLine line.toList) ∧ d.bodyLines.head? ≠ some "" ∧ d.bodyLines.getLast? ≠ some "")
    ⟨fun ⟨isName, trimmed, unclosed, inLine, isBody, begins, ends⟩ =>
        ⟨isName, trimmed, unclosed, Text.any_isLineBreak_iff.mp inLine, isBody, begins, ends⟩,
      fun h => ⟨h.isName, h.trimmed, h.unclosed, Text.any_isLineBreak_iff.mpr h.inLine, h.isBody, h.begins, h.ends⟩⟩

theorem IsName.isHead {name parameters : List Char} (isName : IsName name) (unclosed : ')' ∉ parameters) :
    IsHead name parameters
      (['#', 'd', 'e', 'f', 'i', 'n', 'e', ' '] ++ name ++ ['('] ++ parameters ++ [')']) := by
  have blank : ∀ c ∈ [' '], Text.isBlank c = true := List.forall_mem_singleton.mpr rfl
  rw [List.append_assoc _ _ [')'], List.append_assoc _ ['('], List.append_assoc _ name]
  cases isName with
  | @intro initial more start letters =>
    exact @IsHead.intro [] [] [] more _ ' ' initial nofun nofun blank start letters unclosed

theorem IsPrintable.opening_inLine (h : IsPrintable d) : ∀ c ∈ d.opening, Text.isLineBreak c = false := by
  have word := @Text.any_isLineBreak_iff ['#', 'd', 'e', 'f', 'i', 'n', 'e', ' '] |>.mp rfl
  have name : ∀ c ∈ d.name.toList, Text.isLineBreak c = false := fun c member =>
    Text.not_isLineBreak_of_isWordChar (h.isName.isWordChar c member)
  simp only [Definition.opening, List.forall_mem_append]
  exact ⟨⟨⟨⟨word, name⟩, List.forall_mem_singleton.mpr rfl⟩, h.inLine⟩, List.forall_mem_singleton.mpr rfl⟩

theorem IsPrintable.body_inLine (h : IsPrintable d) :
    ∀ l ∈ d.bodyStart :: d.laterLines, ∀ c ∈ l, Text.isLineBreak c = false := by
  intro l member
  rcases Definition.eq_nil_or_line member with rfl | ⟨line, among, rfl | rfl⟩
  · nofun
  · exact (h.isBody line among).inLine
  · exact List.forall_mem_cons.mpr ⟨rfl, (h.isBody line among).inLine⟩

theorem IsPrintable.inLine_written (h : IsPrintable d) : ∀ l ∈ d.written, ∀ c ∈ l, Text.isLineBreak c = false := by
  obtain ⟨start, later⟩ := List.forall_mem_cons.mp h.body_inLine
  refine not_isLineBreak_attached (List.forall_mem_cons.mpr ⟨?_, later⟩)
  exact List.forall_mem_append.mpr ⟨h.opening_inLine, start⟩

theorem IsPrintable.noOpening (h : IsPrintable d) : ∀ l ∈ d.bodyStart :: d.laterLines, ¬ ['/', '*'] <:+: l := by
  intro l member
  rcases Definition.eq_nil_or_line member with rfl | ⟨line, among, rfl | rfl⟩
  · simp
  · exact (h.isBody line among).noOpening
  · rw [List.infix_cons_iff, not_or]
    refine ⟨fun start => ?_, (h.isBody line among).noOpening⟩
    cases (Text.prefix_pair start).1

theorem IsBodyLine.stops (h : IsBodyLine l) (solid : l ≠ []) (front : List Char) : continued? (front ++ l) = none := by
  obtain ⟨c, last⟩ := Option.isSome_iff_exists.mp (List.getLast?_isSome.mpr solid)
  have noBackslash : c ≠ '\\' := by
    rintro rfl
    exact h.noBackslash last
  refine continued?_of_getLast? ?_ (Text.not_isBlank_of_trim h.trimmed last) noBackslash
  rw [List.getLast?_append, last, Option.some_or]

theorem Definition.getLast?_opening (d : Definition) : d.opening.getLast? = some ')' :=
  List.getLast?_concat

theorem IsPrintable.stops (h : IsPrintable d) :
    ∀ last ∈ ((d.opening ++ d.bodyStart) :: d.laterLines).getLast?, last ≠ [] ∧ continued? last = none := by
  have isBody := h.isBody
  have ends := h.ends
  unfold Definition.bodyStart Definition.laterLines
  cases lines : d.bodyLines with
  | nil =>
    rintro last ⟨⟩
    rw [List.append_nil]
    refine ⟨List.append_ne_nil_of_right_ne_nil _ (List.cons_ne_nil _ _), ?_⟩
    exact continued?_of_getLast? d.getLast?_opening (by decide) (by decide)
  | cons first more =>
    rw [lines] at isBody ends
    rcases List.eq_nil_or_concat more with rfl | ⟨front, line, rfl⟩
    · rintro last ⟨⟩
      have solid : first.toList ≠ [] := by simpa using ends
      have stops := (isBody first List.mem_cons_self).stops solid (d.opening ++ [' '])
      rw [List.append_assoc] at stops
      exact ⟨by simp, stops⟩
    · rw [List.concat_eq_append] at ends isBody ⊢
      rw [← List.cons_append, List.getLast?_concat] at ends
      rw [List.tail_cons, List.map_append, List.map_singleton, ← List.cons_append, List.getLast?_concat]
      rintro last ⟨⟩
      have solid : line.toList ≠ [] := by simpa using ends
      exact ⟨solid, (isBody line (by simp)).stops solid []⟩

theorem IsPrintable.dropEmptyEnds_eq (h : IsPrintable d) :
    dropEmptyEnds ((d.bodyStart :: d.laterLines).map Text.trim) = d.bodyLines.map String.toList := by
  have isBody := h.isBody
  have begins := h.begins
  have ends := h.ends
  unfold Definition.bodyStart Definition.laterLines
  cases lines : d.bodyLines with
  | nil => rfl
  | cons first more =>
    rw [lines] at isBody begins ends
    have trimmed : ((' ' :: first.toList) :: more.map String.toList).map Text.trim =
        (first :: more).map String.toList := by
      obtain ⟨isFirst, isLater⟩ := List.forall_mem_cons.mp isBody
      rw [List.map_cons, Text.trim_cons_blank rfl, isFirst.trimmed, List.map_map, List.map_cons]
      exact congrArg _ (List.map_congr_left fun line member => (isLater line member).trimmed)
    have isEmpty {line : Option String} (solid : line ≠ some "") : line.map String.toList ≠ some [] := by
      simpa using solid
    dsimp only
    rw [List.tail_cons, trimmed, dropEmptyEnds_of_solid]
    · rw [List.head?_map]
      exact isEmpty begins
    · rw [List.getLast?_map]
      exact isEmpty ends

theorem IsPrintable.readLine_eq (h : IsPrintable d)
    (spaced : List.Forall₂ Text.SpaceBehind ((d.opening ++ d.bodyStart) :: d.laterLines) (first :: more)) :
    readLine file ⟨number, first, more⟩ first = (some (d.found file number), false) := by
  obtain ⟨head, later⟩ := List.forall₂_cons.mp spaced
  obtain ⟨body, rfl, start⟩ : ∃ body, first = d.opening ++ body ∧ Text.SpaceBehind d.bodyStart body := by
    rcases head with rfl | rfl
    · exact ⟨_, rfl, .inl rfl⟩
    · exact ⟨_, List.append_assoc _ _ _, .inr rfl⟩
  have found : directive? (d.opening ++ body) = some (d.name.toList, d.parametersText.toList, body) :=
    (h.isName.isHead h.unclosed).directive?_append body
  have spacedBody : List.Forall₂ Text.SpaceBehind (d.bodyStart :: d.laterLines) (body :: more) := .cons start later
  have lines : bodyLines (body :: more) = (d.bodyLines.map String.toList, false) := by
    rw [bodyLines_of_noOpening, Text.map_trim_of_spaceBehind spacedBody, h.dropEmptyEnds_eq]
    · refine Text.forall_of_spaceBehind (fun l inLine => ?_) spacedBody ?_
      · exact List.forall_mem_append.mpr ⟨inLine, List.forall_mem_singleton.mpr rfl⟩
      · exact h.body_inLine
    · exact Text.forall_of_spaceBehind
        (fun l noOpening found => noOpening (Text.pair_infix_space (by decide) (by decide) found)) spacedBody
        h.noOpening
  rw [readLine, found]
  dsimp only
  rw [lines, h.trimmed]
  simp [Definition.found]

def print (ds : List Definition) : String :=
  String.ofList (Text.ofLines (ds.flatMap Definition.written))

theorem IsPrintable.definitionsFrom_append (h : IsPrintable d) (file : String) (number : Nat)
    (rest : List (List Char)) :
    definitionsFrom file false (logicalLines number (d.written ++ rest)) =
      d.found file number ::
        definitionsFrom file false (logicalLines (number + d.written.length) rest) := by
  obtain ⟨first, more, lines, spaced⟩ := logicalLines_attached (fun last member => (h.stops last member).2) number rest
  have read := @h.readLine_eq file d number first more spaced
  rw [Definition.written, lines, definitionsFrom]
  change (readLine file ⟨number, first, more⟩ first).1.toList ++
    definitionsFrom file (readLine file ⟨number, first, more⟩ first).2 _ = _
  rw [read]
  rfl

theorem definitionsFrom_written {ds : List Definition} (printable : ∀ d ∈ ds, IsPrintable d) (file : String)
    (number : Nat) :
    definitionsFrom file false (logicalLines number (ds.flatMap Definition.written)) =
      ds.mapIdx fun k d => d.found file (number + ((ds.take k).flatMap Definition.written).length) := by
  induction ds generalizing number with
  | nil => rfl
  | cons d ds ih =>
    obtain ⟨first, later⟩ := List.forall_mem_cons.mp printable
    rw [List.flatMap_cons, first.definitionsFrom_append, ih later, List.mapIdx_cons]
    simp only [List.take_succ_cons, List.flatMap_cons, List.length_append, Nat.add_assoc]
    rfl

/-- Scanning a text of definitions finds them, in order, each at the start of the first of its lines. The newline at
    the end of the text makes no difference. -/
theorem definitions_print (ds : List Definition) (text file : String) (printable : ∀ d ∈ ds, IsPrintable d)
    (printed : text = print ds ∨ text ++ "\n" = print ds) :
    Text.lines text.toList = ds.flatMap Definition.written ∧
      definitions text file =
        ds.mapIdx fun k d => d.found file (1 + ((ds.take k).flatMap Definition.written).length) := by
  have solid : (ds.flatMap Definition.written).getLast? ≠ some [] := by
    rw [List.getLast?_flatMap]
    intro empty
    obtain ⟨d, member, last⟩ := List.exists_of_findSome?_eq_some empty
    rw [Definition.written, getLast?_attached] at last
    exact ((printable d (List.mem_reverse.mp member)).stops [] last).1 rfl
  have lines : Text.lines text.toList = ds.flatMap Definition.written := by
    refine Text.lines_of_ofLines (List.forall_mem_flatMap.mpr fun d among => (printable d among).inLine_written) solid ?_
    rcases printed with rfl | printed
    · exact .inl String.toList_ofList
    · have whole := congrArg String.toList printed
      rw [String.toList_append, print] at whole
      exact .inr (whole.trans String.toList_ofList)
  exact ⟨lines, by rw [definitions, lines, definitionsFrom_written printable]⟩

theorem definitions_print_several :
    Text.lines "#define TWICE(f, x) f(x); \\\n \\\nf(x)\n#define NOP()\n#define ID(x) x".toList =
        [⟨"TWICE", "f, x", ["f(x);", "", "f(x)"], none⟩, ⟨"NOP", "", [], none⟩, ⟨"ID", "x", ["x"], none⟩].flatMap
          Definition.written ∧
      definitions "#define TWICE(f, x) f(x); \\\n \\\nf(x)\n#define NOP()\n#define ID(x) x" "f.h" =
        [⟨"TWICE", "f, x", ["f(x);", "", "f(x)"], some ⟨"f.h", ⟨1, 1⟩⟩⟩, ⟨"NOP", "", [], some ⟨"f.h", ⟨4, 1⟩⟩⟩,
          ⟨"ID", "x", ["x"], some ⟨"f.h", ⟨5, 1⟩⟩⟩] :=
  definitions_print _ _ "f.h" (by decide +kernel) (by decide +kernel)

end Header

end MacroLift
