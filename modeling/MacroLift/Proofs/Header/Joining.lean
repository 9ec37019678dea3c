import MacroLift.Proofs.Header.Lines

namespace MacroLift

namespace Text

variable {chosen : Nat → Prop} {number : Nat} {text joined ending front : List Char} {c : Char}

inductive IsLineEnd (text : List Char) : List Char → Prop where
  | single {c : Char} (isBreak : isLineBreak c = true) (alone : c = '\r' → text.head? ≠ some '\n') : IsLineEnd text [c]
  | pair : IsLineEnd text ['\r', '\n']

/-- One text is another in which spaces take the places of continuations, each of a backslash, the blanks behind it and
    the end of the line. All of them are at the ends of the chosen lines, by number. -/
inductive Joins (chosen : Nat → Prop) : Nat → List Char → List Char → Prop where
  | done {number : Nat} : Joins chosen number [] []
  | char {number : Nat} {c : Char} {text joined : List Char} (inLine : isLineBreak c = false)
      (rest : Joins chosen number text joined) : Joins chosen number (c :: text) (c :: joined)
  | lineEnd {number : Nat} {ending text joined : List Char} (ends : IsLineEnd text ending)
      (rest : Joins chosen (number + 1) text joined) : Joins chosen number (ending ++ text) (ending ++ joined)
  | space {number : Nat} {blanks ending text joined : List Char} (isChosen : chosen number)
      (blank : ∀ c ∈ blanks, isBlank c = true ∧ isLineBreak c = false) (ends : IsLineEnd text ending)
      (rest : Joins chosen (number + 1) text joined) :
      Joins chosen number ('\\' :: blanks ++ (ending ++ text)) (' ' :: joined)

def SpaceBehind (text joined : List Char) : Prop :=
  joined = text ∨ joined = text ++ [' ']

theorem SpaceBehind.of_append (h : SpaceBehind (front ++ text) (front ++ joined)) : SpaceBehind text joined := by
  rw [SpaceBehind, List.append_assoc] at h
  exact h.imp List.append_cancel_left List.append_cancel_left

theorem SpaceBehind.append (h : SpaceBehind text joined) (front : List Char) :
    SpaceBehind (front ++ text) (front ++ joined) := by
  rcases h with rfl | rfl
  · exact .inl rfl
  · exact .inr (List.append_assoc _ _ _).symm

theorem lines_cons (inLine : isLineBreak c = false) (text : List Char) :
    lines (c :: text) = (c :: (lines text).headD []) :: (lines text).tail := by
  rw [lines, if_neg (by rw [inLine]; decide)]
  · cases lines text <;> rfl
  · rintro rest rfl
    cases inLine

theorem lines_lineEnd (ends : IsLineEnd text ending) : lines (ending ++ text) = [] :: lines text := by
  cases ends with
  | @single c isBreak alone =>
    rw [List.singleton_append, lines, if_pos isBreak]
    rintro rest same rfl
    exact alone same rfl
  | pair => rfl

theorem lines_append_lineEnd (inLine : ∀ c ∈ front, isLineBreak c = false) (ends : IsLineEnd text ending) :
    lines (front ++ (ending ++ text)) = front :: lines text := by
  induction front with
  | nil => exact lines_lineEnd ends
  | cons c front ih =>
    obtain ⟨first, more⟩ := List.forall_mem_cons.mp inLine
    rw [List.cons_append, lines_cons first, ih more]
    rfl

theorem Joins.head?_newline (h : Joins chosen number text joined) (newline : joined.head? = some '\n') :
    text.head? = some '\n' := by
  cases h with
  | done => exact newline
  | char => exact newline
  | lineEnd ends => cases ends <;> exact newline
  | space => cases newline

theorem Joins.isLineEnd (h : Joins chosen number text joined) (ends : IsLineEnd text ending) :
    IsLineEnd joined ending := by
  cases ends with
  | single isBreak alone => exact .single isBreak fun same newline => alone same (h.head?_newline newline)
  | pair => exact .pair

theorem Joins.append (inLine : front.any isLineBreak = false) (rest : Joins chosen number text joined) :
    Joins chosen number (front ++ text) (front ++ joined) := by
  induction front with
  | nil => exact rest
  | cons c front ih =>
    rw [List.any_cons, Bool.or_eq_false_iff] at inLine
    exact .char inLine.1 (ih inLine.2)

end Text

namespace Header

variable {chosen : Nat → Prop} {number : Nat} {l l' kept front : List Char} {ls js : List (List Char)}
  {line line' next next' : LogicalLine} {others : List LogicalLine} {c : Char}

theorem continued?_backslash {blanks : List Char} (blank : ∀ c ∈ blanks, Text.isBlank c = true) (kept : List Char) :
    continued? (kept ++ '\\' :: blanks) = some kept := by
  have trimmed : Text.trimEnd (kept ++ '\\' :: blanks) = kept ++ ['\\'] := by
    have blank' : ∀ c ∈ blanks.reverse, Text.isBlank c = true := fun c member => blank c (List.mem_reverse.mp member)
    simp [Text.trimEnd, List.dropWhile_append_of_pos blank', Text.isBlank]
  simp [continued?, trimmed]

theorem continued?_append (h : continued? l = some kept) (front : List Char) :
    continued? (front ++ l) = some (front ++ kept) := by
  obtain ⟨blanks, rfl, blank⟩ := continued?_eq_some h
  rw [← List.append_assoc]
  exact continued?_backslash blank _

theorem continued?_of_append (h : continued? (front ++ l) = none) : continued? l = none := by
  cases goesOn : continued? l with
  | none => rfl
  | some kept => cases h.symm.trans (continued?_append goesOn front)

theorem continued?_space (l : List Char) : continued? (l ++ [' ']) = continued? l := by
  simp [continued?, Text.trimEnd, Text.isBlank]

theorem continued?_of_spaceBehind (h : Text.SpaceBehind l l') : continued? l' = continued? l := by
  rcases h with rfl | rfl
  · rfl
  · exact continued?_space l

inductive LinesJoin (chosen : Nat → Prop) : Nat → List (List Char) → List (List Char) → Prop where
  | nil {number : Nat} : LinesJoin chosen number [] []
  | keep {number : Nat} {l : List Char} {ls js : List (List Char)} (rest : LinesJoin chosen (number + 1) ls js) :
      LinesJoin chosen number (l :: ls) (l :: js)
  | join {number : Nat} {l kept j : List Char} {ls js : List (List Char)} (isChosen : chosen number)
      (goesOn : continued? l = some kept) (rest : LinesJoin chosen (number + 1) ls (j :: js)) :
      LinesJoin chosen number (l :: ls) ((kept ++ [' '] ++ j) :: js)
  | last {number : Nat} {l kept : List Char} (isChosen : chosen number) (goesOn : continued? l = some kept) :
      LinesJoin chosen number [l] [kept ++ [' ']]

theorem LinesJoin.cons (h : LinesJoin chosen number ls js) (c : Char) :
    LinesJoin chosen number ((c :: ls.headD []) :: ls.tail) ((c :: js.headD []) :: js.tail) := by
  cases h with
  | nil => exact .keep .nil
  | keep rest => exact .keep rest
  | join isChosen goesOn rest => exact .join isChosen (continued?_append goesOn [c]) rest
  | last isChosen goesOn => exact .last isChosen (continued?_append goesOn [c])

theorem linesJoin_of_joins {text joined : List Char} (h : Text.Joins chosen number text joined) :
    LinesJoin chosen number (Text.lines text) (Text.lines joined) := by
  induction h with
  | done => exact .nil
  | char inLine rest ih =>
    rw [Text.lines_cons inLine, Text.lines_cons inLine]
    exact ih.cons _
  | lineEnd ends rest ih =>
    rw [Text.lines_lineEnd ends, Text.lines_lineEnd (rest.isLineEnd ends)]
    exact .keep ih
  | @space number blanks ending text joined isChosen blank ends rest ih =>
    have inLine : ∀ c ∈ '\\' :: blanks, Text.isLineBreak c = false :=
      List.forall_mem_cons.mpr ⟨by decide, fun c member => (blank c member).2⟩
    have goesOn : continued? ('\\' :: blanks) = some [] := continued?_backslash (fun c member => (blank c member).1) []
    rw [Text.lines_append_lineEnd inLine ends, Text.lines_cons (by decide)]
    generalize Text.lines text = ls at ih
    generalize Text.lines joined = js at ih
    cases js with
    | nil =>
      cases ih
      exact .last isChosen goesOn
    | cons j js => exact .join isChosen goesOn ih

namespace LogicalLine

def spaced (line : LogicalLine) : List Char :=
  [' '].intercalate line.lines

def Touched (chosen : Nat → Prop) (line : LogicalLine) : Prop :=
  ∃ number, chosen number ∧ line.number ≤ number ∧ number < line.number + line.lines.length

theorem touched_of_chosen {number : Nat} (isChosen : chosen number) (first : List Char) (more : List (List Char)) :
    Touched chosen ⟨number, first, more⟩ :=
  ⟨number, isChosen, Nat.le_refl _, Nat.lt_add_of_pos_right (Nat.succ_pos _)⟩

theorem spaced_single (number : Nat) (first : List Char) : spaced ⟨number, first, []⟩ = first :=
  List.intercalate_singleton

theorem spaced_cons (number : Nat) (first : List Char) (next : LogicalLine) :
    spaced ⟨number, first, next.lines⟩ = first ++ [' '] ++ next.spaced := by
  simp [spaced, lines, List.intercalate_cons_cons]

theorem spaced_append (number number' : Nat) (front first : List Char) (more : List (List Char)) :
    spaced ⟨number, front ++ first, more⟩ = front ++ spaced ⟨number', first, more⟩ := by
  cases more with
  | nil => rw [spaced_single, spaced_single]
  | cons next more => simp [spaced, lines, List.intercalate_cons_cons]

theorem prefix_spaced (line : LogicalLine) : line.first <+: line.spaced := by
  obtain ⟨number, first, more⟩ := line
  have front := spaced_append number number first [] more
  rw [List.append_nil] at front
  exact ⟨_, front.symm⟩

end LogicalLine

/-- How a logical line comes out of another: with the same lines, or with text moved to the first of them. A space can
    have come behind the last. -/
inductive JoinedTo (chosen : Nat → Prop) (line line' : LogicalLine) : Prop where
  | same (lines : line'.lines = line.lines)
  | moved (touched : line.Touched chosen) (first : line.first <+: line'.first)
      (spaced : Text.SpaceBehind line.spaced line'.spaced)

theorem JoinedTo.spaceBehind (h : JoinedTo chosen line line') : Text.SpaceBehind line.spaced line'.spaced := by
  cases h with
  | same lines => exact .inl (congrArg [' '].intercalate lines)
  | moved _ _ spaced => exact spaced

theorem number_of_head (h : logicalLines number ls = next :: others) : next.number = number :=
  @number_of_logicalLines ls [] others next number h

theorem exists_logicalLines_cons (number : Nat) (l : List Char) (ls : List (List Char)) :
    ∃ next others, logicalLines number (l :: ls) = next :: others := by
  rw [logicalLines]
  split
  · exact ⟨_, _, rfl⟩
  · split <;> exact ⟨_, _, rfl⟩

theorem logicalLines_of_continued (goesOn : continued? l = some kept)
    (h : logicalLines (number + 1) ls = next :: others) :
    logicalLines number (l :: ls) = ⟨number, kept, next.lines⟩ :: others := by
  rw [logicalLines, goesOn]
  dsimp only
  rw [h]

theorem logicalLines_of_not_continued (stops : continued? l = none) :
    logicalLines number (l :: ls) = ⟨number, l, []⟩ :: logicalLines (number + 1) ls := by
  rw [logicalLines, stops]

theorem logicalLines_append (stops : continued? l = none → continued? (front ++ l) = none)
    (h : logicalLines number (l :: ls) = next :: others) :
    logicalLines number ((front ++ l) :: ls) = ⟨number, front ++ next.first, next.more⟩ :: others := by
  cases goesOn : continued? l with
  | none =>
    rw [logicalLines_of_not_continued goesOn] at h
    cases h
    exact logicalLines_of_not_continued (stops goesOn)
  | some kept =>
    have goesOn' := continued?_append goesOn front
    rw [logicalLines, goesOn] at h
    rw [logicalLines, goesOn']
    dsimp only at h ⊢
    split at h <;> cases h <;> rfl

/-- Whether a logical line, if touched, does not go on with spaces between its lines. -/
def Stops (chosen : Nat → Prop) (line : LogicalLine) : Prop :=
  line.Touched chosen → continued? line.spaced = none

theorem LogicalLine.Touched.cons (touched : next.Touched chosen) (behind : next.number = number + 1)
    (kept : List Char) : LogicalLine.Touched chosen ⟨number, kept, next.lines⟩ := by
  obtain ⟨n, isChosen, low, high⟩ := touched
  have long : LogicalLine.lines ⟨number, kept, next.lines⟩ = kept :: next.lines := rfl
  refine ⟨n, isChosen, by dsimp only; omega, ?_⟩
  rw [long, List.length_cons]
  dsimp only
  omega

theorem Stops.later (behind : next.number = number + 1) (stops : Stops chosen ⟨number, kept, next.lines⟩) :
    Stops chosen next := by
  intro touched
  have joined := stops (touched.cons behind kept)
  rw [LogicalLine.spaced_cons] at joined
  exact continued?_of_append joined

theorem stops_of_cons (stops : ∀ line ∈ logicalLines number (l :: ls), Stops chosen line) :
    ∀ line ∈ logicalLines (number + 1) ls, Stops chosen line := by
  intro line member
  cases goesOn : continued? l with
  | none =>
    rw [logicalLines_of_not_continued goesOn] at stops
    exact stops line (List.mem_cons_of_mem _ member)
  | some kept =>
    cases behind : logicalLines (number + 1) ls with
    | nil =>
      rw [behind] at member
      cases member
    | cons next others =>
      rw [logicalLines_of_continued goesOn behind] at stops
      obtain ⟨first, more⟩ := List.forall_mem_cons.mp stops
      rw [behind] at member
      rcases List.mem_cons.mp member with rfl | member
      · exact first.later (number_of_head behind)
      · exact more line member

theorem JoinedTo.cons {number' : Nat} (h : JoinedTo chosen next next') (behind : next.number = number + 1)
    (kept : List Char) : JoinedTo chosen ⟨number, kept, next.lines⟩ ⟨number', kept, next'.lines⟩ := by
  cases h with
  | same lines => exact .same (congrArg (kept :: ·) lines)
  | moved touched _ spaced =>
    refine .moved (touched.cons behind kept) (List.prefix_refl _) ?_
    rw [LogicalLine.spaced_cons, LogicalLine.spaced_cons]
    exact spaced.append (kept ++ [' '])

theorem JoinedTo.join (h : JoinedTo chosen next next') (number' : Nat) (isChosen : chosen number) (kept : List Char) :
    JoinedTo chosen ⟨number, kept, next.lines⟩ ⟨number', kept ++ [' '] ++ next'.first, next'.more⟩ := by
  refine .moved (LogicalLine.touched_of_chosen isChosen _ _) ⟨' ' :: next'.first, by simp⟩ ?_
  rw [LogicalLine.spaced_cons, LogicalLine.spaced_append number' next'.number]
  exact h.spaceBehind.append (kept ++ [' '])

theorem forall₂_keep {number' : Nat}
    (later : List.Forall₂ (JoinedTo chosen) (logicalLines (number + 1) ls) (logicalLines (number' + 1) js)) :
    List.Forall₂ (JoinedTo chosen) (logicalLines number (l :: ls)) (logicalLines number' (l :: js)) := by
  cases goesOn : continued? l with
  | none =>
    rw [logicalLines_of_not_continued goesOn, logicalLines_of_not_continued goesOn]
    exact .cons (.same rfl) later
  | some kept =>
    cases behind : logicalLines (number + 1) ls with
    | nil =>
      rw [behind] at later
      rw [logicalLines, goesOn, logicalLines, goesOn, behind, List.forall₂_nil_left_iff.mp later]
      exact .cons (.same rfl) .nil
    | cons next others =>
      rw [behind] at later
      obtain ⟨next', others', joined, more, behind'⟩ := List.forall₂_cons_left_iff.mp later
      rw [logicalLines_of_continued goesOn behind, logicalLines_of_continued goesOn behind']
      exact .cons (joined.cons (number_of_head behind) kept) more

theorem forall₂_join {number' : Nat} {j : List Char} (isChosen : chosen number) (goesOn : continued? l = some kept)
    (stops : ∀ line ∈ logicalLines number (l :: ls), Stops chosen line)
    (later : List.Forall₂ (JoinedTo chosen) (logicalLines (number + 1) ls) (logicalLines number' (j :: js))) :
    List.Forall₂ (JoinedTo chosen) (logicalLines number (l :: ls))
      (logicalLines number' ((kept ++ [' '] ++ j) :: js)) := by
  obtain ⟨next', others', behind'⟩ := exists_logicalLines_cons number' j js
  rw [behind'] at later
  obtain ⟨next, others, joined, more, behind⟩ := List.forall₂_cons_right_iff.mp later
  have joined' := joined.join number' isChosen kept
  rw [logicalLines_of_continued goesOn behind] at stops ⊢
  -- where the line behind the space ends its logical line, the two of them together have to end it as well
  have stops' : continued? j = none → continued? (kept ++ [' '] ++ j) = none := by
    intro ends
    rw [logicalLines_of_not_continued ends] at behind'
    cases behind'
    have stopped := stops _ List.mem_cons_self (LogicalLine.touched_of_chosen isChosen _ _)
    have spaced := continued?_of_spaceBehind joined'.spaceBehind
    rwa [LogicalLine.spaced_single, stopped] at spaced
  rw [logicalLines_append stops' behind']
  exact .cons joined' more

theorem forall₂_last {number' : Nat} (isChosen : chosen number) (goesOn : continued? l = some kept)
    (stops : ∀ line ∈ logicalLines number [l], Stops chosen line) :
    List.Forall₂ (JoinedTo chosen) (logicalLines number [l]) (logicalLines number' [kept ++ [' ']]) := by
  have alone : logicalLines number [l] = [⟨number, kept, []⟩] := by
    rw [logicalLines, goesOn]
    rfl
  have touched := LogicalLine.touched_of_chosen isChosen kept []
  have stopped := stops _ (by rw [alone]; exact List.mem_cons_self) touched
  rw [LogicalLine.spaced_single, ← continued?_space] at stopped
  rw [alone, logicalLines_of_not_continued stopped]
  refine .cons (.moved touched (List.prefix_append _ _) ?_) .nil
  rw [LogicalLine.spaced_single, LogicalLine.spaced_single]
  exact .inr rfl

theorem forall₂_logicalLines (joins : LinesJoin chosen number ls js)
    (stops : ∀ line ∈ logicalLines number ls, Stops chosen line) (number' : Nat) :
    List.Forall₂ (JoinedTo chosen) (logicalLines number ls) (logicalLines number' js) := by
  induction joins generalizing number' with
  | nil => exact .nil
  | keep rest ih => exact forall₂_keep (ih (stops_of_cons stops) _)
  | join isChosen goesOn rest ih => exact forall₂_join isChosen goesOn stops (ih (stops_of_cons stops) _)
  | last isChosen goesOn => exact forall₂_last isChosen goesOn stops

end Header

end MacroLift
