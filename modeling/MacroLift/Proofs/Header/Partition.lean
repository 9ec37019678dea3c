import MacroLift.Proofs.Header.Comments
import MacroLift.Proofs.Header.Joining

namespace MacroLift.Header

variable {file : String} {number : Nat} {physical : List (List Char)} {before after lines : List LogicalLine}
  {line : LogicalLine} {l kept : List Char} {inComment : Bool} {d : Definition}

/-- A backslash ends the line, perhaps with blanks behind it. -/
def GoesOn (physical : List Char) : Prop :=
  ∃ kept blanks, physical = kept ++ '\\' :: blanks ∧ ∀ c ∈ blanks, Text.isBlank c = true

/-- What is kept of a physical line: all of it, but for the backslash at its end and what is behind that. -/
inductive Keeps : List Char → List Char → Prop where
  | joined {kept blanks : List Char} (blank : ∀ c ∈ blanks, Text.isBlank c = true) :
      Keeps (kept ++ '\\' :: blanks) kept
  | whole {physical : List Char} (stops : ¬ GoesOn physical) : Keeps physical physical

theorem goesOn_of_continued (h : continued? l = some kept) : GoesOn l := by
  obtain ⟨blanks, rfl, blank⟩ := continued?_eq_some h
  exact ⟨kept, blanks, rfl, blank⟩

theorem not_goesOn_of_stops (h : continued? l = none) : ¬ GoesOn l := by
  rintro ⟨kept, blanks, rfl, blank⟩
  rw [continued?_backslash blank] at h
  cases h

theorem keeps_of_continued (h : continued? l = some kept) : Keeps l kept := by
  obtain ⟨blanks, rfl, blank⟩ := continued?_eq_some h
  exact .joined blank

theorem Keeps.isPrefix (h : Keeps l kept) : kept <+: l := by
  cases h with
  | joined => exact List.prefix_append _ _
  | whole => exact List.prefix_refl _

/-- A logical line holds some physical lines and a last one, and all but that one go on. -/
structure LogicalLine.Holds (line : LogicalLine) (earlier : List (List Char)) (last : List Char) : Prop where
  keeps : List.Forall₂ Keeps (earlier ++ [last]) line.lines
  goOn : ∀ l ∈ earlier, GoesOn l

theorem logicalLines_eq_cons (h : logicalLines number physical = line :: after) :
    ∃ earlier last behind, physical = earlier ++ last :: behind ∧ line.Holds earlier last ∧
      (after ≠ [] → ¬ GoesOn last) ∧ logicalLines (number + (earlier.length + 1)) behind = after := by
  -- on the physical lines: the first one ends its logical line, or stands in front of the one that the rest begins with
  induction physical generalizing number line after with
  | nil => cases h
  | cons l rest ih =>
    cases goesOn : continued? l with
    | none =>
      rw [logicalLines_of_not_continued goesOn] at h
      obtain ⟨rfl, rfl⟩ := List.cons_eq_cons.mp h
      have stops := not_goesOn_of_stops goesOn
      exact ⟨[], l, rest, rfl, ⟨.cons (.whole stops) .nil, by simp⟩, fun _ => stops, rfl⟩
    | some kept =>
      cases rest with
      | nil =>
        rw [logicalLines, goesOn] at h
        obtain ⟨rfl, rfl⟩ := List.cons_eq_cons.mp h
        exact ⟨[], l, [], rfl, ⟨.cons (keeps_of_continued goesOn) .nil, by simp⟩, fun more => absurd rfl more, rfl⟩
      | cons next rest =>
        obtain ⟨second, others, found⟩ := exists_logicalLines_cons (number + 1) next rest
        rw [logicalLines_of_continued goesOn found] at h
        obtain ⟨rfl, rfl⟩ := List.cons_eq_cons.mp h
        obtain ⟨earlier, last, behind, whole, holds, stops, left⟩ := ih found
        refine ⟨l :: earlier, last, behind, by rw [whole]; rfl, ⟨?_, ?_⟩, stops, ?_⟩
        · exact .cons (keeps_of_continued goesOn) holds.keeps
        · exact List.forall_mem_cons.mpr ⟨goesOn_of_continued goesOn, holds.goOn⟩
        · rw [← left, List.length_cons]
          congr 1
          omega

theorem logicalLines_eq_append (h : logicalLines number physical = before ++ after) :
    ∃ front behind, physical = front ++ behind ∧ List.Forall₂ Keeps front (before.flatMap LogicalLine.lines) ∧
      logicalLines (number + front.length) behind = after := by
  induction before generalizing number physical with
  | nil => exact ⟨[], physical, rfl, .nil, h⟩
  | cons line before ih =>
    obtain ⟨earlier, last, behind, rfl, holds, -, left⟩ := logicalLines_eq_cons h
    obtain ⟨front, behind, rfl, keeps, left⟩ := ih left
    refine ⟨earlier ++ [last] ++ front, behind, by simp, List.rel_append holds.keeps keeps, ?_⟩
    rw [← left]
    congr 1
    simp only [List.length_append, List.length_cons, List.length_nil]
    omega

theorem logicalLines_keeps (number : Nat) (physical : List (List Char)) :
    List.Forall₂ Keeps physical ((logicalLines number physical).flatMap LogicalLine.lines) := by
  have all : logicalLines number physical = logicalLines number physical ++ [] := (List.append_nil _).symm
  obtain ⟨front, behind, whole, keeps, left⟩ := logicalLines_eq_append all
  cases behind with
  | nil => rwa [whole, List.append_nil] at keeps ⊢
  | cons l rest =>
    obtain ⟨next, others, found⟩ := exists_logicalLines_cons (number + front.length) l rest
    cases found.symm.trans left

theorem number_le_of_mem (member : line ∈ logicalLines number physical) : number ≤ line.number := by
  obtain ⟨before, after, whole⟩ := List.append_of_mem member
  rw [number_of_logicalLines whole]
  omega

theorem pairwise_number (h : logicalLines number physical = lines) :
    lines.Pairwise fun line line' => line.number < line'.number := by
  induction lines generalizing number physical with
  | nil => exact .nil
  | cons line lines ih =>
    obtain ⟨earlier, last, behind, -, -, -, left⟩ := logicalLines_eq_cons h
    refine .cons (fun line' member => ?_) (ih left)
    have later : number + (earlier.length + 1) ≤ line'.number := number_le_of_mem (left ▸ member)
    rw [number_of_head h]
    omega

def OpensOn (l : List Char) (d : Definition) : Prop :=
  ∃ front parameters head behind, l = front ++ (head ++ behind) ∧ IsHead d.name.toList parameters head ∧
    d.parametersText = String.ofList (Text.trim parameters) ∧ (front = [] ∨ ['*', '/'] <:+ front)

def StandsOn (file : String) (physical : List (List Char)) (number : Nat) (d : Definition) : Prop :=
  d.location = some ⟨file, ⟨number, 1⟩⟩ ∧
    ∃ before l after, physical = before ++ l :: after ∧ number = before.length + 1 ∧ OpensOn l d

theorem OpensOn.of_prefix {start : List Char} (h : OpensOn start d) (front : start <+: l) : OpensOn l d := by
  obtain ⟨more, rfl⟩ := front
  obtain ⟨front, parameters, head, behind, rfl, isHead, same, place⟩ := h
  exact ⟨front, parameters, head, behind ++ more, by simp, isHead, same, place⟩

theorem visible?_eq_some {first : List Char} (shown : visible? inComment line = some first) :
    ∃ front, line.first = front ++ first ∧ (front = [] ∨ ['*', '/'] <:+ front) := by
  unfold visible? at shown
  split at shown
  · obtain ⟨⟨comment, rest⟩, closed, rfl⟩ := Option.map_eq_some_iff.mp shown
    obtain ⟨inner, ends, -⟩ := Gap.closeComment?_eq_some closed
    exact ⟨comment, (Gap.closeComment?_append closed).symm, .inr ⟨inner, ends.symm⟩⟩
  · cases shown
    exact ⟨[], rfl, .inl rfl⟩

theorem opensOn_of_definition? (h : definition? file inComment line = some d) :
    d.location = some ⟨file, ⟨line.number, 1⟩⟩ ∧ OpensOn line.first d := by
  obtain ⟨first, shown, read⟩ := Option.bind_eq_some_iff.mp h
  obtain ⟨name, parameters, bodyStart, isDirective, rfl⟩ := readLine_fst_eq_some read
  obtain ⟨head, rfl, isHead⟩ := directive?_eq_some_iff.mp isDirective
  obtain ⟨front, whole, place⟩ := visible?_eq_some shown
  exact ⟨rfl, front, parameters, head, bodyStart, whole, by rwa [String.toList_ofList], rfl, place⟩

theorem standsOn_of_definition? (member : line ∈ logicalLines 1 physical)
    (h : definition? file inComment line = some d) : StandsOn file physical line.number d := by
  obtain ⟨located, opens⟩ := opensOn_of_definition? h
  obtain ⟨before, after, whole⟩ := List.append_of_mem member
  obtain ⟨front, behind, rfl, -, left⟩ := logicalLines_eq_append whole
  obtain ⟨earlier, last, rest, rfl, holds, -, -⟩ := logicalLines_eq_cons left
  have numbered : line.number = front.length + 1 := by
    rw [number_of_head left, Nat.add_comm]
  refine ⟨located, front, ?_⟩
  cases earlier with
  | nil =>
    obtain ⟨kept, -⟩ := List.forall₂_cons.mp holds.keeps
    exact ⟨last, rest, rfl, numbered, opens.of_prefix kept.isPrefix⟩
  | cons l earlier =>
    obtain ⟨kept, -⟩ := List.forall₂_cons.mp holds.keeps
    exact ⟨l, earlier ++ last :: rest, rfl, numbered, opens.of_prefix kept.isPrefix⟩

theorem definitionsFrom_lines {P : LogicalLine → Definition → Prop} (inComment : Bool)
    (each : ∀ line ∈ lines, ∀ inComment d, definition? file inComment line = some d → P line d) :
    ∃ used, used.Sublist lines ∧ List.Forall₂ P used (definitionsFrom file inComment lines) := by
  induction lines generalizing inComment with
  | nil => exact ⟨[], .slnil, .nil⟩
  | cons line lines ih =>
    obtain ⟨here, later⟩ := List.forall_mem_cons.mp each
    obtain ⟨used, sub, read⟩ := ih (flagBehind inComment line) later
    rw [definitionsFrom_cons]
    cases found : definition? file inComment line with
    | none => exact ⟨used, sub.cons line, read⟩
    | some d => exact ⟨line :: used, sub.cons_cons line, .cons (here inComment d found) read⟩

theorem definitions_stand (text file : String) :
    ∃ numbers : List Nat, numbers.Pairwise (· < ·) ∧
      List.Forall₂ (StandsOn file (Text.lines text.toList)) numbers (definitions text file) := by
  have each : ∀ line ∈ logicalLines 1 (Text.lines text.toList), ∀ inComment d,
      definition? file inComment line = some d → StandsOn file (Text.lines text.toList) line.number d :=
    fun line member inComment d found => standsOn_of_definition? member found
  obtain ⟨used, sub, read⟩ := definitionsFrom_lines false each
  refine ⟨used.map LogicalLine.number, ?_, List.forall₂_map_left_iff.mpr read⟩
  exact List.pairwise_map.mpr ((pairwise_number rfl).sublist sub)

/-- The logical lines are a partition of the physical lines of a header. Together they hold each of them, in order, as
    it is or, where it goes on, without its backslash and what is behind that. Each has the number of its first physical
    line, all that it holds but the last go on, and only in the last logical line does that one go on too. So the
    definitions have the numbers of the lines they stand on, each greater than the one before. -/
theorem header_partitioned (text file : String) :
    List.Forall₂ Keeps (Text.lines text.toList)
      ((logicalLines 1 (Text.lines text.toList)).flatMap LogicalLine.lines) ∧
    (∀ before line after, logicalLines 1 (Text.lines text.toList) = before ++ line :: after →
      line.number = (before.flatMap LogicalLine.lines).length + 1 ∧
      ∃ front earlier last behind, Text.lines text.toList = front ++ (earlier ++ last :: behind) ∧
        List.Forall₂ Keeps front (before.flatMap LogicalLine.lines) ∧ line.Holds earlier last ∧
        (after ≠ [] → ¬ GoesOn last)) ∧
    ∃ numbers : List Nat, numbers.Pairwise (· < ·) ∧
      List.Forall₂ (StandsOn file (Text.lines text.toList)) numbers (definitions text file) := by
  refine ⟨logicalLines_keeps 1 _, fun before line after h => ⟨?_, ?_⟩, definitions_stand text file⟩
  · rw [number_of_logicalLines h, Nat.add_comm]
  · obtain ⟨front, behind, whole, keeps, left⟩ := logicalLines_eq_append h
    obtain ⟨earlier, last, rest, rfl, holds, stops, -⟩ := logicalLines_eq_cons left
    exact ⟨front, earlier, last, rest, whole, keeps, holds, stops⟩

example : (definitions "#define A(x) \\\n x\n#define B(y) y" "ab.h").map Definition.location =
    [some ⟨"ab.h", ⟨1, 1⟩⟩, some ⟨"ab.h", ⟨3, 1⟩⟩] := by
  decide +kernel

end MacroLift.Header
