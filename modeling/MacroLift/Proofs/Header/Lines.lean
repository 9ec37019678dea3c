import Mathlib.Data.List.Forall2
import MacroLift.Header.Lines

namespace MacroLift

namespace Text

variable {text line : List Char}

theorem prefix_of_head_lines (h : (lines text).head? = some line) : line <+: text := by
  fun_induction lines text generalizing line with
  | case1 => cases h
  | case2 rest | case3 c rest =>
    cases h
    exact List.nil_prefix
  | case4 c rest =>
    cases h
    exact List.prefix_cons_inj c |>.mpr List.nil_prefix
  | case5 c rest _ _ first more found ih =>
    cases h
    exact (List.prefix_cons_inj c).mpr (ih (by rw [found]; rfl))

theorem infix_of_mem_lines (h : line ∈ lines text) : line <:+: text := by
  fun_induction lines text with
  | case1 => cases h
  | case2 rest ih =>
    rcases List.mem_cons.mp h with rfl | h
    · exact List.nil_infix
    · exact List.infix_cons (List.infix_cons (ih h))
  | case3 c rest _ _ ih =>
    rcases List.mem_cons.mp h with rfl | h
    · exact List.nil_infix
    · exact List.infix_cons (ih h)
  | case4 c rest =>
    rw [List.mem_singleton.mp h]
    exact ((List.prefix_cons_inj c).mpr List.nil_prefix).isInfix
  | case5 c rest _ _ first more found ih =>
    rw [found] at ih
    rcases List.mem_cons.mp h with rfl | h
    · have front : first <+: rest := prefix_of_head_lines (by rw [found]; rfl)
      exact ((List.prefix_cons_inj c).mpr front).isInfix
    · exact List.infix_cons (ih (List.mem_cons_of_mem _ h))

theorem not_isLineBreak_of_mem_lines (h : line ∈ lines text) : ∀ c ∈ line, isLineBreak c = false := by
  fun_induction lines text generalizing line with
  | case1 => cases h
  | case2 rest ih | case3 c rest _ _ ih =>
    rcases List.mem_cons.mp h with rfl | h
    · nofun
    · exact ih h
  | case4 c rest _ noBreak =>
    rw [List.mem_singleton.mp h, List.forall_mem_singleton]
    exact Bool.eq_false_iff.mpr noBreak
  | case5 c rest _ noBreak first more found ih =>
    rw [found] at ih
    rcases List.mem_cons.mp h with rfl | h
    · exact List.forall_mem_cons.mpr ⟨Bool.eq_false_iff.mpr noBreak, ih List.mem_cons_self⟩
    · exact ih (List.mem_cons_of_mem _ h)

theorem trimEnd_append (text : List Char) : ∃ blanks, text = trimEnd text ++ blanks ∧ ∀ c ∈ blanks, isBlank c = true := by
  refine ⟨(text.reverse.takeWhile isBlank).reverse, ?_, fun c member => ?_⟩
  · rw [trimEnd, ← List.reverse_append, List.takeWhile_append_dropWhile, List.reverse_reverse]
  · exact List.all_eq_true.mp List.all_takeWhile c (List.mem_reverse.mp member)

theorem infix_trim (text : List Char) : trim text <:+: text := by
  obtain ⟨blanks, whole, -⟩ := trimEnd_append (text.dropWhile isBlank)
  have front : trim text <+: text.dropWhile isBlank := ⟨blanks, whole.symm⟩
  exact front.isInfix.trans (List.dropWhile_suffix _).isInfix

end Text

namespace Header

variable {physical : List (List Char)} {before after : List LogicalLine} {line : LogicalLine} {text kept : List Char}

theorem continued?_eq_some (h : continued? text = some kept) :
    ∃ blanks, text = kept ++ '\\' :: blanks ∧ ∀ c ∈ blanks, Text.isBlank c = true := by
  unfold continued? at h
  split at h
  · rename_i backslash
    cases h
    obtain ⟨blanks, whole, blank⟩ := Text.trimEnd_append text
    refine ⟨blanks, ?_, blank⟩
    have last := List.dropLast_append_getLast? _ backslash
    rw [← List.singleton_append, ← List.append_assoc, last]
    exact whole
  · cases h

def IsKept (text kept : List Char) : Prop :=
  kept = text ∨ continued? text = some kept

theorem IsKept.isPrefix (h : IsKept text kept) : kept <+: text := by
  rcases h with rfl | joined
  · exact List.prefix_refl _
  · obtain ⟨blanks, whole, -⟩ := continued?_eq_some joined
    exact ⟨_, whole.symm⟩

theorem logicalLines_isKept (number : Nat) (physical : List (List Char)) :
    List.Forall₂ IsKept physical ((logicalLines number physical).flatMap LogicalLine.lines) := by
  induction physical generalizing number with
  | nil => exact .nil
  | cons text rest ih =>
    rw [logicalLines]
    split
    case h_1 => exact .cons (.inl rfl) (ih _)
    case h_2 kept joined =>
      have rest' := ih (number + 1)
      split
      case h_1 none =>
        rw [none] at rest'
        exact .cons (.inr joined) rest'
      case h_2 next others found =>
        rw [found] at rest'
        exact .cons (.inr joined) rest'

theorem number_of_logicalLines {number : Nat} (h : logicalLines number physical = before ++ line :: after) :
    line.number = number + (before.flatMap LogicalLine.lines).length := by
  induction physical generalizing number before with
  | nil => cases before <;> cases h
  | cons text rest ih =>
    rw [logicalLines] at h
    split at h
    case h_1 =>
      cases before with
      | nil => cases h; rfl
      | cons b before =>
        obtain ⟨rfl, behind⟩ := List.cons.inj h
        rw [ih behind, List.flatMap_cons, List.length_append]
        simp only [LogicalLine.lines, List.length_cons, List.length_nil]
        omega
    case h_2 kept joined =>
      split at h
      case h_1 none =>
        cases before with
        | nil => cases h; rfl
        | cons b before => cases before <;> cases h
      case h_2 next others found =>
        cases before with
        | nil => cases h; rfl
        | cons b before =>
          obtain ⟨rfl, others'⟩ := List.cons.inj h
          have behind : logicalLines (number + 1) rest = (next :: before) ++ line :: after := by
            rw [found, others']
            rfl
          rw [ih behind, List.flatMap_cons, List.flatMap_cons, List.length_append, List.length_append]
          simp only [LogicalLine.lines, List.length_cons]
          omega

theorem isKept_before (h : logicalLines 1 physical = before ++ line :: after) :
    List.Forall₂ IsKept (physical.take (line.number - 1)) (before.flatMap LogicalLine.lines) := by
  have all := logicalLines_isKept 1 physical
  rw [h, List.flatMap_append] at all
  rw [number_of_logicalLines h, Nat.add_sub_cancel_left]
  exact List.forall₂_take_append _ _ _ all

theorem exists_prefix_of_mem (member : line ∈ logicalLines 1 physical) (h : kept ∈ line.lines) :
    ∃ text ∈ physical, kept <+: text := by
  have all := logicalLines_isKept 1 physical
  have among : kept ∈ (logicalLines 1 physical).flatMap LogicalLine.lines := List.mem_flatMap.mpr ⟨line, member, h⟩
  obtain ⟨i, inside, rfl⟩ := List.getElem_of_mem among
  have inside' : i < physical.length := by rwa [all.length_eq]
  exact ⟨physical[i], List.getElem_mem inside', (List.forall₂_iff_get.mp all |>.2 i inside' inside).isPrefix⟩

end Header

end MacroLift
