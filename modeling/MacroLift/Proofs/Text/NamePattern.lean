import MacroLift.Text.NamePattern

namespace MacroLift.Text

def IsPlainPattern (text : List Char) : Prop :=
  ∀ c ∈ text, c ≠ '*' ∧ c ≠ '?' ∧ c ≠ '['

theorem patternItems_of_plain {text : List Char} (plain : IsPlainPattern text) :
    patternItems text = text.map .char := by
  fun_induction patternItems text with
  | case1 => rfl
  | case2 => exact absurd rfl (plain '*' List.mem_cons_self).1
  | case3 => exact absurd rfl (plain '?' List.mem_cons_self).2.1
  | case4 | case5 => exact absurd rfl (plain '[' List.mem_cons_self).2.2
  | case6 c rest _ _ _ ih => rw [ih (List.forall_mem_cons.mp plain).2, List.map_cons]

theorem itemsMatch_map_char (text name : List Char) : itemsMatch (text.map .char) name = true ↔ name = text := by
  induction text generalizing name with
  | nil => cases name <;> simp [itemsMatch]
  | cons c text ih => cases name <;> simp [itemsMatch, PatternItem.accepts, ih]

theorem matchesPattern_of_plain {name pattern : String} (plain : IsPlainPattern pattern.toList) :
    matchesPattern name pattern = true ↔ name = pattern := by
  rw [matchesPattern, patternItems_of_plain plain, itemsMatch_map_char, String.toList_inj]

end MacroLift.Text
