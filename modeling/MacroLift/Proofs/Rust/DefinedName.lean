import MacroLift.Header.Scan
import MacroLift.Rust.Item

namespace MacroLift.Rust

def nameBetween? (opening closing text : List Char) : Option (List Char) := do
  let rest ← Header.dropStart? opening text
  let _ ← Header.dropStart? closing (rest.dropWhile Lexeme.isNameChar)
  pure (rest.takeWhile Lexeme.isNameChar)

def patternOpening : String := "macro_rules! "

def functionOpening : String :=
  "#[allow(non_snake_case)]" ++ "\n" ++ "#[inline(always)]" ++ "\n" ++ "pub unsafe extern \"C\" fn "

/-- The name that an item defines: that of a pattern, with its body in braces, or of a function, with its parameters in
    parentheses. -/
def definedName? (item : String) : Option String :=
  ((nameBetween? patternOpening.toList [' ', '\x7b'] item.toList).or
    (nameBetween? functionOpening.toList ['('] item.toList)).map String.ofList

theorem dropStart?_append (start rest : List Char) : Header.dropStart? start (start ++ rest) = some rest := by
  simp [Header.dropStart?]

theorem nameBetween?_eq_some {opening closing name text : List Char} {stop : Char}
    (letters : ∀ c ∈ name, Lexeme.isNameChar c = true) (apart : Lexeme.isNameChar stop = false)
    (front : opening ++ (name ++ stop :: closing) <+: text) :
    nameBetween? opening (stop :: closing) text = some name := by
  obtain ⟨rest, rfl⟩ := front
  simp only [List.append_assoc, List.cons_append]
  have left : (name ++ stop :: (closing ++ rest)).dropWhile Lexeme.isNameChar = stop :: closing ++ rest := by
    rw [List.dropWhile_append_of_pos letters, List.dropWhile_cons_of_neg (by rw [apart]; decide), List.cons_append]
  have found : (name ++ stop :: (closing ++ rest)).takeWhile Lexeme.isNameChar = name := by
    rw [List.takeWhile_append_of_pos letters, List.takeWhile_cons_of_neg (by rw [apart]; decide), List.append_nil]
  rw [nameBetween?, dropStart?_append, Option.bind_eq_bind, Option.bind_some, left, dropStart?_append, found]
  rfl

theorem prefix_intercalate (separator line : List Char) (lines : List (List Char)) :
    line <+: separator.intercalate (line :: lines) := by
  cases lines with
  | nil => exact ⟨[], by rw [List.append_nil, List.intercalate_singleton]⟩
  | cons next lines =>
    rw [List.intercalate_cons_cons, List.append_assoc]
    exact List.prefix_append _ _

variable (tables : Tables) {analysis : Analysis}

theorem prefix_patternLines : patternOpening.toList ++ (analysis.name.toList ++ [' ', '\x7b']) <+:
    ("\n".intercalate (patternLines tables analysis)).toList := by
  have line : patternOpening.toList ++ (analysis.name.toList ++ [' ', '\x7b']) =
      ("macro_rules! " ++ analysis.name ++ " \x7b").toList := by
    simp [patternOpening]
  rw [line, patternLines, String.toList_intercalate]
  exact prefix_intercalate _ _ _

theorem functionHead_eq (analysis : Analysis) :
    ∃ rest, functionHead tables analysis = "pub unsafe extern \"C\" fn " ++ (analysis.name ++ ("(" ++ rest)) := by
  unfold functionHead
  simp only [String.append_assoc]
  exact ⟨_, rfl⟩

theorem prefix_functionLines : functionOpening.toList ++ (analysis.name.toList ++ ['(']) <+:
    ("\n".intercalate (functionLines tables analysis)).toList := by
  obtain ⟨rest, head⟩ := functionHead_eq tables analysis
  have line : (functionHead tables analysis).toList =
      "pub unsafe extern \"C\" fn ".toList ++ (analysis.name.toList ++ ['(']) ++ rest.toList := by
    simp [head]
  unfold functionOpening functionLines
  simp only [String.toList_intercalate, List.cons_append, List.map_cons, List.intercalate_cons_cons,
    String.toList_append, List.append_assoc, List.prefix_append_right_inj]
  exact .trans ⟨rest.toList, by simp [line]⟩ (prefix_intercalate _ _ _)

theorem definedName?_item (letters : ∀ c ∈ analysis.name.toList, Lexeme.isNameChar c = true) :
    definedName? (item tables analysis) = some analysis.name := by
  unfold definedName? item
  split
  · rw [nameBetween?_eq_some letters (by decide) (prefix_patternLines tables)]
    simp
  · have front := @prefix_functionLines tables analysis
    have other : nameBetween? patternOpening.toList [' ', '\x7b']
        ("\n".intercalate (functionLines tables analysis)).toList = none := by
      obtain ⟨rest, whole⟩ := front
      rw [← whole]
      rfl
    rw [other, nameBetween?_eq_some letters (by decide) front]
    simp

end MacroLift.Rust
