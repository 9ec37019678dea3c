namespace MacroLift

def consume (read : List Char) (split : List Char × List Char) : List Char × List Char :=
  (read ++ split.1, split.2)

namespace Gap

def isBlank (c : Char) : Bool :=
  c == ' ' || c == '\t' || c == '\n' || c == '\r' || c == '\x0c' || c == '\x0b'

def closeComment? : List Char → Option (List Char × List Char)
  | [] => none
  | '*' :: '/' :: rest => some (['*', '/'], rest)
  | c :: rest => (closeComment? rest).map (consume [c])

def lineRest (text : List Char) : List Char × List Char :=
  (text.takeWhile (· != '\n'), text.dropWhile (· != '\n'))

theorem closeComment?_append {text comment rest : List Char} (h : closeComment? text = some (comment, rest)) :
    comment ++ rest = text := by
  fun_induction closeComment? text generalizing comment rest with
  | case1 => cases h
  | case2 rest' => cases h; rfl
  | case3 c rest' _ ih =>
    obtain ⟨split, found, equal⟩ := Option.map_eq_some_iff.mp h
    obtain ⟨comment', rest''⟩ := split
    cases equal
    simp [← ih found]

theorem lineRest_append (text : List Char) : (lineRest text).1 ++ (lineRest text).2 = text :=
  List.takeWhile_append_dropWhile

theorem length_lineRest_le (text : List Char) : (lineRest text).2.length ≤ text.length := by
  have whole := congrArg List.length (lineRest_append text)
  rw [List.length_append] at whole
  omega

theorem length_of_closeComment? {text comment rest : List Char}
    (h : closeComment? text = some (comment, rest)) : comment.length + rest.length = text.length := by
  rw [← List.length_append, closeComment?_append h]

/-- Splits off the gap at the start of a text. A block comment that is never closed is no part of it. -/
def split : List Char → List Char × List Char
  | [] => ([], [])
  | '\\' :: '\n' :: rest => consume ['\\', '\n'] (split rest)
  | '\\' :: '\r' :: '\n' :: rest => consume ['\\', '\r', '\n'] (split rest)
  | '/' :: '/' :: rest => consume ('/' :: '/' :: (lineRest rest).1) (split (lineRest rest).2)
  | '/' :: '*' :: rest =>
    match _closed : closeComment? rest with
    | some (comment, after) => consume ('/' :: '*' :: comment) (split after)
    | none => ([], '/' :: '*' :: rest)
  | c :: rest => if isBlank c then consume [c] (split rest) else ([], c :: rest)
  termination_by text => text.length
  decreasing_by
    all_goals simp only [List.length_cons]
    · omega
    · omega
    · have bound := length_lineRest_le rest
      omega
    · have whole := length_of_closeComment? _closed
      omega
    · omega

theorem split_append (text : List Char) : (split text).1 ++ (split text).2 = text := by
  fun_induction split text with
  | case1 => rfl
  | case2 rest ih | case3 rest ih => simp [consume, ih]
  | case4 rest ih => simp [consume, ih, lineRest_append]
  | case5 rest comment after closed ih => simp [consume, ih, closeComment?_append closed]
  | case6 => rfl
  | case7 c rest _ _ _ _ _ ih => simp [consume, ih]
  | case8 => rfl

theorem split_blank {c : Char} (isBlank : isBlank c = true) (rest : List Char) :
    split (c :: rest) = consume [c] (split rest) := by
  have others : c ≠ '\\' ∧ c ≠ '/' := by
    constructor <;> (rintro rfl; cases isBlank)
  rw [split.eq_def]
  split <;> simp_all

theorem split_blockComment {text comment rest : List Char} (closed : closeComment? text = some (comment, rest)) :
    split ('/' :: '*' :: text) = consume ('/' :: '*' :: comment) (split rest) := by
  rw [split]
  split
  case h_1 found =>
    cases found.symm.trans closed
    rfl
  case h_2 none => cases none.symm.trans closed

end Gap

end MacroLift
