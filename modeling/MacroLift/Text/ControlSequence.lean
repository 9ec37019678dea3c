namespace MacroLift.Text

def isSequenceParameter (c : Char) : Bool :=
  c.isDigit || c == ';' || c == '?'

def afterControlSequence? : List Char → Option (List Char)
  | '\x1b' :: '[' :: rest =>
    match rest.dropWhile isSequenceParameter with
    | letter :: after => if letter.isAlpha then some after else none
    | [] => none
  | _ => none

theorem length_of_afterControlSequence? {text after : List Char} (h : afterControlSequence? text = some after) :
    after.length < text.length := by
  unfold afterControlSequence? at h
  split at h
  · rename_i rest
    have bound := (List.dropWhile_sublist isSequenceParameter (l := rest)).length_le
    split at h
    · rename_i letter tail found
      rw [found] at bound
      split at h
      · cases h
        simp only [List.length_cons] at bound ⊢
        omega
      · cases h
    · cases h
  · cases h

def withoutControlSequences : List Char → List Char
  | [] => []
  | c :: rest =>
    match _found : afterControlSequence? (c :: rest) with
    | some after => withoutControlSequences after
    | none => c :: withoutControlSequences rest
  termination_by text => text.length
  decreasing_by
    · exact length_of_afterControlSequence? _found
    · simp only [List.length_cons]
      omega

end MacroLift.Text
