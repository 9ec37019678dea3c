namespace MacroLift.Text

/-- The characters that end a line. A carriage return with the newline behind it ends one line. -/
def isLineBreak (c : Char) : Bool :=
  let n := c.toNat
  (0x0A ≤ n && n ≤ 0x0D) || (0x1C ≤ n && n ≤ 0x1E) || n == 0x85 || n == 0x2028 || n == 0x2029

def lines : List Char → List (List Char)
  | [] => []
  | '\r' :: '\n' :: rest => [] :: lines rest
  | c :: rest =>
    if isLineBreak c then [] :: lines rest
    else
      match lines rest with
      | [] => [[c]]
      | line :: more => (c :: line) :: more

def pieces : List Char → List (List Char)
  | [] => [[]]
  | '\n' :: rest => [] :: pieces rest
  | c :: rest =>
    match pieces rest with
    | [] => [[c]]
    | piece :: more => (c :: piece) :: more

def newlinesOnly : List Char → List Char
  | [] => []
  | '\r' :: '\n' :: rest => '\n' :: newlinesOnly rest
  | '\r' :: rest => '\n' :: newlinesOnly rest
  | c :: rest => c :: newlinesOnly rest

def stringLines (text : String) : List String :=
  (lines text.toList).map String.ofList

def unlines (ls : List String) : String :=
  "\n".intercalate ls

theorem pieces_ne_nil (text : List Char) : pieces text ≠ [] := by
  fun_induction pieces text <;> simp

end MacroLift.Text
