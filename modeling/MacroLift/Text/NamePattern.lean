namespace MacroLift.Text

inductive PatternItem where
  | char (c : Char)
  | one
  | many
  /-- One character of a set, or one outside it. The set is what the runs hold, and what lies between the last
      character of a run and the first of the next. -/
  | set (negated : Bool) (runs : List (List Char))
  deriving Repr, DecidableEq

namespace PatternItem

/-- Cuts the text of a set at its range hyphens. The first `lead` characters are never one, nor are the
    first two behind a range hyphen; a hyphen at the very end is a member. -/
def runs : Nat → List Char → List (List Char)
  | _, [] => [[]]
  | 0, ['-'] => [['-']]
  | 0, '-' :: rest => [] :: runs 2 rest
  | lead, c :: rest =>
    match runs (lead - 1) rest with
    | [] => [[c]]
    | run :: more => (c :: run) :: more

/-- Takes out the ranges that run downward, last range first: both their ends go, and the runs meet. -/
def dropEmptyRanges : List (List Char) → List (List Char)
  | [] => []
  | run :: more =>
    match dropEmptyRanges more with
    | [] => [run]
    | next :: rest =>
      match run.getLast?, next.head? with
      | some low, some high =>
        if high < low then (run.dropLast ++ next.tail) :: rest else run :: next :: rest
      | _, _ => run :: next :: rest

/-- The set that stands between two brackets. An exclamation mark in front, once the empty ranges are gone,
    negates it; a range hyphen right behind that mark has no lower end left and is a member. -/
def ofSetText (text : List Char) : PatternItem :=
  match dropEmptyRanges (runs (if text.head? = some '!' then 2 else 1) text) with
  | ['!'] :: next :: more => .set true (('-' :: next) :: more)
  | ('!' :: run) :: more => .set true (run :: more)
  | runs => .set false runs

def inRuns (c : Char) : List (List Char) → Bool
  | [] => false
  | run :: more =>
    run.contains c || inRuns c more ||
      match run.getLast?, more.head?.bind List.head? with
      | some low, some high => low ≤ c && c ≤ high
      | _, _ => false

def accepts (c : Char) : PatternItem → Bool
  | .char d => c == d
  | .one | .many => true
  | .set negated runs => inRuns c runs != negated

end PatternItem

/-- The text of a set and what follows its closing bracket. A bracket that comes first, or right after
    the negating mark, is a member. -/
def setText? (text : List Char) : Option (List Char × List Char) :=
  let mark := if text.head? = some '!' then 1 else 0
  let lead := if text[mark]? = some ']' then mark + 1 else mark
  match (text.drop lead).dropWhile (· != ']') with
  | [] => none
  | _ :: rest => some (text.take lead ++ (text.drop lead).takeWhile (· != ']'), rest)

theorem setText?_length {text inner rest : List Char} (h : setText? text = some (inner, rest)) :
    rest.length < text.length := by
  simp only [setText?] at h
  split at h
  · cases h
  · rename_i c r found
    cases h
    generalize (if text[if text.head? = some '!' then 1 else 0]? = some ']'
      then (if text.head? = some '!' then 1 else 0) + 1 else if text.head? = some '!' then 1 else 0) = lead
      at found
    have bound := (List.dropWhile_sublist (· != ']') (l := text.drop lead)).length_le
    rw [found, List.length_cons, List.length_drop] at bound
    omega

def patternItems : List Char → List PatternItem
  | [] => []
  | '*' :: rest => .many :: patternItems rest
  | '?' :: rest => .one :: patternItems rest
  | '[' :: rest =>
    match _found : setText? rest with
    | some (inner, after) => PatternItem.ofSetText inner :: patternItems after
    | none => .char '[' :: patternItems rest
  | c :: rest => .char c :: patternItems rest
  termination_by text => text.length
  decreasing_by
    all_goals simp only [List.length_cons]
    · omega
    · omega
    · have shorter := setText?_length _found
      omega
    · omega
    · omega

def suffixes : List Char → List (List Char)
  | [] => [[]]
  | c :: rest => (c :: rest) :: suffixes rest

def itemsMatch : List PatternItem → List Char → Bool
  | [], text => text.isEmpty
  | .many :: items, text => (suffixes text).any (itemsMatch items)
  | _ :: _, [] => false
  | item :: items, c :: rest => item.accepts c && itemsMatch items rest

def matchesPattern (name pattern : String) : Bool :=
  itemsMatch (patternItems pattern.toList) name.toList

end MacroLift.Text
