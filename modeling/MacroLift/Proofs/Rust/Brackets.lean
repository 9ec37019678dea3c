import MacroLift.Proofs.Token.Scan
import MacroLift.Rust.Item

namespace MacroLift

namespace Brackets

/-- What the next character of a text belongs to. -/
inductive Mode where
  | code
  | literal (quote : Char)
  | escaped (quote : Char)
  deriving Repr, DecidableEq

structure State where
  expected : List Char
  mode : Mode
  deriving Repr, DecidableEq

def closing? : Char → Option Char
  | '(' => some ')'
  | '\x7b' => some '\x7d'
  | '[' => some ']'
  | _ => none

def isClosing (c : Char) : Bool :=
  c == ')' || c == '\x7d' || c == ']'

def isQuote (c : Char) : Bool :=
  c == '"' || c == '\x27'

def readCode (expected : List Char) (c : Char) : Option State :=
  if isQuote c then some ⟨expected, .literal c⟩
  else
    match closing? c with
    | some closing => some ⟨closing :: expected, .code⟩
    | none =>
      if isClosing c then
        match expected with
        | next :: outer => if c = next then some ⟨outer, .code⟩ else none
        | [] => none
      else some ⟨expected, .code⟩

/-- One character of a text, unless it is a closing bracket that closes nothing. -/
def State.read (state : State) (c : Char) : Option State :=
  match state.mode with
  | .code => readCode state.expected c
  | .literal quote =>
    some ⟨state.expected, if c = quote then .code else if c = '\\' then .escaped quote else .literal quote⟩
  | .escaped quote => some ⟨state.expected, .literal quote⟩

/-- A text that begins and ends outside literals. In front of it some closing brackets are expected, and behind it
    others. -/
structure Turns (before : List Char) (text : String) (after : List Char) : Prop where
  read : text.toList.foldlM State.read ⟨before, .code⟩ = some ⟨after, .code⟩

instance (before after : List Char) (text : String) : Decidable (Turns before text after) :=
  decidable_of_iff _ ⟨Turns.mk, Turns.read⟩

def IsBalanced (text : String) : Prop :=
  Turns [] text []

instance (text : String) : Decidable (IsBalanced text) :=
  inferInstanceAs (Decidable (Turns _ _ _))

variable {before mid after expected : List Char} {text first second : String} {c quote : Char}
  {state next : State}

theorem Turns.append (one : Turns before first mid) (other : Turns mid second after) :
    Turns before (first ++ second) after := by
  constructor
  rw [String.toList_append, List.foldlM_append, one.read]
  exact other.read

theorem readCode_inside (read : readCode expected c = some next) (outer : List Char) :
    readCode (expected ++ outer) c = some ⟨next.expected ++ outer, next.mode⟩ := by
  unfold readCode at read ⊢
  by_cases quoted : isQuote c
  · rw [if_pos quoted] at read ⊢
    cases read
    rfl
  · rw [if_neg quoted] at read ⊢
    cases opening : closing? c with
    | some closing =>
      rw [opening] at read
      cases read
      rfl
    | none =>
      rw [opening] at read
      dsimp only at read ⊢
      by_cases closes : isClosing c
      · rw [if_pos closes] at read ⊢
        cases expected with
        | nil => cases read
        | cons first rest =>
          dsimp only [List.cons_append] at read ⊢
          split at read
          · cases read
            rw [if_pos ‹_›]
          · cases read
      · rw [if_neg closes] at read ⊢
        cases read
        rfl

theorem State.read_inside (read : state.read c = some next) (outer : List Char) :
    State.read ⟨state.expected ++ outer, state.mode⟩ c = some ⟨next.expected ++ outer, next.mode⟩ := by
  obtain ⟨expected, mode⟩ := state
  cases mode with
  | code => exact readCode_inside read outer
  | literal quote | escaped quote =>
    cases read
    rfl

theorem foldlM_read_inside {chars : List Char} (read : chars.foldlM State.read state = some next)
    (outer : List Char) :
    chars.foldlM State.read ⟨state.expected ++ outer, state.mode⟩ = some ⟨next.expected ++ outer, next.mode⟩ := by
  induction chars generalizing state with
  | nil =>
    cases read
    rfl
  | cons c chars ih =>
    rw [List.foldlM_cons] at read ⊢
    obtain ⟨mid, one, rest⟩ := Option.bind_eq_some_iff.mp read
    rw [State.read_inside one]
    exact ih rest

theorem Turns.inside (turns : Turns before text after) (outer : List Char) :
    Turns (before ++ outer) text (after ++ outer) :=
  ⟨foldlM_read_inside turns.read outer⟩

theorem IsBalanced.turns (balanced : IsBalanced text) (expected : List Char) : Turns expected text expected :=
  Turns.inside balanced expected

theorem Turns.over (turns : Turns before first after) (balanced : IsBalanced second) :
    Turns before (first ++ second) after :=
  turns.append (balanced.turns after)

theorem IsBalanced.append (one : IsBalanced first) (other : IsBalanced second) : IsBalanced (first ++ second) :=
  Turns.over one other

theorem isBalanced_intercalate {separator : String} {texts : List String} (neutral : IsBalanced separator)
    (balanced : ∀ text ∈ texts, IsBalanced text) : IsBalanced (separator.intercalate texts) := by
  induction texts with
  | nil => exact ⟨rfl⟩
  | cons text texts ih =>
    obtain ⟨one, others⟩ := List.forall_mem_cons.mp balanced
    cases texts with
    | nil => simpa using one
    | cons next texts =>
      rw [String.intercalate_cons_cons]
      exact (one.append neutral).append (ih others)

def isPlain (c : Char) : Bool :=
  !isQuote c && (closing? c).isNone && !isClosing c

theorem readCode_of_isPlain (plain : isPlain c = true) : readCode expected c = some ⟨expected, .code⟩ := by
  simp only [isPlain, Bool.and_eq_true, Bool.not_eq_true', Option.isNone_iff_eq_none] at plain
  obtain ⟨⟨noQuote, noOpening⟩, noClosing⟩ := plain
  simp [readCode, noQuote, noOpening, noClosing]

theorem isBalanced_of_isPlain (plain : ∀ c ∈ text.toList, isPlain c = true) : IsBalanced text := by
  have read (chars : List Char) (plain : ∀ c ∈ chars, isPlain c = true) :
      chars.foldlM State.read ⟨[], .code⟩ = some ⟨[], .code⟩ := by
    induction chars with
    | nil => rfl
    | cons c chars ih =>
      obtain ⟨one, others⟩ := List.forall_mem_cons.mp plain
      rw [List.foldlM_cons]
      exact (congrArg (· >>= _) (readCode_of_isPlain one)).trans (ih others)
  exact ⟨read _ plain⟩

theorem foldlM_read_literal {rest body after : List Char} (noBackslash : quote ≠ '\\')
    (closed : Lexeme.splitQuoted? quote rest = some (body, after)) :
    body.foldlM State.read ⟨expected, .literal quote⟩ = some ⟨expected, .code⟩ := by
  fun_induction Lexeme.splitQuoted? quote rest generalizing body with
  | case1 | case3 | case4 => cases closed
  | case2 =>
    cases closed
    simp [State.read]
  | case5 noNewline d rest noQuote ih =>
    obtain ⟨⟨body', after'⟩, found, same⟩ := Option.map_eq_some_iff.mp closed
    cases same
    simpa [State.read, consume, noBackslash.symm] using ih found
  | case6 c rest noQuote noNewline noEscape ih =>
    obtain ⟨⟨body', after'⟩, found, same⟩ := Option.map_eq_some_iff.mp closed
    cases same
    simpa [State.read, consume, noQuote, noEscape] using ih found

theorem isBalanced_quoted {rest body after : List Char} (quoted : isQuote quote = true)
    (closed : Lexeme.splitQuoted? quote rest = some (body, after)) :
    IsBalanced (String.ofList (quote :: body)) := by
  have noBackslash : quote ≠ '\\' := by
    rintro rfl
    cases quoted
  have opened : State.read ⟨[], .code⟩ quote = some ⟨[], .literal quote⟩ := by
    simp [State.read, readCode, quoted]
  constructor
  rw [String.toList_ofList, List.foldlM_cons, opened]
  exact foldlM_read_literal noBackslash closed

inductive LinesTurn : List Char → List String → List Char → Prop where
  | nil (expected : List Char) : LinesTurn expected [] expected
  | cons {before mid after : List Char} {line : String} {lines : List String} (first : Turns before line mid)
      (more : LinesTurn mid lines after) : LinesTurn before (line :: lines) after

variable {lines more : List String}

theorem LinesTurn.append (one : LinesTurn before lines mid) (other : LinesTurn mid more after) :
    LinesTurn before (lines ++ more) after := by
  induction one with
  | nil => exact other
  | cons first _ ih => exact .cons first (ih other)

theorem Turns.line (turns : Turns before text after) : LinesTurn before [text] after :=
  .cons turns (.nil _)

theorem LinesTurn.inside (turns : LinesTurn before lines after) (outer : List Char) :
    LinesTurn (before ++ outer) lines (after ++ outer) := by
  induction turns with
  | nil => exact .nil _
  | cons first _ ih => exact .cons (first.inside outer) ih

theorem LinesTurn.indented (turns : LinesTurn before lines after) : LinesTurn before (indented lines) after := by
  induction turns with
  | nil => exact .nil _
  | @cons before mid _ line _ first _ ih =>
    refine .cons ?_ ih
    have step : Turns before indentStep before := IsBalanced.turns (⟨rfl⟩) before
    dsimp only
    split
    · exact first
    · exact step.append first

theorem LinesTurn.block {head last : String} (opened : Turns [] head ['\x7d']) (turns : LinesTurn [] lines [])
    (closed : Turns ['\x7d'] last after) : LinesTurn [] (head :: MacroLift.indented lines ++ [last]) after :=
  (LinesTurn.cons opened (turns.indented.inside ['\x7d'])).append closed.line

theorem LinesTurn.intercalate (turns : LinesTurn before lines after) :
    Turns before ("\n".intercalate lines) after := by
  induction turns with
  | nil => exact ⟨rfl⟩
  | @cons before mid after line lines first more ih =>
    cases lines with
    | nil =>
      cases more
      simpa using first
    | cons next lines =>
      have newline : IsBalanced "\n" := ⟨rfl⟩
      rw [String.intercalate_cons_cons]
      exact (first.over newline).append ih

end Brackets

end MacroLift
