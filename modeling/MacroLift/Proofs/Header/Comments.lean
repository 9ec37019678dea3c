import Mathlib.Data.List.Induction
import MacroLift.Proofs.Header.CommentState

namespace MacroLift.Header

variable {text file : String} {inComment : Bool} {line : LogicalLine} {lines before after : List LogicalLine}
  {first parameters name bodyStart : List Char} {more : List (List Char)}

/-- What a logical line shows of its first line, if a comment is open in front of it or not. -/
def visible? (inComment : Bool) (line : LogicalLine) : Option (List Char) :=
  if inComment then afterComment? line.first else some line.first

def definition? (file : String) (inComment : Bool) (line : LogicalLine) : Option Definition :=
  (visible? inComment line).bind fun first => (readLine file line first).1

def flagBehind (inComment : Bool) (line : LogicalLine) : Bool :=
  ((visible? inComment line).map fun first => (readLine "" line first).2).getD true

theorem readLine_snd (file : String) (line : LogicalLine) (first : List Char) :
    (readLine file line first).2 =
      match directive? first with
      | none => opensComment (first :: line.more)
      | some (_, _, bodyStart) => (cutOpenComment (['\n'].intercalate (bodyStart :: line.more))).2 := by
  unfold readLine
  cases directive? first <;> rfl

theorem definitionsFrom_cons (file : String) (inComment : Bool) (line : LogicalLine) (lines : List LogicalLine) :
    definitionsFrom file inComment (line :: lines) =
      (definition? file inComment line).toList ++ definitionsFrom file (flagBehind inComment line) lines := by
  rw [definitionsFrom, definition?, flagBehind]
  unfold visible?
  split
  case h_1 hidden =>
    rw [hidden]
    rfl
  case h_2 first shown =>
    rw [shown, Option.bind_some, Option.map_some, Option.getD_some, readLine_snd "", ← readLine_snd file]

theorem definitionsFrom_append (file : String) (inComment : Bool) (before after : List LogicalLine) :
    definitionsFrom file inComment (before ++ after) =
      definitionsFrom file inComment before ++ definitionsFrom file (before.foldl flagBehind inComment) after := by
  induction before generalizing inComment with
  | nil => rfl
  | cons line before ih =>
    rw [List.cons_append, definitionsFrom_cons, definitionsFrom_cons, ih, List.foldl_cons, List.append_assoc]

def bodyOf (line : LogicalLine) (bodyStart : List Char) : List Char :=
  ['\n'].intercalate (bodyStart :: line.more)

/-- How a logical line comes to leave a wrong flag. -/
inductive Misread (inComment : Bool) (line : LogicalLine) : Prop where
  /-- The open comment ends on a line that is joined to the first. -/
  | endsLater (hidden : visible? inComment line = none) (ended : line.more.foldl commentOpen true = false)
  /-- A comment opens among the parameters, and there is neither an opening nor an end in the body. -/
  | opensEarlier {first name parameters bodyStart : List Char} (shown : visible? inComment line = some first)
      (found : directive? first = some (name, parameters, bodyStart)) (opened : commentOpen false parameters = true)
      (unmarked : Unmarked (bodyOf line bodyStart))
  | endsInOpening {first name parameters bodyStart : List Char} (shown : visible? inComment line = some first)
      (found : directive? first = some (name, parameters, bodyStart))
      (ends : EndsInOpening (commentOpen false parameters) (bodyOf line bodyStart))

theorem visible?_suffix (shown : visible? inComment line = some first) : first <:+ line.first := by
  unfold visible? at shown
  split at shown
  · exact afterComment?_suffix shown
  · cases shown
    exact List.suffix_refl _

theorem foldl_of_hidden (hidden : visible? inComment line = none) :
    line.lines.foldl commentOpen inComment = line.more.foldl commentOpen true := by
  unfold visible? at hidden
  split at hidden
  · rename_i within
    have unclosed : (Gap.closeComment? line.first).map Prod.snd = none := hidden
    rw [LogicalLine.lines, List.foldl_cons, within, commentOpen_true, unclosed]
    rfl
  · cases hidden

theorem foldl_of_visible (shown : visible? inComment line = some first) :
    line.lines.foldl commentOpen inComment = (first :: line.more).foldl commentOpen false := by
  unfold visible? at shown
  rw [LogicalLine.lines, List.foldl_cons, List.foldl_cons]
  split at shown
  · rename_i within
    have closed : (Gap.closeComment? line.first).map Prod.snd = some first := shown
    rw [within, commentOpen_true, closed]
    rfl
  · rename_i outside
    cases shown
    rw [Bool.not_eq_true] at outside
    rw [outside]

theorem foldl_of_directive (found : directive? first = some (name, parameters, bodyStart)) (more : List (List Char)) :
    (first :: more).foldl commentOpen inComment =
      commentOpen (commentOpen inComment parameters) (['\n'].intercalate (bodyStart :: more)) := by
  obtain ⟨front, rfl, plain, plainName⟩ := directive?_eq_some found
  have start : IsPlain (front ++ name ++ ['(']) := (plain.append plainName).append (by simp [IsPlain])
  have whole : front ++ name ++ '(' :: parameters ++ ')' :: bodyStart =
      (front ++ name ++ ['(']) ++ (parameters ++ ')' :: bodyStart) := by simp
  rw [commentOpen_intercalate (by decide), List.foldl_cons, List.foldl_cons, whole, commentOpen_plain_append start,
    commentOpen_append _ _ (by rintro c ⟨⟩; decide), commentOpen_cons (by decide)]

theorem opensComment_eq (noLine : ∀ l ∈ first :: more, ¬ ['/', '/'] <:+: l) :
    opensComment (first :: more) = (first :: more).foldl commentOpen false := by
  rw [opensComment, occursIn_removeComments, commentOpen_intercalate (by decide)]
  intro found
  obtain ⟨l, member, found⟩ := Text.pair_infix_intercalate (by decide) (by decide) found
  exact noLine l member found

theorem cutOpenComment_eq_iff (inside : Bool) (body : List Char) :
    (cutOpenComment body).2 = commentOpen inside body ↔
      ¬ (inside = true ∧ Unmarked body) ∧ ¬ EndsInOpening inside body := by
  constructor
  · refine fun same => ⟨?_, fun ends => ?_⟩
    · rintro ⟨rfl, unmarked⟩
      rw [unmarked.commentOpen_eq, unmarked.cutOpenComment_eq] at same
      cases same
    · rw [ends.cutOpenComment_eq, ends.commentOpen_eq] at same
      cases same
  · rintro ⟨marked, apart⟩
    cases state : commentOpen inside body with
    | true =>
      rcases opening_of_commentOpen state with unmarked | ⟨front, rest, whole, unclosed⟩
      · exact absurd unmarked marked
      · exact (cutOpenComment_first whole unclosed).1
    | false =>
      rcases cutOpenComment_cases body with ⟨whole, -⟩ | ⟨-, rest, whole, unclosed⟩
      · exact whole
      · exact absurd (endsInOpening_of_commentOpen whole unclosed state) apart

/-- Without line comments, a logical line leaves the flag that C has behind it unless its comments are misread. -/
theorem flagBehind_eq_iff (noLine : ∀ l ∈ line.lines, ¬ ['/', '/'] <:+: l) :
    flagBehind inComment line = line.lines.foldl commentOpen inComment ↔ ¬ Misread inComment line := by
  unfold flagBehind
  -- a line that a comment hides, one that defines nothing, and a definition
  cases shown : visible? inComment line with
  | none =>
    rw [foldl_of_hidden shown, Option.map_none, Option.getD_none]
    constructor
    · rintro open' (⟨-, ended⟩ | ⟨shown', -⟩ | ⟨shown', -⟩)
      · cases open'.trans ended
      all_goals cases shown.symm.trans shown'
    · intro read
      cases state : line.more.foldl commentOpen true with
      | true => rfl
      | false => exact absurd (.endsLater shown state) read
  | some first =>
    have noLineVisible : ∀ l ∈ first :: line.more, ¬ ['/', '/'] <:+: l := by
      obtain ⟨start, others⟩ := List.forall_mem_cons.mp noLine
      exact List.forall_mem_cons.mpr ⟨fun found => start (found.trans (visible?_suffix shown).isInfix), others⟩
    rw [foldl_of_visible shown, Option.map_some, Option.getD_some, readLine_snd]
    cases found : directive? first with
    | none =>
      refine iff_of_true (opensComment_eq noLineVisible) ?_
      rintro (⟨hidden, -⟩ | ⟨shown', found', -, -⟩ | ⟨shown', found', -⟩)
      · cases shown.symm.trans hidden
      all_goals
        cases shown.symm.trans shown'
        cases found.symm.trans found'
    | some parts =>
      obtain ⟨name, parameters, bodyStart⟩ := parts
      rw [foldl_of_directive found]
      refine (cutOpenComment_eq_iff _ (bodyOf line bodyStart)).trans ?_
      constructor
      · rintro ⟨marked, apart⟩ (⟨hidden, -⟩ | ⟨shown', found', opened, unmarked⟩ | ⟨shown', found', ends⟩)
        · cases shown.symm.trans hidden
        · cases shown.symm.trans shown'
          cases found.symm.trans found'
          exact marked ⟨opened, unmarked⟩
        · cases shown.symm.trans shown'
          cases found.symm.trans found'
          exact apart ends
      · exact fun read => ⟨fun ⟨opened, unmarked⟩ => read (.opensEarlier shown found opened unmarked),
          fun ends => read (.endsInOpening shown found ends)⟩

/-- Whether C has a comment open in front of a logical line: behind all physical lines before its first. -/
def openBefore (text : String) (line : LogicalLine) : Bool :=
  ((Text.lines text.toList).take (line.number - 1)).foldl commentOpen false

theorem openBefore_eq (h : logicalLines 1 (Text.lines text.toList) = before ++ line :: after) :
    openBefore text line = (before.flatMap LogicalLine.lines).foldl commentOpen false :=
  (foldl_commentOpen (isKept_before h) false).symm

theorem noLineComment_of_mem (noLine : ¬ ['/', '/'] <:+: text.toList)
    (member : line ∈ logicalLines 1 (Text.lines text.toList)) : ∀ l ∈ line.lines, ¬ ['/', '/'] <:+: l := by
  intro l among found
  obtain ⟨physical, isPhysical, front⟩ := exists_prefix_of_mem member among
  exact noLine ((found.trans front.isInfix).trans (Text.infix_of_mem_lines isPhysical))

theorem foldl_flagBehind (noLine : ¬ ['/', '/'] <:+: text.toList)
    (h : logicalLines 1 (Text.lines text.toList) = before ++ line :: after)
    (right : ∀ l ∈ before, ¬ Misread (openBefore text l) l) :
    before.foldl flagBehind false = openBefore text line := by
  induction before using List.reverseRecOn generalizing line after with
  | nil => exact (openBefore_eq h).symm
  | append_singleton before last ih =>
    have whole : logicalLines 1 (Text.lines text.toList) = before ++ last :: (line :: after) := by
      rw [h, List.append_assoc, List.singleton_append]
    have member : last ∈ logicalLines 1 (Text.lines text.toList) := by simp [whole]
    have flag := ih whole fun l among => right l (List.mem_append_left _ among)
    have lastRight := right last (List.mem_append_right _ List.mem_cons_self)
    rw [List.foldl_append, flag, List.foldl_cons, List.foldl_nil,
      (flagBehind_eq_iff (noLineComment_of_mem noLine member)).mpr lastRight, openBefore_eq whole, openBefore_eq h,
      List.flatMap_append, List.foldl_append, List.flatMap_singleton]

theorem definitionsFrom_eq_flatMap (file : String) (noLine : ¬ ['/', '/'] <:+: text.toList)
    (right : ∀ l ∈ logicalLines 1 (Text.lines text.toList), ¬ Misread (openBefore text l) l)
    (h : logicalLines 1 (Text.lines text.toList) = before ++ after) :
    definitionsFrom file (before.foldl flagBehind false) after =
      after.flatMap fun line => (definition? file (openBefore text line) line).toList := by
  induction after generalizing before with
  | nil => rfl
  | cons line after ih =>
    have flag := foldl_flagBehind noLine h fun l among => right l (by rw [h]; exact List.mem_append_left _ among)
    have later := @ih (before ++ [line]) (by rw [h, List.append_assoc, List.singleton_append])
    rw [List.foldl_append, List.foldl_cons, List.foldl_nil] at later
    rw [definitionsFrom_cons, later, flag, List.flatMap_cons]

/-- Comments are followed as in C. In a header without line comments, the flag in front of a logical line is the state
    that C has there, unless the comments of a line before it are misread. If none are, the definitions that are found
    are those of the logical lines, each read in that state. -/
theorem comments_followed (text file : String) (noLine : ¬ ['/', '/'] <:+: text.toList) :
    (∀ before line after, logicalLines 1 (Text.lines text.toList) = before ++ line :: after →
      (∀ l ∈ before, ¬ Misread (openBefore text l) l) →
      before.foldl flagBehind false = openBefore text line) ∧
    ((∀ l ∈ logicalLines 1 (Text.lines text.toList), ¬ Misread (openBefore text l) l) →
      definitions text file = (logicalLines 1 (Text.lines text.toList)).flatMap fun line =>
        (definition? file (openBefore text line) line).toList) :=
  ⟨fun _ _ _ h right => foldl_flagBehind noLine h right,
    fun right => definitionsFrom_eq_flatMap file noLine right (List.nil_append _).symm⟩

theorem comments_followed_spanning :
    (definitions "/* a\n#define F(x) x\n*/\n#define G(x) x" "g.h").map Definition.name = ["G"] := by
  have noLine : ¬ ['/', '/'] <:+: "/* a\n#define F(x) x\n*/\n#define G(x) x".toList :=
    fun found => absurd (Text.occursIn_iff.mpr found) (by decide +kernel)
  have flags : ∀ l ∈ logicalLines 1 (Text.lines "/* a\n#define F(x) x\n*/\n#define G(x) x".toList),
      flagBehind (openBefore "/* a\n#define F(x) x\n*/\n#define G(x) x" l) l =
        l.lines.foldl commentOpen (openBefore "/* a\n#define F(x) x\n*/\n#define G(x) x" l) := by
    decide +kernel
  have read := (comments_followed "/* a\n#define F(x) x\n*/\n#define G(x) x" "g.h" noLine).2 fun l member =>
    (flagBehind_eq_iff (noLineComment_of_mem noLine member)).mp (flags l member)
  rw [read]
  decide +kernel

/-- A comment that ends on a line joined to another is taken to be open behind it: the definition there is lost. -/
theorem joined_comment_end_missed :
    ∃ before line,
      logicalLines 1 (Text.lines "/*\n a \\\n */\n#define F(x) x".toList) = before ++ [line] ∧
      before.foldl flagBehind false = true ∧
      openBefore "/*\n a \\\n */\n#define F(x) x" line = false ∧
      (definition? "f.h" false line).isSome = true ∧
      definitions "/*\n a \\\n */\n#define F(x) x" "f.h" = [] := by
  refine ⟨[⟨1, "/*".toList, []⟩, ⟨2, " a ".toList, [" */".toList]⟩], ⟨4, "#define F(x) x".toList, []⟩, ?_⟩
  decide +kernel

end MacroLift.Header
