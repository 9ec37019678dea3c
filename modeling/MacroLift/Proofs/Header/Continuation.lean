import MacroLift.Proofs.Header.Comments
import MacroLift.Proofs.Header.Joining

namespace MacroLift

theorem Text.pair_infix_space {a b : Char} (notFirst : ' ' ≠ a) (notSecond : ' ' ≠ b) {text : List Char}
    (h : [a, b] <:+: text ++ [' ']) : [a, b] <:+: text := by
  rcases Text.pair_infix_append notFirst notSecond h with here | there
  · exact here
  · cases List.eq_nil_of_infix_nil there

theorem Text.pair_prefix_space {a b c : Char} (notSecond : ' ' ≠ b) {text : List Char}
    (h : [a, b] <+: c :: (text ++ [' '])) : [a, b] <+: c :: text := by
  obtain ⟨rfl, more, same⟩ := Text.prefix_pair h
  cases text with
  | nil => exact absurd (List.cons.inj same).1 notSecond
  | cons d text =>
    cases same
    exact ⟨text, rfl⟩

namespace Gap

variable {text comment rest : List Char}

theorem closeComment?_append_of_some (h : closeComment? text = some (comment, rest)) (more : List Char) :
    closeComment? (text ++ more) = some (comment, rest ++ more) := by
  obtain ⟨inner, rfl, unclosed⟩ := closeComment?_eq_some h
  rw [← closeComment?_append h]
  simpa using closeComment?_close unclosed (rest ++ more)

theorem closeComment?_space (h : closeComment? text = none) : closeComment? (text ++ [' ']) = none := by
  rw [closeComment?_eq_none_iff] at h ⊢
  exact fun found => h (Text.pair_infix_space (by decide) (by decide) found)

theorem closeComment?_of_prefix {whole : List Char} (front : text <+: whole) (h : closeComment? whole = none) :
    closeComment? text = none := by
  rw [closeComment?_eq_none_iff] at h ⊢
  exact fun found => h (found.trans front.isInfix)

end Gap

namespace Header

variable {chosen : Nat → Prop} {inComment : Bool} {line line' : LogicalLine} {lines lines' : List LogicalLine}
  {text first name parameters body : List Char} {more : List (List Char)}

theorem directive?_append (h : directive? text = some (name, parameters, body)) (more : List Char) :
    directive? (text ++ more) = some (name, parameters, body ++ more) := by
  obtain ⟨head, rfl, isHead⟩ := directive?_eq_some_iff.mp h
  rw [List.append_assoc]
  exact isHead.directive?_append _

theorem IsHead.exists_close {head : List Char} (h : IsHead name parameters head) :
    ∃ start, head = start ++ [')'] := by
  obtain @⟨margin, inner, gap, more, parameters, blank, initial, -, -, -, -, -, -⟩ := h
  exact ⟨margin ++ '#' :: (inner ++ 'd' :: 'e' :: 'f' :: 'i' :: 'n' :: 'e' :: (blank :: gap ++
    initial :: (more ++ '(' :: parameters))), by simp⟩

theorem directive?_space (h : directive? text = none) : directive? (text ++ [' ']) = none := by
  rw [← Option.not_isSome_iff_eq_none, Option.isSome_iff_exists]
  rintro ⟨⟨name, parameters, body⟩, found⟩
  obtain ⟨head, whole, isHead⟩ := directive?_eq_some_iff.mp found
  rcases List.eq_nil_or_concat body with rfl | ⟨body, c, rfl⟩
  · obtain ⟨start, rfl⟩ := isHead.exists_close
    rw [List.append_nil] at whole
    cases (List.append_inj' whole rfl).2
  · rw [List.concat_eq_append, ← List.append_assoc] at whole
    obtain ⟨rfl, -⟩ := List.append_inj' whole rfl
    cases h.symm.trans (isHead.directive?_append body)

theorem directive?_of_prefix {whole : List Char} (front : text <+: whole) (h : directive? whole = none) :
    directive? text = none := by
  obtain ⟨more, rfl⟩ := front
  cases found : directive? text with
  | none => rfl
  | some parts => cases h.symm.trans (directive?_append found more)

theorem removeComments_of_some {rest comment after : List Char}
    (closed : Gap.closeComment? rest = some (comment, after)) :
    removeComments ('/' :: '*' :: rest) = removeComments after := by
  rw [removeComments]
  split
  · rename_i found
    cases closed.symm.trans found
    rfl
  · rename_i found
    cases closed.symm.trans found

theorem removeComments_of_none {rest : List Char} (unclosed : Gap.closeComment? rest = none) :
    removeComments ('/' :: '*' :: rest) = '/' :: '*' :: rest := by
  rw [removeComments]
  split
  · rename_i found
    cases unclosed.symm.trans found
  · rfl

theorem removeComments_space (text : List Char) : removeComments (text ++ [' ']) = removeComments text ++ [' '] := by
  fun_induction removeComments text with
  | case1 rest comment after closed ih =>
    rw [← ih]
    exact removeComments_of_some (Gap.closeComment?_append_of_some closed [' '])
  | case2 rest unclosed => exact removeComments_of_none (Gap.closeComment?_space unclosed)
  | case3 c rest noOpen ih =>
    rw [List.cons_append, removeComments, ih, List.cons_append]
    rintro more rfl same
    have opening : ['/', '*'] <+: '/' :: (rest ++ [' ']) := ⟨more, by rw [same]; rfl⟩
    obtain ⟨-, more, rfl⟩ := Text.prefix_pair (Text.pair_prefix_space (by decide) opening)
    exact noOpen more rfl rfl
  | case4 =>
    rw [List.nil_append, removeComments_cons (by decide), removeComments]

theorem cutOpenComment_closed {rest : List Char} (closed : Gap.closeComment? rest ≠ none) :
    (cutOpenComment ('/' :: '*' :: rest)).2 = (cutOpenComment ('*' :: rest)).2 := by
  rw [cutOpenComment, if_neg (by rwa [Option.isNone_iff_eq_none])]

theorem cutOpenComment_step {c : Char} {rest : List Char} (noOpening : ¬ ['/', '*'] <+: c :: rest) :
    (cutOpenComment (c :: rest)).2 = (cutOpenComment rest).2 := by
  rw [cutOpenComment]
  rintro more rfl rfl
  exact noOpening ⟨more, rfl⟩

theorem cutOpenComment_space (text : List Char) : (cutOpenComment (text ++ [' '])).2 = (cutOpenComment text).2 := by
  fun_induction cutOpenComment text with
  | case1 => rfl
  | case2 rest unclosed =>
    rw [List.cons_append, List.cons_append, cutOpenComment, if_pos]
    rw [Gap.closeComment?_space (Option.isNone_iff_eq_none.mp unclosed)]
    rfl
  | case3 rest closed kept opened found ih =>
    have closed' : Gap.closeComment? (rest ++ [' ']) ≠ none := by
      obtain ⟨⟨comment, after⟩, found⟩ := Option.ne_none_iff_exists'.mp (mt Option.isNone_iff_eq_none.mpr closed)
      rw [Gap.closeComment?_append_of_some found]
      nofun
    have later := cutOpenComment_closed closed'
    rw [found] at ih
    exact later.trans ih
  | case4 c rest noOpening kept opened found ih =>
    rw [found] at ih
    have noOpening' : ¬ ['/', '*'] <+: c :: (rest ++ [' ']) := by
      intro opening
      obtain ⟨rfl, more, rfl⟩ := Text.prefix_pair (Text.pair_prefix_space (by decide) opening)
      exact noOpening more rfl rfl
    exact (cutOpenComment_step noOpening').trans ih

section

variable {f : Char → Char} (slash : ∀ c, f c = '/' ↔ c = '/') (star : ∀ c, f c = '*' ↔ c = '*')

include slash star

theorem closeComment?_map (text : List Char) :
    Gap.closeComment? (text.map f) = none ↔ Gap.closeComment? text = none := by
  rw [Gap.closeComment?_eq_none_iff, Gap.closeComment?_eq_none_iff, not_iff_not]
  induction text with
  | nil => rfl
  | cons c text ih =>
    rw [List.map_cons, List.infix_cons_iff, List.infix_cons_iff, ih]
    refine or_congr_left ?_
    cases text with
    | nil => simp
    | cons d text => simp [List.cons_prefix_cons, star, slash, eq_comm]

theorem cutOpenComment_map (text : List Char) : (cutOpenComment (text.map f)).2 = (cutOpenComment text).2 := by
  have slash' : f '/' = '/' := (slash '/').mpr rfl
  have star' : f '*' = '*' := (star '*').mpr rfl
  fun_induction cutOpenComment text with
  | case1 => rfl
  | case2 rest unclosed =>
    rw [List.map_cons, List.map_cons, slash', star', cutOpenComment, if_pos]
    rw [Option.isNone_iff_eq_none] at unclosed ⊢
    exact (closeComment?_map slash star rest).mpr unclosed
  | case3 rest closed kept opened found ih =>
    have closed' : Gap.closeComment? (rest.map f) ≠ none := by
      rwa [ne_eq, closeComment?_map slash star, ← Option.isNone_iff_eq_none]
    rw [found, List.map_cons, star'] at ih
    rw [List.map_cons, List.map_cons, slash', star']
    exact (cutOpenComment_closed closed').trans ih
  | case4 c rest noOpening kept opened found ih =>
    rw [found] at ih
    have noOpening' : ¬ ['/', '*'] <+: f c :: rest.map f := by
      intro opening
      obtain ⟨isSlash, more, same⟩ := Text.prefix_pair opening
      obtain ⟨d, rest, rfl, isStar, -⟩ := List.map_eq_cons_iff.mp same
      exact noOpening rest ((slash c).mp isSlash) (by rw [(star d).mp isStar])
    exact (cutOpenComment_step noOpening').trans ih

end

theorem map_intercalate {α β : Type} (f : α → β) (separator : α) (parts : List (List α)) :
    ([separator].intercalate parts).map f = [f separator].intercalate (parts.map (List.map f)) := by
  induction parts with
  | nil => rfl
  | cons part parts ih =>
    cases parts with
    | nil => simp
    | cons next parts =>
      simp only [List.map_cons, List.map_nil, List.map_append, List.intercalate_cons_cons] at ih ⊢
      rw [ih]

theorem cutOpenComment_intercalate (lines : List (List Char)) :
    (cutOpenComment (['\n'].intercalate lines)).2 = (cutOpenComment ([' '].intercalate lines)).2 := by
  have mark {a : Char} (plain : a ≠ '\n' ∧ a ≠ ' ') (c : Char) : (if c = '\n' then ' ' else c) = a ↔ c = a := by
    split
    · rename_i newline
      rw [newline]
      exact iff_of_false plain.2.symm plain.1.symm
    · rfl
  have blind := cutOpenComment_map (mark (a := '/') (by decide)) (mark (a := '*') (by decide))
  rw [← blind (['\n'].intercalate lines), ← blind ([' '].intercalate lines), map_intercalate, map_intercalate]
  rfl

theorem opensComment_of_spaceBehind {lines lines' : List (List Char)}
    (spaced : Text.SpaceBehind ([' '].intercalate lines) ([' '].intercalate lines')) :
    opensComment lines' = opensComment lines := by
  unfold opensComment
  rcases spaced with same | behind
  · rw [same]
  · rw [behind, removeComments_space, Bool.eq_iff_iff, Text.occursIn_iff, Text.occursIn_iff]
    exact ⟨Text.pair_infix_space (by decide) (by decide), fun found => found.trans (List.prefix_append _ _).isInfix⟩

/-- How the continuations of a logical line come to matter. -/
inductive ContinuationDecides (inComment : Bool) (line : LogicalLine) : Prop where
  | splitsHead {first : List Char} (shown : visible? inComment line = some first)
      (incomplete : directive? first = none) (complete : directive? (LogicalLine.spaced { line with first }) ≠ none)
  | delaysEnd (hidden : visible? inComment line = none) (ended : afterComment? line.spaced ≠ none)
  | leavesBackslash (goesOn : continued? line.spaced ≠ none)

def Definition.heading (d : Definition) : String × String :=
  (d.name, d.parametersText)

theorem heading_of_definition? (file : String) (inComment : Bool) (line : LogicalLine) :
    (definition? file inComment line).map Definition.heading =
      ((visible? inComment line).bind directive?).map fun (name, parameters, _) =>
        (String.ofList name, String.ofList (Text.trim parameters)) := by
  unfold definition? readLine
  cases visible? inComment line with
  | none => rfl
  | some first =>
    dsimp only [Option.bind_some]
    cases directive? first <;> rfl

theorem spaceBehind_of_append (front : List Char) {first' : List Char} {more' : List (List Char)}
    (h : Text.SpaceBehind ([' '].intercalate ((front ++ first) :: more))
      ([' '].intercalate ((front ++ first') :: more'))) :
    Text.SpaceBehind ([' '].intercalate (first :: more)) ([' '].intercalate (first' :: more')) := by
  have behind (first : List Char) (more : List (List Char)) :
      [' '].intercalate ((front ++ first) :: more) = front ++ [' '].intercalate (first :: more) :=
    LogicalLine.spaced_append 0 0 front first more
  rw [behind, behind] at h
  exact h.of_append

theorem visible?_of_prefix (front : line.first <+: line'.first) (shown : visible? inComment line = some first) :
    ∃ start more, line.first = start ++ first ∧ line'.first = start ++ (first ++ more) ∧
      visible? inComment line' = some (first ++ more) := by
  obtain ⟨more, whole⟩ := front
  unfold visible? at shown ⊢
  split at shown
  · rename_i within
    obtain ⟨⟨comment, rest⟩, closed, rfl⟩ := Option.map_eq_some_iff.mp shown
    have closed' := Gap.closeComment?_append_of_some closed more
    refine ⟨comment, more, (Gap.closeComment?_append closed).symm, ?_, ?_⟩
    · rw [← whole, ← Gap.closeComment?_append closed, List.append_assoc]
    · rw [if_pos within, afterComment?, ← whole, closed']
      rfl
  · rename_i outside
    cases shown
    exact ⟨[], more, rfl, whole.symm, by rw [if_neg outside, whole]⟩

theorem hidden_of_joinedTo (front : line'.first <+: line'.spaced)
    (spaced : Text.SpaceBehind line.spaced line'.spaced)
    (hidden : visible? inComment line = none) (unended : afterComment? line.spaced = none) :
    visible? inComment line' = none := by
  have unclosed : Gap.closeComment? line'.spaced = none := by
    have unclosed := Option.map_eq_none_iff.mp unended
    rcases spaced with same | behind
    · rw [same, unclosed]
    · rw [behind, Gap.closeComment?_space unclosed]
  unfold visible? at hidden ⊢
  split at hidden
  · rename_i within
    rw [if_pos within, afterComment?, Gap.closeComment?_of_prefix front unclosed]
    rfl
  · cases hidden

theorem cutOpenComment_moved {moved : List Char} {more' : List (List Char)}
    (found : directive? first = some (name, parameters, body))
    (spaced : Text.SpaceBehind ([' '].intercalate (first :: more)) ([' '].intercalate ((first ++ moved) :: more'))) :
    (cutOpenComment (['\n'].intercalate ((body ++ moved) :: more'))).2 =
      (cutOpenComment (['\n'].intercalate (body :: more))).2 := by
  obtain ⟨head, rfl, -⟩ := directive?_eq_some_iff.mp found
  rw [List.append_assoc] at spaced
  rw [cutOpenComment_intercalate, cutOpenComment_intercalate]
  rcases spaceBehind_of_append head spaced with same | behind
  · rw [same]
  · rw [behind, cutOpenComment_space]

theorem directive?_moved {first' : List Char} {more' : List (List Char)}
    (incomplete : directive? ([' '].intercalate (first :: more)) = none)
    (spaced : Text.SpaceBehind ([' '].intercalate (first :: more)) ([' '].intercalate (first' :: more'))) :
    directive? first' = none := by
  refine directive?_of_prefix (LogicalLine.prefix_spaced ⟨0, first', more'⟩) ?_
  rw [LogicalLine.spaced, LogicalLine.lines]
  rcases spaced with same | behind
  · rw [same, incomplete]
  · rw [behind, directive?_space incomplete]

theorem JoinedTo.read (h : JoinedTo chosen line line')
    (free : line.Touched chosen → ¬ ContinuationDecides inComment line) (file : String) :
    (definition? file inComment line').map Definition.heading =
        (definition? file inComment line).map Definition.heading ∧
      flagBehind inComment line' = flagBehind inComment line := by
  rw [heading_of_definition?, heading_of_definition?]
  simp only [flagBehind, readLine_snd]
  -- nothing was moved, or the first line has got more text behind it
  cases h with
  | same lines =>
    obtain ⟨number, first, more⟩ := line
    obtain ⟨number', first', more'⟩ := line'
    obtain ⟨rfl, rfl⟩ := List.cons.inj lines
    exact ⟨rfl, rfl⟩
  | moved touched front spaced =>
    cases shown : visible? inComment line with
    | none =>
      have unended : afterComment? line.spaced = none := by
        by_contra ended
        exact free touched (.delaysEnd shown ended)
      rw [hidden_of_joinedTo line'.prefix_spaced spaced shown unended]
      exact ⟨rfl, rfl⟩
    | some first =>
      obtain ⟨start, moved, whole, whole', shown'⟩ := visible?_of_prefix front shown
      have visibleSpaced : Text.SpaceBehind ([' '].intercalate (first :: line.more))
          ([' '].intercalate ((first ++ moved) :: line'.more)) := by
        apply spaceBehind_of_append start
        rw [← whole, ← whole']
        exact spaced
      rw [shown']
      simp only [Option.bind_some, Option.map_some, Option.getD_some]
      cases found : directive? first with
      | some parts =>
        rw [directive?_append found]
        exact ⟨rfl, cutOpenComment_moved found visibleSpaced⟩
      | none =>
        have incomplete : directive? (LogicalLine.spaced ⟨line.number, first, line.more⟩) = none := by
          by_contra complete
          exact free touched (.splitsHead shown found complete)
        rw [directive?_moved incomplete visibleSpaced]
        exact ⟨rfl, opensComment_of_spaceBehind visibleSpaced⟩

theorem definitionsFrom_joined (joined : List.Forall₂ (JoinedTo chosen) lines lines')
    (free : ∀ before line after, lines = before ++ line :: after → line.Touched chosen →
      ¬ ContinuationDecides (before.foldl flagBehind inComment) line) (file : String) :
    (definitionsFrom file inComment lines').map Definition.heading =
      (definitionsFrom file inComment lines).map Definition.heading := by
  induction joined generalizing inComment with
  | nil => rfl
  | @cons line line' lines lines' first _ ih =>
    have free' : line.Touched chosen → ¬ ContinuationDecides inComment line := free [] line lines rfl
    obtain ⟨heading, flag⟩ := first.read free' file
    have later := @ih (flagBehind inComment line) fun before l after whole =>
      free (line :: before) l after (by rw [whole]; rfl)
    have heading' : (definition? file inComment line').toList.map Definition.heading =
        (definition? file inComment line).toList.map Definition.heading := by
      rw [← Option.toList_map, ← Option.toList_map, heading]
    rw [definitionsFrom_cons, definitionsFrom_cons, List.map_append, List.map_append, heading', flag, later]

/-- Replacing continuations by spaces leaves the names and the parameters of the definitions that are found, in order,
    as they are: at the ends of whichever lines they stand, unless one of the logical lines that they stand in is
    decided by its continuations. -/
theorem continuations_joined (chosen : Nat → Prop) (header joined file : String)
    (joins : Text.Joins chosen 1 header.toList joined.toList)
    (free : ∀ before line after, logicalLines 1 (Text.lines header.toList) = before ++ line :: after →
      line.Touched chosen → ¬ ContinuationDecides (before.foldl flagBehind false) line) :
    (definitions joined file).map Definition.heading = (definitions header file).map Definition.heading := by
  refine definitionsFrom_joined (forall₂_logicalLines (linesJoin_of_joins joins) ?_ 1) free file
  intro line member touched
  obtain ⟨before, after, whole⟩ := List.append_of_mem member
  by_contra goesOn
  exact free before line after whole touched (.leavesBackslash goesOn)

theorem continuations_joined_body :
    (definitions "#define F(x) g(x,    1)\n#define G(y) y" "f.h").map Definition.heading =
      (definitions "#define F(x) g(x, \\\n  1)\n#define G(y) y" "f.h").map Definition.heading := by
  refine continuations_joined (· = 1) _ _ "f.h" ?_ ?_
  · have front : "#define F(x) g(x, ".toList.any Text.isLineBreak = false := by decide +kernel
    have behind : "  1)".toList.any Text.isLineBreak = false := by decide +kernel
    have other : "#define G(y) y".toList.any Text.isLineBreak = false := by decide +kernel
    have newline {text : List Char} : Text.IsLineEnd text ['\n'] := .single rfl nofun
    have rest : Text.Joins (· = 1) 2 ("  1)".toList ++ (['\n'] ++ ("#define G(y) y".toList ++ [])))
        ("  1)".toList ++ (['\n'] ++ ("#define G(y) y".toList ++ []))) :=
      .append behind (.lineEnd newline (.append other .done))
    have header : "#define F(x) g(x, \\\n  1)\n#define G(y) y".toList =
        "#define F(x) g(x, ".toList ++ ('\\' :: [] ++ (['\n'] ++
          ("  1)".toList ++ (['\n'] ++ ("#define G(y) y".toList ++ []))))) := by
      decide +kernel
    have joined : "#define F(x) g(x,    1)\n#define G(y) y".toList =
        "#define F(x) g(x, ".toList ++ ' ' :: ("  1)".toList ++ (['\n'] ++ ("#define G(y) y".toList ++ []))) := by
      decide +kernel
    rw [header, joined]
    exact .append front (.space (by rfl) nofun newline rest)
  · have lines : logicalLines 1 (Text.lines "#define F(x) g(x, \\\n  1)\n#define G(y) y".toList) =
        [⟨1, "#define F(x) g(x, ".toList, ["  1)".toList]⟩, ⟨3, "#define G(y) y".toList, []⟩] := by
      decide +kernel
    rw [lines]
    rintro before line after whole ⟨number, rfl, low, -⟩
    rcases before with _ | ⟨first, _ | ⟨second, before⟩⟩
    · cases whole
      rintro (⟨shown, incomplete, -⟩ | ⟨hidden, -⟩ | goesOn)
      · cases shown
        revert incomplete
        decide +kernel
      · cases hidden
      · revert goesOn
        decide +kernel
    · cases whole
      exact absurd low (by decide)
    · cases before <;> cases whole

/-- A definition whose parameters go on behind a continuation is missed. With a space in its place it is found. -/
theorem split_parameters_missed :
    Text.Joins (· = 1) 1 "#define F(a, \\\n b) a".toList "#define F(a,   b) a".toList ∧
      (definitions "#define F(a,   b) a" "f.h").map Definition.heading = [("F", "a,   b")] ∧
      definitions "#define F(a, \\\n b) a" "f.h" = [] := by
  refine ⟨?_, by decide +kernel, by decide +kernel⟩
  have front : "#define F(a, ".toList.any Text.isLineBreak = false := by decide +kernel
  have behind : " b) a".toList.any Text.isLineBreak = false := by decide +kernel
  have newline {text : List Char} : Text.IsLineEnd text ['\n'] := .single rfl nofun
  have header : "#define F(a, \\\n b) a".toList =
      "#define F(a, ".toList ++ ('\\' :: [] ++ (['\n'] ++ (" b) a".toList ++ []))) := by
    decide +kernel
  have joined : "#define F(a,   b) a".toList = "#define F(a, ".toList ++ ' ' :: (" b) a".toList ++ []) := by
    decide +kernel
  rw [header, joined]
  exact .append front (.space (by rfl) nofun newline (.append behind .done))

end Header

end MacroLift
