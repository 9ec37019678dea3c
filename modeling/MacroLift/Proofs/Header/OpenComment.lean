import MacroLift.Proofs.Header.Comments
import MacroLift.Proofs.Token.Enclosed

namespace MacroLift.Header

open Token (Stream isEnclosed)

variable {text first name parameters bodyStart : List Char} {header file : String}
  {before after : List LogicalLine} {line : LogicalLine}

def definitionOf (file : String) (line : LogicalLine) (name parameters : List Char) (lines : List (List Char)) :
    Definition where
  name := String.ofList name
  parametersText := String.ofList (Text.trim parameters)
  bodyLines := (dropEmptyEnds (lines.map Text.trim)).map String.ofList
  location := some ⟨file, ⟨line.number, 1⟩⟩

theorem definitions_of_directive (lines : logicalLines 1 (Text.lines header.toList) = before ++ line :: after)
    (shown : visible? (before.foldl flagBehind false) line = some first)
    (found : directive? first = some (name, parameters, bodyStart)) (file : String) :
    definitions header file = definitionsFrom file false before ++
      definitionOf file line name parameters (Text.pieces (cutOpenComment (bodyOf line bodyStart)).1) ::
        definitionsFrom file (cutOpenComment (bodyOf line bodyStart)).2 after := by
  have flag : flagBehind (before.foldl flagBehind false) line = (cutOpenComment (bodyOf line bodyStart)).2 := by
    rw [flagBehind, shown, Option.map_some, Option.getD_some, readLine_snd, found]
    rfl
  have read : definition? file (before.foldl flagBehind false) line =
      some (definitionOf file line name parameters (Text.pieces (cutOpenComment (bodyOf line bodyStart)).1)) := by
    rw [definition?, shown, Option.bind_some, readLine, found]
    rfl
  rw [definitions, lines, definitionsFrom_append, definitionsFrom_cons, flag, read]
  rfl

theorem pieces_bodyOf (member : line ∈ logicalLines 1 (Text.lines header.toList)) {inComment : Bool}
    (shown : visible? inComment line = some first) (found : directive? first = some (name, parameters, bodyStart)) :
    Text.pieces (bodyOf line bodyStart) = bodyStart :: line.more := by
  refine Text.pieces_intercalate fun l among => ?_
  have within : ∃ whole ∈ line.lines, l <:+: whole := by
    rcases List.mem_cons.mp among with rfl | among
    · obtain ⟨front, rfl, -, -⟩ := directive?_eq_some found
      have behind : l <:+ front ++ name ++ '(' :: parameters ++ ')' :: l :=
        ⟨front ++ name ++ '(' :: parameters ++ [')'], by simp⟩
      exact ⟨line.first, List.mem_cons_self, (behind.trans (visible?_suffix shown)).isInfix⟩
    · exact ⟨l, List.mem_cons_of_mem _ among, List.infix_refl _⟩
  obtain ⟨whole, among, within⟩ := within
  obtain ⟨physical, isPhysical, front⟩ := exists_prefix_of_mem member among
  intro newline
  have inPhysical : '\n' ∈ physical := (within.trans front.isInfix).subset newline
  cases Text.not_isLineBreak_of_mem_lines isPhysical _ inPhysical

theorem isEnclosed_of_ok {stream : Stream} (read : Stream.ofText (String.ofList text) 1 = .ok stream)
    (opened : (cutOpenComment text).2 = true) : isEnclosed text (cutOpenComment text).1.length = true := by
  have passes := Token.passes_of_ok read
  rw [String.toList_ofList] at passes
  rcases cutOpenComment_cases text with ⟨closed, -⟩ | ⟨-, rest, whole, unclosed⟩
  · cases closed.symm.trans opened
  · refine passes.isEnclosed whole unclosed ?_
    have long := congrArg List.length whole
    rw [List.length_append, List.length_cons] at long
    omega

theorem cutOpenComment_of_unterminatedComment {pos : Pos}
    (read : Stream.ofText (String.ofList text) 1 = .error (.unterminatedComment, pos)) :
    (cutOpenComment text).2 = true ∧
      (isEnclosed text (cutOpenComment text).1.length = true ∨ pos = .behind 1 (cutOpenComment text).1) := by
  obtain ⟨front, rest, passes, unclosed, rfl⟩ := Token.passes_of_unterminatedComment read
  rw [String.toList_ofList] at passes
  have whole := passes.append
  obtain ⟨opened, first⟩ := cutOpenComment_first whole.symm unclosed
  refine ⟨opened, ?_⟩
  rcases cutOpenComment_cases text with ⟨closed, -⟩ | ⟨-, rest', whole', unclosed'⟩
  · cases closed.symm.trans opened
  · rcases Nat.lt_or_eq_of_le first with earlier | same
    · exact .inl (passes.isEnclosed whole' unclosed' earlier)
    · exact .inr (congrArg _ (List.append_inj_left (whole.trans whole') same.symm))

/-- The scan and the reading of tokens agree on open comments in the body of a definition, unless the scan cuts it at an
    opening that stands inside a comment or a literal. If the body has tokens, nothing is cut, and the next logical line
    is scanned outside comments. If its reading stops at an open comment, it is cut there, and the next line is scanned
    inside a comment. -/
theorem open_comments_agree (header file : String) (before after : List LogicalLine) (line : LogicalLine)
    (first name parameters bodyStart : List Char)
    (lines : logicalLines 1 (Text.lines header.toList) = before ++ line :: after)
    (shown : visible? (before.foldl flagBehind false) line = some first)
    (found : directive? first = some (name, parameters, bodyStart))
    (free : (cutOpenComment (bodyOf line bodyStart)).2 = true →
      isEnclosed (bodyOf line bodyStart) (cutOpenComment (bodyOf line bodyStart)).1.length = false) :
    (∀ stream, Stream.ofText (String.ofList (bodyOf line bodyStart)) 1 = .ok stream →
      definitions header file = definitionsFrom file false before ++
        definitionOf file line name parameters (bodyStart :: line.more) :: definitionsFrom file false after) ∧
    (∀ pos, Stream.ofText (String.ofList (bodyOf line bodyStart)) 1 = .error (.unterminatedComment, pos) →
      ∃ front rest, bodyOf line bodyStart = front ++ '/' :: '*' :: rest ∧ pos = .behind 1 front ∧
        definitions header file = definitionsFrom file false before ++
          definitionOf file line name parameters (Text.pieces front) :: definitionsFrom file true after) := by
  have scanned := definitions_of_directive lines shown found file
  have member : line ∈ logicalLines 1 (Text.lines header.toList) := by simp [lines]
  refine ⟨fun stream read => ?_, fun pos read => ?_⟩
  · rcases cutOpenComment_cases (bodyOf line bodyStart) with ⟨closed, whole⟩ | ⟨opened, -⟩
    · rwa [closed, whole, pieces_bodyOf member shown found] at scanned
    · cases (free opened).symm.trans (isEnclosed_of_ok read opened)
  · obtain ⟨opened, isEnclosed | placed⟩ := cutOpenComment_of_unterminatedComment read
    · cases (free opened).symm.trans isEnclosed
    · rcases cutOpenComment_cases (bodyOf line bodyStart) with ⟨closed, -⟩ | ⟨-, rest, whole, -⟩
      · cases closed.symm.trans opened
      · rw [opened] at scanned
        exact ⟨_, rest, whole, placed, scanned⟩

theorem open_comments_agree_literal :
    ∃ front rest, " f(\"*\") /* and".toList = front ++ '/' :: '*' :: rest ∧ (⟨1, 9⟩ : Pos) = .behind 1 front ∧
      definitions "#define F(x) f(\"*\") /* and\n#define G(x) x */" "f.h" =
        definitionOf "f.h" ⟨1, "#define F(x) f(\"*\") /* and".toList, []⟩ ['F'] ['x'] (Text.pieces front) ::
          definitionsFrom "f.h" true [⟨2, "#define G(x) x */".toList, []⟩] :=
  (open_comments_agree "#define F(x) f(\"*\") /* and\n#define G(x) x */" "f.h" []
    [⟨2, "#define G(x) x */".toList, []⟩] ⟨1, "#define F(x) f(\"*\") /* and".toList, []⟩
    "#define F(x) f(\"*\") /* and".toList ['F'] ['x'] " f(\"*\") /* and".toList
    (by decide +kernel) (by decide +kernel) (by decide +kernel) (by decide +kernel)).2 ⟨1, 9⟩ (by decide +kernel)

/-- A comment that ends next to a star is taken to be open: its definition is cut, and the next is lost. -/
theorem closed_comment_cut :
    directive? "#define VALUE(p) /* value */*p".toList = some ("VALUE".toList, ['p'], " /* value */*p".toList) ∧
      (Stream.ofText " /* value */*p" 1).toOption.isSome = true ∧
      (definitions "#define VALUE(p) /* value */*p\n#define NEXT(q) q" "v.h").map
        (fun d => (d.name, d.bodyLines)) = [("VALUE", ["/* value *"])] := by
  decide +kernel

end MacroLift.Header
