import Mathlib.Data.List.Infix
import MacroLift.Proofs.Header.Directive
import MacroLift.Proofs.Token.Gap

namespace MacroLift

namespace Text

variable {part text : List Char} {c : Char}

theorem occursIn_cons : occursIn part (c :: text) = (part.isPrefixOf (c :: text) || occursIn part text) := by
  rw [occursIn, suffixes, List.any_cons, occursIn]

theorem occursIn_iff : occursIn part text = true ↔ part <:+: text := by
  induction text with
  | nil => simp [occursIn, suffixes]
  | cons c text ih => rw [occursIn_cons, Bool.or_eq_true, ih, List.isPrefixOf_iff_prefix, List.infix_cons_iff]

theorem prefix_pair {a b : Char} (h : [a, b] <+: c :: text) : c = a ∧ ∃ more, text = b :: more := by
  obtain ⟨same, more, rfl⟩ := List.cons_prefix_cons.mp h
  exact ⟨same.symm, more, rfl⟩

theorem isPrefixOf_eq_false (noStart : ¬ part <+: text) : part.isPrefixOf text = false := by
  rw [Bool.eq_false_iff, ne_eq, List.isPrefixOf_iff_prefix]
  exact noStart

theorem pair_infix_append {a b separator : Char} (notFirst : separator ≠ a) (notSecond : separator ≠ b)
    {front behind : List Char} (h : [a, b] <:+: front ++ separator :: behind) :
    [a, b] <:+: front ∨ [a, b] <:+: behind := by
  induction front with
  | nil =>
    rcases List.infix_cons_iff.mp h with start | later
    · exact absurd (prefix_pair start).1 notFirst
    · exact .inr later
  | cons c front ih =>
    rcases List.infix_cons_iff.mp h with start | later
    · obtain ⟨rfl, more, start⟩ := prefix_pair start
      cases front with
      | nil => exact absurd (List.cons.inj start).1 notSecond
      | cons d front =>
        obtain ⟨rfl, -⟩ := List.cons.inj start
        exact .inl ⟨[], front, rfl⟩
    · exact (ih later).imp List.infix_cons id

theorem pair_infix_intercalate {a b separator : Char} (notFirst : separator ≠ a) (notSecond : separator ≠ b)
    {first : List Char} {more : List (List Char)} (h : [a, b] <:+: [separator].intercalate (first :: more)) :
    ∃ line ∈ first :: more, [a, b] <:+: line := by
  induction more generalizing first with
  | nil =>
    rw [List.intercalate_singleton] at h
    exact ⟨first, List.mem_cons_self, h⟩
  | cons next more ih =>
    rw [List.intercalate_cons_cons, List.append_assoc, List.singleton_append] at h
    rcases pair_infix_append notFirst notSecond h with here | later
    · exact ⟨first, List.mem_cons_self, here⟩
    · obtain ⟨line, member, found⟩ := ih later
      exact ⟨line, List.mem_cons_of_mem _ member, found⟩

end Text

namespace Header

variable {text rest follow front kept : List Char} {inside : Bool} {c : Char}

/-- Whether a block comment is open behind a text, given whether one is open in front of it. -/
def commentOpen : Bool → List Char → Bool
  | inside, [] => inside
  | false, '/' :: '*' :: rest => commentOpen true rest
  | true, '*' :: '/' :: rest => commentOpen false rest
  | inside, _ :: rest => commentOpen inside rest

theorem commentOpen_opening (rest : List Char) : commentOpen false ('/' :: '*' :: rest) = commentOpen true rest :=
  rfl

theorem commentOpen_step (noOpen : inside = false → ¬ ['/', '*'] <+: c :: rest)
    (noClose : inside = true → ¬ ['*', '/'] <+: c :: rest) :
    commentOpen inside (c :: rest) = commentOpen inside rest := by
  rw [commentOpen.eq_4]
  · rintro more outside rfl rfl
    exact noOpen outside ⟨more, rfl⟩
  · rintro more within rfl rfl
    exact noClose within ⟨more, rfl⟩

theorem commentOpen_star (rest : List Char) : commentOpen false ('*' :: rest) = commentOpen false rest := by
  refine commentOpen_step (fun _ opening => ?_) (by rintro ⟨⟩)
  cases (Text.prefix_pair opening).1

theorem commentOpen_cons (plain : c ≠ '/' ∧ c ≠ '*') : commentOpen inside (c :: rest) = commentOpen inside rest :=
  commentOpen_step (fun _ opening => plain.1 (Text.prefix_pair opening).1)
    fun _ closing => plain.2 (Text.prefix_pair closing).1

theorem commentOpen_plain_append (plain : IsPlain front) (rest : List Char) :
    commentOpen inside (front ++ rest) = commentOpen inside rest := by
  induction front with
  | nil => rfl
  | cons c front ih =>
    obtain ⟨head, tail⟩ := List.forall_mem_cons.mp plain
    rw [List.cons_append, commentOpen_cons head, ih tail]

/-- A text is read on in the state that the text in front of it leaves, if it does not begin with the second character
    of the mark that would change that state. -/
theorem commentOpen_append_of_head (stop : follow.head? ≠ some (if commentOpen inside text then '/' else '*')) :
    commentOpen inside (text ++ follow) = commentOpen (commentOpen inside text) follow := by
  fun_induction commentOpen inside text with
  | case1 inside => rfl
  | case2 rest ih | case3 rest ih => exact ih stop
  | case4 inside c rest noOpen noClose ih =>
    -- a mark across the border would need the character that does not follow
    rw [List.cons_append, commentOpen_step, ih stop]
    · intro outside opening
      obtain ⟨rfl, more, same⟩ := Text.prefix_pair opening
      cases rest with
      | nil =>
        subst outside
        exact stop (by rw [show follow = '*' :: more from same]; rfl)
      | cons d rest =>
        cases same
        exact noOpen _ outside rfl rfl
    · intro within ending
      obtain ⟨rfl, more, same⟩ := Text.prefix_pair ending
      cases rest with
      | nil =>
        subst within
        exact stop (by rw [show follow = '/' :: more from same]; rfl)
      | cons d rest =>
        cases same
        exact noClose _ within rfl rfl

theorem commentOpen_append (inside : Bool) (text : List Char) (stop : ∀ c ∈ follow.head?, c ≠ '/' ∧ c ≠ '*') :
    commentOpen inside (text ++ follow) = commentOpen (commentOpen inside text) follow := by
  refine commentOpen_append_of_head fun head => ?_
  cases state : commentOpen inside text with
  | false =>
    rw [state] at head
    exact (stop '*' head).2 rfl
  | true =>
    rw [state] at head
    exact (stop '/' head).1 rfl

theorem commentOpen_append_plain (plain : IsPlain follow) (text : List Char) :
    commentOpen inside (text ++ follow) = commentOpen inside text := by
  have stop : ∀ c ∈ follow.head?, c ≠ '/' ∧ c ≠ '*' := fun c head => plain c (List.mem_of_mem_head? head)
  have nothing : commentOpen (commentOpen inside text) (follow ++ []) = commentOpen inside text :=
    commentOpen_plain_append plain []
  rw [List.append_nil] at nothing
  rw [commentOpen_append inside text stop, nothing]

theorem commentOpen_intercalate {separator : Char} (plain : separator ≠ '/' ∧ separator ≠ '*')
    (first : List Char) (more : List (List Char)) :
    commentOpen inside ([separator].intercalate (first :: more)) = (first :: more).foldl commentOpen inside := by
  induction more generalizing inside first with
  | nil =>
    rw [List.intercalate_singleton]
    rfl
  | cons next more ih =>
    have stop : ∀ c ∈ (separator :: [separator].intercalate (next :: more)).head?, c ≠ '/' ∧ c ≠ '*' := by
      rintro c ⟨⟩
      exact plain
    rw [List.intercalate_cons_cons, List.append_assoc, List.singleton_append, commentOpen_append inside first stop,
      commentOpen_cons plain, ih]
    rfl

theorem IsKept.commentOpen_eq (h : IsKept text kept) : commentOpen inside kept = commentOpen inside text := by
  rcases h with rfl | joined
  · rfl
  · obtain ⟨blanks, rfl, blank⟩ := continued?_eq_some joined
    refine (commentOpen_append_plain (List.forall_mem_cons.mpr ⟨by decide, isPlain_of_isBlank blank⟩) kept).symm

theorem foldl_commentOpen {physical kept : List (List Char)} (h : List.Forall₂ IsKept physical kept) (inside : Bool) :
    kept.foldl commentOpen inside = physical.foldl commentOpen inside := by
  induction h generalizing inside with
  | nil => rfl
  | cons first _ ih => rw [List.foldl_cons, List.foldl_cons, first.commentOpen_eq, ih]

theorem commentOpen_true (text : List Char) :
    commentOpen true text = ((Gap.closeComment? text).map Prod.snd).elim true (commentOpen false) := by
  fun_induction Gap.closeComment? text with
  | case1 => rfl
  | case2 rest => rfl
  | case3 c rest other ih =>
    have noClose : ¬ ['*', '/'] <+: c :: rest := by
      intro closing
      obtain ⟨rfl, more, rfl⟩ := Text.prefix_pair closing
      exact other more rfl rfl
    have step : commentOpen true (c :: rest) = commentOpen true rest :=
      commentOpen_step (by rintro ⟨⟩) fun _ => noClose
    rw [step, ih, Option.map_map]
    rfl

theorem removeComments_cons (noSlash : c ≠ '/') : removeComments (c :: rest) = c :: removeComments rest := by
  rw [removeComments]
  exact fun _ slash => absurd slash noSlash

theorem occursIn_removeComments (noLine : ¬ ['/', '/'] <:+: text) :
    Text.occursIn ['/', '*'] (removeComments text) = commentOpen false text := by
  fun_induction removeComments text with
  | case1 rest comment after closed ih =>
    have within : after <:+: '/' :: '*' :: rest :=
      List.infix_cons (List.infix_cons ⟨comment, [], by rw [List.append_nil, Gap.closeComment?_append closed]⟩)
    have later : ¬ ['/', '/'] <:+: after := fun found => noLine (found.trans within)
    rw [ih later, commentOpen_opening, commentOpen_true, closed]
    rfl
  | case2 rest unclosed =>
    rw [commentOpen_opening, commentOpen_true, unclosed]
    exact Text.occursIn_iff.mpr ⟨[], rest, rfl⟩
  | case3 c rest noOpen ih =>
    have later : ¬ ['/', '/'] <:+: rest := fun found => noLine (List.infix_cons found)
    have noStart : ¬ ['/', '*'] <+: c :: removeComments rest := by
      intro opening
      obtain ⟨rfl, behind, star⟩ := Text.prefix_pair opening
      -- what follows the slash is no slash either, so it is left as it is
      cases rest with
      | nil =>
        rw [removeComments] at star
        cases star
      | cons d rest =>
        have noSlash : d ≠ '/' := by
          rintro rfl
          exact noLine ⟨[], rest, rfl⟩
        rw [removeComments_cons noSlash] at star
        cases star
        exact noOpen rest rfl rfl
    have noOpening : ¬ ['/', '*'] <+: c :: rest := by
      intro opening
      obtain ⟨rfl, more, rfl⟩ := Text.prefix_pair opening
      exact noOpen more rfl rfl
    have step : commentOpen false (c :: rest) = commentOpen false rest :=
      commentOpen_step (fun _ => noOpening) (by rintro ⟨⟩)
    rw [Text.occursIn_cons, ih later, step, Text.isPrefixOf_eq_false noStart, Bool.false_or]
  | case4 => rfl

theorem cutOpenComment_cases (text : List Char) :
    ((cutOpenComment text).2 = false ∧ (cutOpenComment text).1 = text) ∨
    ((cutOpenComment text).2 = true ∧ ∃ rest, text = (cutOpenComment text).1 ++ '/' :: '*' :: rest ∧
      Gap.closeComment? rest = none) := by
  fun_induction cutOpenComment text with
  | case1 => exact .inl ⟨rfl, rfl⟩
  | case2 rest unclosed => exact .inr ⟨rfl, rest, rfl, Option.isNone_iff_eq_none.mp unclosed⟩
  | case3 rest _ kept opened found ih | case4 c rest _ kept opened found ih =>
    rw [found] at ih
    rcases ih with ⟨closed, whole⟩ | ⟨isOpen, behind, whole, unclosed⟩
    · exact .inl ⟨closed, congrArg _ whole⟩
    · exact .inr ⟨isOpen, behind, congrArg _ whole, unclosed⟩

theorem cutOpenComment_first (whole : text = front ++ '/' :: '*' :: rest) (unclosed : Gap.closeComment? rest = none) :
    (cutOpenComment text).2 = true ∧ (cutOpenComment text).1.length ≤ front.length := by
  fun_induction cutOpenComment text generalizing front with
  | case1 => cases front <;> cases whole
  | case2 => exact ⟨rfl, Nat.zero_le _⟩
  | case3 more closed kept opened found ih =>
    cases front with
    | nil =>
      cases whole
      rw [unclosed] at closed
      exact absurd rfl closed
    | cons c front =>
      have later := ih (List.cons.inj whole).2
      rw [found] at later
      exact ⟨later.1, Nat.succ_le_succ later.2⟩
  | case4 c more noOpening kept opened found ih =>
    cases front with
    | nil =>
      cases whole
      exact absurd rfl (noOpening rest rfl)
    | cons c front =>
      have later := ih (List.cons.inj whole).2
      rw [found] at later
      exact ⟨later.1, Nat.succ_le_succ later.2⟩

structure Unmarked (text : List Char) : Prop where
  noOpening : ¬ ['/', '*'] <:+: text
  noEnd : ¬ ['*', '/'] <:+: text

/-- A comment ends in a text on a character of an opening, and no mark follows: nothing closes that opening, and yet no
    comment opens there. -/
inductive EndsInOpening (inside : Bool) : List Char → Prop where
  | slash {front behind : List Char} (opened : commentOpen inside (front ++ ['/']) = true)
      (unmarked : Unmarked behind) : EndsInOpening inside (front ++ '/' :: '*' :: '/' :: behind)
  | star {front behind : List Char} (opened : commentOpen inside front = true) (unmarked : Unmarked behind) :
      EndsInOpening inside (front ++ '*' :: '/' :: '*' :: behind)

theorem commentOpen_of_unclosed (unclosed : Gap.closeComment? text = none) : commentOpen true text = true := by
  rw [commentOpen_true, unclosed]
  rfl

theorem commentOpen_false_iff (noEnd : ¬ ['*', '/'] <:+: text) :
    commentOpen false text = false ↔ ¬ ['/', '*'] <:+: text := by
  induction text with
  | nil => exact iff_of_true rfl (by simp)
  | cons c rest ih =>
    have noEndLater : ¬ ['*', '/'] <:+: rest := fun found => noEnd (List.infix_cons found)
    rw [List.infix_cons_iff, not_or]
    by_cases opening : ['/', '*'] <+: c :: rest
    · obtain ⟨rfl, more, rfl⟩ := Text.prefix_pair opening
      have unclosed : Gap.closeComment? more = none :=
        Gap.closeComment?_eq_none_iff.mpr fun found => noEndLater (List.infix_cons found)
      rw [commentOpen_opening, commentOpen_of_unclosed unclosed]
      exact iff_of_false (by decide) fun none => none.1 opening
    · rw [commentOpen_step (fun _ => opening) (by rintro ⟨⟩), ih noEndLater]
      exact (and_iff_right opening).symm

theorem Unmarked.unclosed (h : Unmarked text) : Gap.closeComment? text = none :=
  Gap.closeComment?_eq_none_iff.mpr h.noEnd

theorem Unmarked.commentOpen_eq (h : Unmarked text) : commentOpen inside text = inside := by
  cases inside with
  | false => exact (commentOpen_false_iff h.noEnd).mpr h.noOpening
  | true => exact commentOpen_of_unclosed h.unclosed

theorem Unmarked.cutOpenComment_eq (h : Unmarked text) : (cutOpenComment text).2 = false := by
  rcases cutOpenComment_cases text with ⟨whole, -⟩ | ⟨-, rest, whole, -⟩
  · exact whole
  · exact absurd ⟨_, rest, by rw [List.append_assoc]; exact whole.symm⟩ h.noOpening

theorem opening_of_commentOpen (opened : commentOpen inside text = true) :
    (inside = true ∧ Unmarked text) ∨
      ∃ front rest, text = front ++ '/' :: '*' :: rest ∧ Gap.closeComment? rest = none := by
  fun_induction commentOpen inside text with
  | case1 inside => exact .inl ⟨opened, by simp, by simp⟩
  | case2 rest ih =>
    rcases ih opened with ⟨-, unmarked⟩ | ⟨front, rest', rfl, unclosed⟩
    · exact .inr ⟨[], rest, rfl, unmarked.unclosed⟩
    · exact .inr ⟨'/' :: '*' :: front, rest', rfl, unclosed⟩
  | case3 rest ih =>
    rcases ih opened with ⟨within, -⟩ | ⟨front, rest', rfl, unclosed⟩
    · cases within
    · exact .inr ⟨'*' :: '/' :: front, rest', rfl, unclosed⟩
  | case4 inside c rest noOpen noClose ih =>
    rcases ih opened with ⟨within, noOpening, noEnd⟩ | ⟨front, rest', rfl, unclosed⟩
    · have noEndHere : ¬ ['*', '/'] <:+: c :: rest := by
        rw [List.infix_cons_iff, not_or]
        refine ⟨fun start => ?_, noEnd⟩
        obtain ⟨rfl, more, rfl⟩ := Text.prefix_pair start
        exact noClose more within rfl rfl
      by_cases opening : ['/', '*'] <+: c :: rest
      · obtain ⟨rfl, more, rfl⟩ := Text.prefix_pair opening
        exact .inr ⟨[], more, rfl, Gap.closeComment?_eq_none_iff.mpr fun found => noEnd (List.infix_cons found)⟩
      · exact .inl ⟨within, by rw [List.infix_cons_iff, not_or]; exact ⟨opening, noOpening⟩, noEndHere⟩
    · exact .inr ⟨c :: front, rest', rfl, unclosed⟩

theorem EndsInOpening.behind (start : List Char) {later : Bool} (h : EndsInOpening later text)
    (same : ∀ front, front <+: text → commentOpen inside (start ++ front) = commentOpen later front) :
    EndsInOpening inside (start ++ text) := by
  cases h with
  | @slash front behind opened unmarked =>
    rw [← List.append_assoc]
    refine .slash ?_ unmarked
    rw [List.append_assoc, same _ ((List.prefix_append_right_inj front).mpr ⟨_, rfl⟩), opened]
  | @star front behind opened unmarked =>
    rw [← List.append_assoc]
    refine .star ?_ unmarked
    rw [same _ (List.prefix_append front _), opened]

theorem endsInOpening_of_commentOpen (whole : text = front ++ '/' :: '*' :: rest)
    (unclosed : Gap.closeComment? rest = none) (closed : commentOpen inside text = false) :
    EndsInOpening inside text := by
  have unmarked {behind : List Char} (within : behind <:+: rest) (shut : commentOpen false behind = false) :
      Unmarked behind := by
    have noEnd : ¬ ['*', '/'] <:+: behind :=
      fun found => Gap.closeComment?_eq_none_iff.mp unclosed (found.trans within)
    exact ⟨(commentOpen_false_iff noEnd).mp shut, noEnd⟩
  -- the opening begins with the mark that is read, overlaps it, or stands behind it
  fun_induction commentOpen inside text generalizing front with
  | case1 inside => cases front <;> cases whole
  | case2 more ih =>
    rcases front with _ | ⟨c, _ | ⟨d, front⟩⟩
    · cases whole
      cases (commentOpen_of_unclosed unclosed).symm.trans closed
    · cases whole
    · cases whole
      exact (ih rfl closed).behind ['/', '*'] fun _ _ => rfl
  | case3 more ih =>
    rcases front with _ | ⟨c, _ | ⟨d, front⟩⟩
    · cases whole
    · cases whole
      rw [commentOpen_star] at closed
      exact @EndsInOpening.star true [] rest rfl (unmarked (List.infix_refl _) closed)
    · cases whole
      exact (ih rfl closed).behind ['*', '/'] fun _ _ => rfl
  | case4 inside c more noOpen noClose ih =>
    rcases front with _ | ⟨d, front⟩
    · cases whole
      have within : inside = true := by
        by_contra outside
        exact noOpen rest (Bool.eq_false_iff.mpr outside) rfl rfl
      subst within
      by_cases ending : ['*', '/'] <+: '*' :: rest
      · obtain ⟨-, behind, rfl⟩ := Text.prefix_pair ending
        exact @EndsInOpening.slash true [] behind rfl (unmarked (List.suffix_cons _ _).isInfix closed)
      · rw [commentOpen_step (by rintro ⟨⟩) fun _ => ending, commentOpen_of_unclosed unclosed] at closed
        cases closed
    · cases whole
      refine (ih rfl closed).behind [c] fun front' within => commentOpen_step (fun outside opening => ?_) fun inner ending => ?_
      · obtain ⟨rfl, more, same⟩ := Text.prefix_pair (opening.trans ((List.prefix_cons_inj c).mpr within))
        exact noOpen more outside rfl same
      · obtain ⟨rfl, more, same⟩ := Text.prefix_pair (ending.trans ((List.prefix_cons_inj c).mpr within))
        exact noClose more inner rfl same

theorem commentOpen_append_end (opened : commentOpen inside front = true) (rest : List Char) :
    commentOpen inside (front ++ '*' :: '/' :: rest) = commentOpen false rest := by
  rw [commentOpen_append_of_head, opened]
  · rfl
  · rw [opened]
    rintro ⟨⟩

theorem EndsInOpening.commentOpen_eq (h : EndsInOpening inside text) : commentOpen inside text = false := by
  cases h with
  | @slash front behind opened unmarked =>
    have whole : front ++ '/' :: '*' :: '/' :: behind = (front ++ ['/']) ++ '*' :: '/' :: behind := by simp
    rw [whole, commentOpen_append_end opened, unmarked.commentOpen_eq]
  | @star front behind opened unmarked =>
    rw [commentOpen_append_end opened, commentOpen_star, unmarked.commentOpen_eq]

theorem EndsInOpening.cutOpenComment_eq (h : EndsInOpening inside text) : (cutOpenComment text).2 = true := by
  cases h with
  | @slash front behind opened unmarked =>
    have noEnd : ¬ ['*', '/'] <:+: '/' :: behind := by
      rw [List.infix_cons_iff, not_or]
      refine ⟨fun start => ?_, unmarked.noEnd⟩
      cases (Text.prefix_pair start).1
    exact (cutOpenComment_first rfl (Gap.closeComment?_eq_none_iff.mpr noEnd)).1
  | @star front behind opened unmarked =>
    have whole : front ++ '*' :: '/' :: '*' :: behind = (front ++ ['*']) ++ '/' :: '*' :: behind := by simp
    exact (cutOpenComment_first whole unmarked.unclosed).1

end Header

end MacroLift
