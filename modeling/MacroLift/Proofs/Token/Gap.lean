import MacroLift.Token.Gap

namespace MacroLift.Gap

/-- Blanks, continued lines and comments. A line comment runs up to a newline; only in the last gap of a text can
    it run up to the end. -/
inductive IsGap (isLast : Bool) : List Char → Prop where
  | nil : IsGap isLast []
  | blank {c : Char} {more : List Char} (isBlank : isBlank c = true) (rest : IsGap isLast more) :
      IsGap isLast (c :: more)
  | continuation {more : List Char} (rest : IsGap isLast more) : IsGap isLast ('\\' :: '\n' :: more)
  | returnContinuation {more : List Char} (rest : IsGap isLast more) : IsGap isLast ('\\' :: '\r' :: '\n' :: more)
  | lineComment {text more : List Char} (oneLine : '\n' ∉ text) (rest : IsGap isLast more) :
      IsGap isLast ('/' :: '/' :: (text ++ '\n' :: more))
  | lastComment {text : List Char} (last : isLast = true) (oneLine : '\n' ∉ text) :
      IsGap isLast ('/' :: '/' :: text)
  | blockComment {text more : List Char} (unclosed : ¬ ['*', '/'] <:+: text) (rest : IsGap isLast more) :
      IsGap isLast ('/' :: '*' :: (text ++ '*' :: '/' :: more))

def StartsBare (text : List Char) : Prop :=
  split text = ([], text)

variable {text comment rest gap : List Char} {isLast : Bool} {c : Char}

@[simp] theorem consume_consume (first second : List Char) (split : List Char × List Char) :
    consume first (consume second split) = consume (first ++ second) split := by
  simp [consume]

theorem closeComment?_eq_some (h : closeComment? text = some (comment, rest)) :
    ∃ inner, comment = inner ++ ['*', '/'] ∧ ¬ ['*', '/'] <:+: inner := by
  fun_induction closeComment? text generalizing comment rest with
  | case1 => cases h
  | case2 rest' =>
    cases h
    exact ⟨[], rfl, by simp⟩
  | case3 c text other ih =>
    obtain ⟨⟨comment', rest'⟩, found, same⟩ := Option.map_eq_some_iff.mp h
    cases same
    obtain ⟨inner, rfl, unclosed⟩ := ih found
    refine ⟨c :: inner, rfl, ?_⟩
    rw [List.infix_cons_iff]
    rintro (⟨behind, start⟩ | inside)
    · obtain ⟨star, slash⟩ := List.cons.inj start
      have whole := closeComment?_append found
      rw [← slash] at whole
      exact other _ star.symm whole.symm
    · exact unclosed inside

theorem closeComment?_close (unclosed : ¬ ['*', '/'] <:+: text) (rest : List Char) :
    closeComment? (text ++ '*' :: '/' :: rest) = some (text ++ ['*', '/'], rest) := by
  induction text with
  | nil => rfl
  | cons c text ih =>
    rw [List.infix_cons_iff, not_or] at unclosed
    obtain ⟨start, inside⟩ := unclosed
    have other : ∀ rest', c = '*' → text ++ '*' :: '/' :: rest = '/' :: rest' → False := by
      rintro rest' rfl same
      cases text with
      | nil => cases same
      | cons d text =>
        cases same
        exact start ⟨text, rfl⟩
    rw [List.cons_append, closeComment?.eq_3 _ _ other, ih inside]
    rfl

theorem closeComment?_eq_none_iff : closeComment? text = none ↔ ¬ ['*', '/'] <:+: text := by
  fun_induction closeComment? text with
  | case1 => simp
  | case2 rest => simpa using ⟨[], rest, rfl⟩
  | case3 c text other ih =>
    rw [Option.map_eq_none_iff, ih, List.infix_cons_iff, not_or]
    refine ⟨fun inside => ⟨?_, inside⟩, And.right⟩
    rintro ⟨behind, start⟩
    cases start
    exact other _ rfl rfl

theorem lineRest_newline (oneLine : '\n' ∉ text) (rest : List Char) :
    lineRest (text ++ '\n' :: rest) = (text, '\n' :: rest) := by
  have inside : ∀ c ∈ text, (c != '\n') = true := by
    intro c member
    rw [bne_iff_ne]
    rintro rfl
    exact oneLine member
  simp [lineRest, List.takeWhile_append_of_pos inside, List.dropWhile_append_of_pos inside]

theorem not_mem_lineRest (text : List Char) : '\n' ∉ (lineRest text).1 := by
  intro member
  have inside := List.all_eq_true.mp (List.all_takeWhile (p := (· != '\n')) (l := text)) _ member
  cases inside

theorem lineRest_cases (text : List Char) : (lineRest text).2 = [] ∨ ∃ more, (lineRest text).2 = '\n' :: more := by
  have stop := List.head?_dropWhile_not (· != '\n') text
  unfold lineRest
  cases rest : text.dropWhile (· != '\n') with
  | nil => exact .inl rfl
  | cons c more =>
    rw [rest] at stop
    exact .inr ⟨more, by rw [bne_eq_false_iff_eq.mp stop]⟩

theorem startsBare_nil : StartsBare [] := by
  rw [StartsBare, split]

theorem startsBare_openComment (unclosed : closeComment? text = none) : StartsBare ('/' :: '*' :: text) := by
  rw [StartsBare, split]
  split
  case h_1 found => cases found.symm.trans unclosed
  case h_2 => rfl

theorem unclosed_of_startsBare (bare : StartsBare ('/' :: '*' :: text)) : ¬ ['*', '/'] <:+: text := by
  rw [← closeComment?_eq_none_iff]
  cases closed : closeComment? text with
  | none => rfl
  | some parts =>
    rw [StartsBare, split_blockComment closed] at bare
    simp [consume] at bare

theorem startsBare_cons (notBlank : isBlank c = false) (notBackslash : c ≠ '\\')
    (noComment : c = '/' → rest.head? ≠ some '/' ∧ rest.head? ≠ some '*') : StartsBare (c :: rest) := by
  rw [StartsBare, split.eq_def]
  split <;> simp_all

theorem isGap_split (text : List Char) : IsGap (split text).2.isEmpty (split text).1 := by
  fun_induction split text with
  | case1 => exact .nil
  | case2 rest ih => exact .continuation ih
  | case3 rest ih => exact .returnContinuation ih
  | case4 rest ih =>
    rcases lineRest_cases rest with ended | ⟨more, newline⟩
    · simp only [ended, split, consume, List.append_nil]
      exact .lastComment rfl (not_mem_lineRest rest)
    · rw [newline] at ih ⊢
      rw [split_blank rfl] at ih ⊢
      cases ih with
      | blank _ inner => simpa [consume] using IsGap.lineComment (not_mem_lineRest rest) inner
  | case5 rest comment after closed ih =>
    obtain ⟨inner, rfl, unclosed⟩ := closeComment?_eq_some closed
    simpa [consume] using IsGap.blockComment unclosed ih
  | case6 => exact .nil
  | case7 c rest _ _ _ _ isBlank ih => exact .blank isBlank ih
  | case8 => exact .nil

theorem startsBare_split (text : List Char) : StartsBare (split text).2 := by
  fun_induction split text with
  | case1 => exact startsBare_nil
  | case2 rest ih | case3 rest ih | case4 rest ih | case5 rest comment after closed ih => exact ih
  | case6 rest unclosed => exact startsBare_openComment unclosed
  | case7 c rest _ _ _ _ isBlank ih => exact ih
  | case8 c rest noNewline noReturn noLine noBlock notBlank =>
    rw [StartsBare, split.eq_6 c rest noNewline noReturn noLine noBlock, if_neg notBlank]

theorem IsGap.split_append (h : IsGap false gap) (rest : List Char) :
    split (gap ++ rest) = consume gap (split rest) := by
  induction h with
  | nil => rfl
  | blank isBlank _ ih => rw [List.cons_append, split_blank isBlank, ih, consume_consume]; rfl
  | continuation _ ih => rw [List.cons_append, List.cons_append, split, ih, consume_consume]; rfl
  | returnContinuation _ ih =>
    rw [List.cons_append, List.cons_append, List.cons_append, split, ih, consume_consume]; rfl
  | lineComment oneLine _ ih =>
    simp only [List.cons_append, List.append_assoc]
    rw [split, lineRest_newline oneLine, split_blank rfl, ih]
    simp [consume]
  | lastComment last => cases last
  | blockComment unclosed _ ih =>
    simp only [List.cons_append, List.append_assoc]
    rw [split_blockComment (closeComment?_close unclosed _), ih]
    simp [consume]

theorem IsGap.split_bare (h : IsGap false gap) (bare : StartsBare rest) : split (gap ++ rest) = (gap, rest) := by
  rw [h.split_append, bare]
  simp [consume]

end MacroLift.Gap
