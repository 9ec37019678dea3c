import MacroLift.Proofs.Grammar.Runs.Names

namespace MacroLift

open MacroLift.Parser

variable {setting : Setting} {ts us rest : List Token}

theorem exists_of_map_eq_ok {ε α β : Type} {f : α → β} {x : Except ε α} {b : β} (h : x.map f = .ok b) :
    ∃ a, x = .ok a ∧ f a = b := by
  cases x with
  | error => cases h
  | ok a =>
    cases h
    exact ⟨a, rfl, rfl⟩

theorem stringPieces_split {pieces : List Expr} (h : stringPieces setting ts = .ok (pieces, rest)) :
    ∃ used, ts = used ++ rest ∧ Pieces used pieces := by
  fun_induction stringPieces setting ts generalizing pieces rest with
  | case1 text pos ts ih =>
    obtain ⟨⟨more, after⟩, found, same⟩ := exists_of_map_eq_ok h
    cases same
    obtain ⟨used, rfl, read⟩ := ih found
    exact ⟨_, rfl, .text pos text read⟩
  | case2 pos text namePos ts ih =>
    obtain ⟨⟨more, after⟩, found, same⟩ := exists_of_map_eq_ok h
    cases same
    obtain ⟨used, rfl, read⟩ := ih found
    exact ⟨_, rfl, .mark pos namePos text read⟩
  | case3 => cases h
  | case4 => cases h; exact ⟨[], rfl, .nil⟩

theorem Pieces.run {pieces : List Expr} (h : Pieces us pieces)
    (noString : ∀ text, ahead rest none ≠ some (.string text))
    (noHash : ahead rest none ≠ some (.punct .hash)) : stringPieces setting (us ++ rest) = .ok (pieces, rest) := by
  induction h with
  | nil =>
    rw [List.nil_append, stringPieces.eq_def]
    split
    · exact absurd rfl (noString _)
    · exact absurd rfl noHash
    · exact absurd rfl noHash
    · rfl
  | text pos text _ ih => simp [stringPieces, ih, Except.map]
  | mark pos namePos text _ ih => simp [stringPieces, ih, Except.map]

theorem pastedSuffixes_split (marks : Marks) (ts : List Token) :
    ∃ used, ts = used ++ (pastedSuffixes marks ts).2 ∧ Suffixes marks used (pastedSuffixes marks ts).1 := by
  fun_induction pastedSuffixes marks ts with
  | case1 marks pastePos text namePos ts merged new ih =>
    obtain ⟨used, same, read⟩ := ih
    exact ⟨_, by rw [List.cons_append, List.cons_append, ← same], .paste pastePos namePos text new read⟩
  | case2 marks => exact ⟨[], rfl, .none marks⟩
  | case3 marks => exact ⟨[], rfl, .none marks⟩

theorem pastedSuffixes_run {marks all : Marks} (h : Suffixes marks us all)
    (stop : ahead rest none ≠ some (.punct .paste)) : pastedSuffixes marks (us ++ rest) = (all, rest) := by
  induction h with
  | none marks =>
    rw [List.nil_append, pastedSuffixes.eq_def]
    split
    · exact absurd rfl stop
    · rfl
  | paste pastePos namePos text new _ ih => simp [pastedSuffixes, new, ih]

def Lexeme.startsPiece : Lexeme → Bool
  | .string _ | .punct .hash => true
  | _ => false

theorem stringPieces_ne_nil {pieces : List Expr} (start : Leads Lexeme.startsPiece ts)
    (h : stringPieces setting ts = .ok (pieces, rest)) : pieces ≠ [] := by
  rintro rfl
  obtain ⟨⟨lexeme, pos⟩, us, rfl, first⟩ := start
  rw [stringPieces.eq_def] at h
  dsimp only at h first
  unfold Lexeme.startsPiece at first
  split at h
  · obtain ⟨_, _, absent⟩ := exists_of_map_eq_ok h
    cases absent
  · obtain ⟨_, _, absent⟩ := exists_of_map_eq_ok h
    cases absent
  · cases h
  · rename_i noString _ noHash
    split at first
    · exact noString _ _ _ rfl
    · exact noHash _ _ rfl
    · cases first

theorem parses_strings {e : Expr} (start : Leads Lexeme.startsPiece ts) (h : Parses strings setting ts e rest) :
    ∃ used, ts = used ++ rest ∧
      (Pieces used [e] ∨
        ∃ first second more, e = .concat first.pos (first :: second :: more) ∧
          Pieces used (first :: second :: more)) := by
  unfold strings at h
  simp only [parses_bind, parses_ofTokens] at h
  obtain ⟨pieces, mid, read, h⟩ := h
  obtain ⟨used, rfl, split⟩ := stringPieces_split read
  split at h
  · simp only [parses_pure] at h
    obtain ⟨rfl, rfl⟩ := h
    exact ⟨used, rfl, .inl split⟩
  · rename_i many
    simp only [parses_pure] at h
    obtain ⟨rfl, rfl⟩ := h
    refine ⟨used, rfl, .inr ?_⟩
    cases pieces with
    | nil => exact absurd rfl (stringPieces_ne_nil start read)
    | cons first more =>
      cases more with
      | nil => exact absurd rfl (many first)
      | cons second more => exact ⟨first, second, more, rfl, split⟩

theorem Pieces.parses_one {e : Expr} (h : Pieces us [e]) (noString : ∀ text, ahead rest none ≠ some (.string text))
    (noHash : ahead rest none ≠ some (.punct .hash)) : Parses strings setting (us ++ rest) e rest := by
  unfold strings
  simp only [parses_bind, parses_ofTokens]
  exact ⟨[e], rest, h.run noString noHash, by simp⟩

theorem Pieces.parses_many {first second : Expr} {more : List Expr} (h : Pieces us (first :: second :: more))
    (noString : ∀ text, ahead rest none ≠ some (.string text)) (noHash : ahead rest none ≠ some (.punct .hash)) :
    Parses strings setting (us ++ rest) (.concat first.pos (first :: second :: more)) rest := by
  unfold strings
  simp only [parses_bind, parses_ofTokens]
  exact ⟨_, rest, h.run noString noHash, by simp⟩

theorem parses_number {text : String} {pos : Pos} {e : Expr}
    (h : Parses (number text) setting (⟨.number text, pos⟩ :: ts) e rest) :
    ∃ used value marks, ts = used ++ rest ∧ e = .number pos { value with marks } ∧
      Number.ofText? text = some value ∧ Suffixes value.marks used marks ∧ (value.isFloat = true → used = []) := by
  unfold number at h
  simp only [parses_bind, parses_place, parses_skip] at h
  obtain ⟨_, _, ⟨rfl, rfl⟩, _, _, rfl, h⟩ := h
  split at h
  · simp at h
  · rename_i value found
    split at h
    · rename_i isFloat
      simp only [parses_pure] at h
      obtain ⟨rfl, rfl⟩ := h
      exact ⟨[], value, value.marks, rfl, rfl, found, .none _, fun _ => rfl⟩
    · rename_i notFloat
      simp only [parses_bind, parses_ofTokens, parses_pure, Except.ok.injEq] at h
      obtain ⟨marks, _, run, rfl, rfl⟩ := h
      obtain ⟨used, same, suffixes⟩ := pastedSuffixes_split value.marks ts
      rw [List.tail_cons] at run
      rw [run] at same suffixes
      exact ⟨used, value, marks, same, rfl, found, suffixes, fun isFloat => absurd isFloat notFloat⟩

theorem number_parses {text : String} {pos : Pos} {value : Number} {marks : Marks}
    (found : Number.ofText? text = some value) (suffixes : Suffixes value.marks us marks)
    (unpasted : value.isFloat = true → us = []) (stop : ahead rest none ≠ some (.punct .paste)) :
    Parses (number text) setting (⟨.number text, pos⟩ :: us ++ rest) (.number pos { value with marks }) rest := by
  unfold number
  simp only [parses_bind, parses_place, parses_skip]
  refine ⟨pos, _, ⟨rfl, rfl⟩, (), _, rfl, ?_⟩
  simp only [found]
  split
  · rename_i isFloat
    cases unpasted isFloat
    cases suffixes
    simp
  · simp only [parses_bind, parses_ofTokens, parses_pure]
    exact ⟨marks, rest, by simpa using pastedSuffixes_run suffixes stop, rfl, rfl⟩

theorem templateLines_split {lines : List String} (h : templateLines setting ts = .ok (lines, rest)) :
    ∃ used, ts = used ++ rest ∧ Template used lines ∧
      (∀ text, ahead rest none ≠ some (.string text)) ∧ ahead rest none ≠ some (.punct .comma) := by
  fun_induction templateLines setting ts generalizing lines rest with
  | case1 text pos ts ih =>
    obtain ⟨⟨more, after⟩, found, same⟩ := exists_of_map_eq_ok h
    cases same
    obtain ⟨used, rfl, read, stop⟩ := ih found
    exact ⟨_, rfl, .adjacent pos text read, stop⟩
  | case2 commaPos text pos ts ih =>
    obtain ⟨⟨more, after⟩, found, same⟩ := exists_of_map_eq_ok h
    cases same
    obtain ⟨used, rfl, read, stop⟩ := ih found
    exact ⟨_, rfl, .comma commaPos pos text read, stop⟩
  | case3 => cases h
  | case4 ts noString _ noComma =>
    cases h
    refine ⟨[], rfl, .nil, ?_, ?_⟩
    · intro text same
      obtain _ | ⟨⟨lexeme, pos⟩, ts⟩ := ts
      · cases same
      · cases same
        exact noString _ _ _ rfl
    · intro same
      obtain _ | ⟨⟨lexeme, pos⟩, ts⟩ := ts
      · cases same
      · cases same
        exact noComma _ _ rfl

theorem Template.run {lines : List String} (h : Template us lines)
    (noString : ∀ text, ahead rest none ≠ some (.string text)) (noComma : ahead rest none ≠ some (.punct .comma)) :
    templateLines setting (us ++ rest) = .ok (lines, rest) := by
  induction h with
  | nil =>
    rw [List.nil_append, templateLines.eq_def]
    split
    · exact absurd rfl (noString _)
    · exact absurd rfl noComma
    · exact absurd rfl noComma
    · rfl
  | adjacent pos text _ ih => simp [templateLines, ih, Except.map]
  | comma commaPos pos text _ ih => simp [templateLines, ih, Except.map]

theorem moreClobbers_split {texts : List String} (h : moreClobbers setting ts = .ok (texts, rest)) :
    ∃ used, ts = used ++ rest ∧ MoreClobbers used texts := by
  fun_induction moreClobbers setting ts generalizing texts rest with
  | case1 commaPos text pos ts ih =>
    obtain ⟨⟨more, after⟩, found, same⟩ := exists_of_map_eq_ok h
    cases same
    obtain ⟨used, rfl, read⟩ := ih found
    exact ⟨_, rfl, .cons commaPos pos text read⟩
  | case2 => cases h
  | case3 => cases h; exact ⟨[], rfl, .nil⟩

theorem MoreClobbers.run {texts : List String} (h : MoreClobbers us texts)
    (noComma : ahead rest none ≠ some (.punct .comma)) :
    moreClobbers setting (us ++ rest) = .ok (texts, rest) := by
  induction h with
  | nil =>
    rw [List.nil_append, moreClobbers.eq_def]
    split
    · exact absurd rfl noComma
    · exact absurd rfl noComma
    · rfl
  | cons commaPos pos text _ ih => simp [moreClobbers, ih, Except.map]

theorem stringText?_eq_some {l : Lexeme} {text : String} (h : stringText? l = some text) : l = .string text := by
  cases l <;> simp [stringText?] at h
  rw [h]

theorem nameText?_eq_some {l : Lexeme} {text : String} (h : nameText? l = some text) : l = .name text := by
  cases l <;> simp [nameText?] at h
  rw [h]

theorem parses_clobbers {texts : List String} (h : Parses clobbers setting ts texts rest) :
    ∃ used, ts = used ++ rest ∧ Clobbers used texts := by
  unfold clobbers at h
  simp only [parses_bind] at h
  obtain ⟨found, mid, first, h⟩ := h
  cases found with
  | none =>
    simp only [parses_pure, parses_acceptAs_none] at h first
    obtain ⟨rfl, rfl⟩ := h
    exact ⟨[], first.1, .none⟩
  | some text =>
    simp only [parses_acceptAs_some] at first
    obtain ⟨⟨lexeme, pos⟩, rfl, isString⟩ := first
    cases stringText?_eq_some isString
    simp only [parses_bind, parses_ofTokens, parses_pure] at h
    obtain ⟨more, _, run, rfl, rfl⟩ := h
    obtain ⟨used, rfl, read⟩ := moreClobbers_split run
    exact ⟨_, rfl, .some pos text read⟩

theorem clobbers_parses {texts : List String} (h : Clobbers us texts)
    (noString : ∀ text, ahead rest none ≠ some (.string text)) (noComma : ahead rest none ≠ some (.punct .comma)) :
    Parses clobbers setting (us ++ rest) texts rest := by
  unfold clobbers
  rw [parses_bind]
  cases h with
  | none =>
    refine ⟨none, rest, ?_, by simp⟩
    simp only [List.nil_append, parses_acceptAs_none, true_and]
    cases next : ahead rest none with
    | none => rfl
    | some l =>
      cases l with
      | string text => exact absurd next (noString text)
      | _ => rfl
  | some pos text more =>
    refine ⟨some text, _, parses_acceptAs_some.mpr ⟨_, rfl, rfl⟩, ?_⟩
    simp only [parses_bind, parses_ofTokens, parses_pure]
    exact ⟨_, rest, more.run noComma, rfl, rfl⟩

theorem parses_asmName {label : Option String} (h : Parses asmName setting ts label rest) :
    ∃ used, ts = used ++ rest ∧ OperandName used label := by
  unfold asmName at h
  simp only [parses_bind] at h
  obtain ⟨found, mid, first, h⟩ := h
  cases found with
  | false =>
    simp only [Bool.false_eq_true, if_false, parses_pure, parses_accept_false] at h first
    obtain ⟨rfl, rfl⟩ := h
    exact ⟨[], first.1, .none⟩
  | true =>
    simp only [if_true, parses_bind, parses_expectAs, parses_expect, parses_pure, parses_accept_true] at h first
    obtain ⟨openPos, rfl⟩ := first
    obtain ⟨text, _, ⟨⟨lexeme, pos⟩, rfl, isName⟩, _, _, ⟨closePos, rfl⟩, rfl, rfl⟩ := h
    cases nameText?_eq_some isName
    exact ⟨_, rfl, .bracketed openPos pos closePos text⟩

theorem asmName_parses {label : Option String} (h : OperandName us label)
    (stop : ahead rest none ≠ some (.punct .leftBracket)) : Parses asmName setting (us ++ rest) label rest := by
  unfold asmName
  rw [parses_bind]
  cases h with
  | none => exact ⟨false, rest, by simpa using stop, by simp⟩
  | bracketed openPos pos closePos text =>
    refine ⟨true, _, parses_accept_true.mpr ⟨openPos, rfl⟩, ?_⟩
    simp only [if_true, parses_bind, parses_expectAs, parses_expect, parses_pure]
    exact ⟨text, _, ⟨_, rfl, rfl⟩, (), _, ⟨closePos, rfl⟩, rfl, rfl⟩

end MacroLift
