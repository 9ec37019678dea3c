import MacroLift.Proofs.Grammar.Runs
import MacroLift.Proofs.Grammar.Edges

namespace MacroLift

open MacroLift.Parser

variable {setting : Setting} {ts us rest : List Token}

theorem pastedNames_split (ts : List Token) :
    ∃ used, ts = used ++ (pastedNames ts).2 ∧ PastedNames used (pastedNames ts).1 := by
  fun_induction pastedNames ts with
  | case1 pastePos text namePos ts more rest split ih =>
    rw [split] at ih
    obtain ⟨used, rfl, names⟩ := ih
    exact ⟨_, rfl, .cons pastePos namePos text names⟩
  | case2 ts => exact ⟨[], rfl, .nil⟩

theorem PastedNames.run {fragments : List String} (h : PastedNames us fragments)
    (stop : ahead rest none ≠ some (.punct .paste)) : pastedNames (us ++ rest) = (fragments, rest) := by
  induction h with
  | nil =>
    rw [List.nil_append, pastedNames.eq_def]
    split
    · exact absurd rfl stop
    · rfl
  | cons pastePos namePos text _ ih => simp [pastedNames, ih]

theorem parses_ident {name : Ident} (h : Parses ident setting ts name rest) :
    ∃ used, ts = used ++ rest ∧ Names used name := by
  unfold ident at h
  simp only [parses_ofTokens] at h
  split at h
  · rename_i text pos more
    obtain ⟨used, same, names⟩ := pastedNames_split more
    split at h
    · cases h
      exact ⟨_, rfl, .simple pos text⟩
    · rename_i fragments after many split
      cases h
      rw [split] at same names
      exact ⟨⟨.name text, pos⟩ :: used, by simpa using same, .pasted pos text names many⟩
  · cases h

theorem Names.parses {name : Ident} (h : Names us name) (stop : ahead rest none ≠ some (.punct .paste)) :
    Parses ident setting (us ++ rest) name rest := by
  unfold ident
  rw [parses_ofTokens]
  cases h with
  | simple pos text =>
    have run := PastedNames.nil.run stop
    rw [List.nil_append] at run
    simp [run]
  | pasted pos text more many =>
    cases more with
    | nil => exact absurd rfl many
    | cons pastePos namePos second more =>
      have run := (PastedNames.cons pastePos namePos second more).run stop
      simp only [List.cons_append] at run ⊢
      simp only [run]

theorem dropConst_split (ts : List Token) : ∃ used, ts = used ++ dropConst ts ∧ AllConst used := by
  fun_induction dropConst ts with
  | case1 pos ts ih =>
    obtain ⟨used, same, const⟩ := ih
    refine ⟨⟨.keyword .constKw, pos⟩ :: used, by simpa using same, ?_⟩
    simpa [AllConst] using const
  | case2 ts => exact ⟨[], rfl, by simp [AllConst]⟩

theorem AllConst.cons_iff {t : Token} :
    AllConst (t :: ts) ↔ t.lexeme = .keyword .constKw ∧ AllConst ts := by
  simp [AllConst]

theorem AllConst.run (h : AllConst us) (stop : ahead rest none ≠ some (.keyword .constKw)) :
    dropConst (us ++ rest) = rest := by
  induction us with
  | nil =>
    rw [List.nil_append, dropConst.eq_def]
    split
    · exact absurd rfl stop
    · rfl
  | cons t us ih =>
    obtain ⟨const, more⟩ := AllConst.cons_iff.mp h
    obtain ⟨lexeme, pos⟩ := t
    cases const
    exact ih more

def CType.withConst : CType → List Token → CType
  | .pointer pos pointee isMutable, consts => .pointer pos pointee (isMutable && consts.isEmpty)
  | .named pos name isStruct, _ => .named pos name isStruct

theorem pointerLevels_split (type : CType) (ts : List Token) :
    ∃ consts levels, ts = consts ++ levels ++ (pointerLevels type ts).2 ∧ AllConst consts ∧
      Levels (type.withConst consts) levels (pointerLevels type ts).1 := by
  have noConst : AllConst [] := by simp [AllConst]
  have same : ∀ type : CType, type.withConst [] = type := by
    intro type
    cases type <;> simp [CType.withConst]
  fun_induction pointerLevels type ts with
  | case1 type pos ts ih =>
    obtain ⟨consts, levels, eq, const, more⟩ := ih
    refine ⟨[], ⟨.punct .star, pos⟩ :: consts ++ levels, by simpa using eq, noConst, ?_⟩
    rw [same]
    exact .star pos const more
  | case2 pos pointee isMutable constPos ts ih =>
    obtain ⟨consts, levels, eq, const, more⟩ := ih
    refine ⟨⟨.keyword .constKw, constPos⟩ :: consts, levels, by simpa using eq, ?_, ?_⟩
    · exact AllConst.cons_iff.mpr ⟨rfl, const⟩
    · simpa [CType.withConst] using more
  | case3 pos name isStruct constPos ts ih =>
    obtain ⟨consts, levels, eq, const, more⟩ := ih
    refine ⟨⟨.keyword .constKw, constPos⟩ :: consts, levels, by simpa using eq, ?_, more⟩
    exact AllConst.cons_iff.mpr ⟨rfl, const⟩
  | case4 type ts =>
    refine ⟨[], [], rfl, noConst, ?_⟩
    rw [same]
    exact .none type

theorem pointerLevels_const (type : CType) (pos : Pos) (ts : List Token) :
    pointerLevels type (⟨.keyword .constKw, pos⟩ :: ts) =
      pointerLevels (type.withConst [⟨.keyword .constKw, pos⟩]) ts := by
  cases type <;> simp [pointerLevels, CType.withConst]

theorem withConst_cons (type : CType) (t : Token) (us : List Token) :
    (type.withConst [t]).withConst us = type.withConst (t :: us) := by
  cases type <;> simp [CType.withConst]

theorem AllConst.pointerLevels {type : CType} (h : AllConst us) (rest : List Token) :
    pointerLevels type (us ++ rest) = Parser.pointerLevels (type.withConst us) rest := by
  induction us generalizing type with
  | nil => cases type <;> simp [CType.withConst]
  | cons t us ih =>
    obtain ⟨const, more⟩ := AllConst.cons_iff.mp h
    obtain ⟨lexeme, pos⟩ := t
    cases const
    rw [List.cons_append, pointerLevels_const, ih more, withConst_cons]

theorem pointerLevels_run {type result : CType} (h : Levels type us result)
    (noStar : ahead rest none ≠ some (.punct .star))
    (noConst : ahead rest none ≠ some (.keyword .constKw)) : pointerLevels type (us ++ rest) = (result, rest) := by
  induction h with
  | none type =>
    rw [List.nil_append, pointerLevels.eq_def]
    split
    · exact absurd rfl noStar
    · exact absurd rfl noConst
    · exact absurd rfl noConst
    · rfl
  | star pos const _ ih =>
    rw [List.append_assoc, List.cons_append, pointerLevels, const.pointerLevels]
    simpa [CType.withConst] using ih

theorem placeOf_of_startsAt (setting : Setting) {pos : Pos} (h : StartsAt us pos) (rest : List Token) :
    placeOf setting (us ++ rest) = pos := by
  cases us with
  | nil => cases h
  | cons t us => simpa [StartsAt, placeOf] using h

theorem startsAt_of_ne_nil (setting : Setting) (h : us ≠ []) (rest : List Token) :
    StartsAt us (placeOf setting (us ++ rest)) := by
  cases us with
  | nil => exact absurd rfl h
  | cons t us => rfl

theorem parses_ctype {type : CType} (h : Parses ctype setting ts type rest) :
    ∃ used, ts = used ++ rest ∧ TypeName used type := by
  unfold ctype at h
  simp only [parses_bind, parses_place, parses_ofTokens, parses_peek] at h
  obtain ⟨_, _, ⟨rfl, rfl⟩, _, mid, dropped, _, _, ⟨rfl, rfl⟩, h⟩ := h
  obtain ⟨before, same, constBefore⟩ := dropConst_split ts
  simp only [Except.ok.injEq, Prod.mk.injEq, true_and] at dropped
  rw [dropped] at same
  split at h
  · simp at h
  · simp only [parses_bind, parses_ofTokens, Except.ok.injEq] at h
    obtain ⟨isStruct, mid', word, name, behind, named, levels⟩ := h
    have struct : ∃ used, mid = used ++ mid' ∧ Optional (.keyword .structKw) used isStruct := by
      rcases parses_accept.mp word with ⟨rfl, wordPos, rfl⟩ | ⟨rfl, rfl, -⟩
      · exact ⟨_, rfl, .present wordPos⟩
      · exact ⟨_, rfl, .absent⟩
    obtain ⟨used, rfl, struct⟩ := struct
    obtain ⟨nameTokens, rfl, names⟩ := parses_ident named
    obtain ⟨consts, pointers, eq, const, more⟩ :=
      pointerLevels_split (.named (placeOf setting ts) name isStruct) behind
    rw [levels] at eq more
    subst eq
    have some : before ++ used ++ nameTokens ≠ [] := by
      obtain ⟨p, text, more, rfl⟩ := names.head
      simp
    refine ⟨before ++ used ++ nameTokens ++ consts ++ pointers, by simp [same], ?_⟩
    have start := startsAt_of_ne_nil setting some (consts ++ pointers ++ rest)
    have whole : before ++ used ++ nameTokens ++ (consts ++ pointers ++ rest) = ts := by simp [same]
    rw [whole] at start
    exact .intro start constBefore struct names const more

theorem TypeName.parses {type : CType} (h : TypeName us type) (noStar : ahead rest none ≠ some (.punct .star))
    (noConst : ahead rest none ≠ some (.keyword .constKw)) (noPaste : ahead rest none ≠ some (.punct .paste)) :
    Parses ctype setting (us ++ rest) type rest := by
  cases h with
  | @intro before word name behind levels isStruct ident _ pos start constBefore struct names constBehind
    pointers =>
    have place : placeOf setting (before ++ word ++ name ++ behind ++ levels ++ rest) = pos := by
      rw [List.append_assoc, List.append_assoc]
      exact placeOf_of_startsAt setting start _
    have dropped : dropConst (before ++ word ++ name ++ behind ++ levels ++ rest) =
        word ++ name ++ behind ++ levels ++ rest := by
      simp only [List.append_assoc]
      refine constBefore.run ?_
      obtain ⟨p, text, more, rfl⟩ := names.head
      cases struct <;> simp
    have noUnion : ahead (word ++ name ++ behind ++ levels ++ rest) none ≠ some (.keyword .unionKw) := by
      obtain ⟨p, text, more, rfl⟩ := names.head
      cases struct <;> simp
    have marked : Parses (accept (.keyword .structKw)) setting (word ++ name ++ behind ++ levels ++ rest) isStruct
        (name ++ behind ++ levels ++ rest) := by
      cases struct with
      | present pos => simp
      | absent =>
        obtain ⟨p, text, more, rfl⟩ := names.head
        simp
    have named : Parses Parser.ident setting (name ++ behind ++ levels ++ rest) ident (behind ++ levels ++
      rest) := by
      simp only [List.append_assoc]
      refine names.parses ?_
      cases behind with
      | cons t behind => simpa using by rw [(AllConst.cons_iff.mp constBehind).1]; simp
      | nil =>
        cases pointers with
        | none => simpa using noPaste
        | star => simp
    have leveled : pointerLevels (.named pos ident isStruct) (behind ++ levels ++ rest) = (type, rest) := by
      rw [List.append_assoc, constBehind.pointerLevels]
      exact pointerLevels_run pointers noStar noConst
    unfold ctype
    simp only [parses_bind, parses_place, parses_ofTokens, parses_peek]
    refine ⟨pos, _, ⟨place, rfl⟩, (), _, rfl, _, _, ⟨rfl, rfl⟩, ?_⟩
    rw [dropped, if_neg noUnion]
    simp only [parses_bind, parses_ofTokens]
    exact ⟨isStruct, _, marked, ident, _, named, by rw [leveled]⟩

end MacroLift
