import MacroLift.Proofs.Grammar.Alignment

namespace MacroLift

open MacroLift.Parser

def Alike {α : Type} (unplaced : α → α) (a b : α) : Prop :=
  unplaced a = unplaced b

namespace Alignment

variable {A : Alignment} {ts us : List Token}

structure SameExpr (A : Alignment) (e f : Expr) : Prop where
  place : A.places e.pos f.pos
  tree : e.unplaced = f.unplaced

theorem Tokens.pastedNames (h : A.Tokens ts us) :
    (pastedNames ts).1 = (pastedNames us).1 ∧ A.Tokens (pastedNames ts).2 (pastedNames us).2 := by
  fun_induction Parser.pastedNames ts generalizing us with
  | case1 pos text namePos rest more after found ih =>
    simp only [tokens_cons] at h
    obtain ⟨_, _, rfl, -, _, us, rfl, -, h⟩ := h
    have same := ih h
    rw [found] at same
    simpa [Parser.pastedNames] using same
  | case2 ts other =>
    rw [Parser.pastedNames.eq_2 us fun pos text next => h.noPair (fun pos => other pos text) pos next]
    exact ⟨rfl, h⟩

theorem inStep_ident : A.InStep (Alike Ident.unplaced) ident ident := by
  refine inStep_ofTokens fun ts us tokens => ?_
  cases ts with
  | nil =>
    cases tokens_nil.mp tokens
    exact .error (tokens.failureAt _)
  | cons t ts =>
    obtain ⟨l, p⟩ := t
    obtain ⟨q, us, rfl, place, rest⟩ := tokens_cons.mp tokens
    cases l with
    | name text =>
      obtain ⟨texts, behind⟩ := rest.pastedNames
      cases found : pastedNames ts with | mk more after =>
      cases found' : pastedNames us with | mk more' after' =>
      rw [found, found'] at texts behind
      dsimp only at texts behind
      subst texts
      cases more with
      | nil => simpa [found, found'] using .ok rfl rest
      | cons => simpa [found, found'] using .ok rfl behind
    | _ => exact .error ⟨rfl, place⟩

theorem Tokens.dropConst (h : A.Tokens ts us) : A.Tokens (dropConst ts) (dropConst us) := by
  fun_induction Parser.dropConst ts generalizing us with
  | case1 pos rest ih =>
    obtain ⟨_, us, rfl, -, h⟩ := tokens_cons.mp h
    simpa only [Parser.dropConst] using ih h
  | case2 ts other =>
    rwa [Parser.dropConst.eq_2 us (h.noHead other)]

theorem Tokens.pointerLevels {type type' : CType} (h : A.Tokens ts us) (same : Alike CType.unplaced type type') :
    Alike CType.unplaced (pointerLevels type ts).1 (pointerLevels type' us).1 ∧
      A.Tokens (pointerLevels type ts).2 (pointerLevels type' us).2 := by
  fun_induction Parser.pointerLevels type ts generalizing type' us with
  | case1 type pos rest ih =>
    obtain ⟨q, us, rfl, -, h⟩ := tokens_cons.mp h
    rw [Parser.pointerLevels]
    exact ih h (congrArg (CType.pointer nowhere · true) same)
  | case2 pos pointee _ constPos rest ih =>
    obtain ⟨_, us, rfl, -, h⟩ := tokens_cons.mp h
    cases type' with
    | named => cases same
    | pointer pos' pointee' _ =>
      rw [Parser.pointerLevels]
      exact ih h (congrArg (CType.pointer nowhere · false) (CType.pointer.inj same).2.1)
  | case3 pos name isStruct constPos rest ih =>
    obtain ⟨_, us, rfl, -, h⟩ := tokens_cons.mp h
    cases type' with
    | pointer => cases same
    | named pos' name' isStruct' =>
      rw [Parser.pointerLevels]
      exact ih h same
  | case4 type ts noStar noConst noConst' =>
    have const : ∀ pos rest, us = ⟨.keyword .constKw, pos⟩ :: rest → False := by
      refine h.noHead ?_
      cases type with
      | named => exact fun pos rest => noConst' _ _ _ pos rest rfl
      | pointer => exact fun pos rest => noConst _ _ _ pos rest rfl
    rw [Parser.pointerLevels.eq_4 type' us (h.noHead noStar) (fun _ _ _ pos rest _ => const pos rest)
      (fun _ _ _ pos rest _ => const pos rest)]
    exact ⟨same, h⟩

theorem inStep_ctype : A.InStep (Alike CType.unplaced) ctype ctype := by
  have name (p q : Pos) : A.InStep (Alike CType.unplaced)
      (do
        let isStruct ← accept (.keyword .structKw)
        let name ← ident
        ofTokens fun _ ts => .ok (pointerLevels (.named p name isStruct) ts))
      (do
        let isStruct ← accept (.keyword .structKw)
        let name ← ident
        ofTokens fun _ ts => .ok (pointerLevels (.named q name isStruct) ts)) := by
    refine (inStep_accept _).bindEq fun isStruct => inStep_ident.bind fun name name' same =>
      inStep_ofTokens fun ts us tokens => ?_
    have owner : Alike CType.unplaced (.named p name isStruct) (.named q name' isStruct) :=
      congrArg (CType.named nowhere · isStruct) same
    obtain ⟨type, rest⟩ := tokens.pointerLevels owner
    exact .ok type rest
  have dropped : A.InStep Eq (ofTokens fun _ ts => .ok ((), dropConst ts))
      (ofTokens fun _ ts => .ok ((), dropConst ts)) :=
    inStep_ofTokens fun _ _ tokens => .ok rfl tokens.dropConst
  unfold Parser.ctype
  exact inStep_place.bind fun p q _ => dropped.bindEq fun _ => inStep_peek.bindEq fun _ =>
    .ite _ ((inStep_mismatch _).bindEq fun _ => name p q) (name p q)

theorem Tokens.stringPieces (h : A.Tokens ts us) :
    A.Outcomes (List.Forall₂ A.SameExpr) (stringPieces A.first ts) (stringPieces A.second us) := by
  fun_induction Parser.stringPieces A.first ts generalizing us with
  | case1 text pos rest ih =>
    obtain ⟨_, us, rfl, place, h⟩ := tokens_cons.mp h
    rw [Parser.stringPieces]
    exact (ih h).map fun _ _ more => .cons ⟨place, rfl⟩ more
  | case2 pos text namePos rest ih =>
    simp only [tokens_cons] at h
    obtain ⟨_, _, rfl, place, _, us, rfl, -, h⟩ := h
    rw [Parser.stringPieces]
    exact (ih h).map fun _ _ more => .cons ⟨place, rfl⟩ more
  | case3 pos rest noName =>
    obtain ⟨_, us, rfl, -, h⟩ := tokens_cons.mp h
    rw [Parser.stringPieces.eq_3 _ _ _ fun text => h.noHead (noName text)]
    exact .error (h.mismatchAt _)
  | case4 ts noString noPair noMark =>
    rw [Parser.stringPieces.eq_4 _ us (fun text => h.noHead (noString text))
      (fun pos text next => h.noPair (fun pos => noPair pos text) pos next) (h.noHead noMark)]
    exact .ok .nil h

theorem unplacedExprs_of_same {es fs : List Expr} (h : List.Forall₂ A.SameExpr es fs) :
    unplacedExprs es = unplacedExprs fs := by
  induction h with
  | nil => rfl
  | cons same _ ih => rw [unplacedExprs, unplacedExprs, same.tree, ih]

theorem Tokens.strings (h : A.Tokens ts us)
    (opens : ∀ rest, Parser.stringPieces A.first ts ≠ .ok ([], rest)) :
    A.Replies A.SameExpr (strings A.first ts) (strings A.second us) := by
  have pieces : A.Outcomes (fun es fs => List.Forall₂ A.SameExpr es fs ∧ es ≠ [])
      (Parser.stringPieces A.first ts) (Parser.stringPieces A.second us) := by
    refine h.stringPieces.imp fun es fs rest read same => ⟨same, ?_⟩
    rintro rfl
    exact opens rest read
  have read : A.Replies _ (ofTokens Parser.stringPieces A.first ts) (ofTokens Parser.stringPieces A.second us) :=
    ⟨pieces, .none⟩
  unfold Parser.strings
  refine read.bind fun es fs same => ?_
  obtain ⟨same, nonempty⟩ := same
  cases same with
  | nil => exact absurd rfl nonempty
  | cons first more =>
    cases more with
    | nil => exact inStep_pure first
    | cons second more =>
      have tree := unplacedExprs_of_same (.cons first (.cons second more))
      exact inStep_pure ⟨first.place, congrArg (Expr.concat nowhere) tree⟩

theorem Tokens.pastedSuffixes (h : A.Tokens ts us) (marks : Marks) :
    (pastedSuffixes marks ts).1 = (pastedSuffixes marks us).1 ∧
      A.Tokens (pastedSuffixes marks ts).2 (pastedSuffixes marks us).2 := by
  fun_induction Parser.pastedSuffixes marks ts generalizing us with
  | case1 marks pos text namePos rest merged merge ih =>
    simp only [tokens_cons] at h
    obtain ⟨_, _, rfl, -, _, us, rfl, -, h⟩ := h
    simpa [Parser.pastedSuffixes, merge] using ih h
  | case2 marks pos text namePos rest noMerge =>
    have same := h
    simp only [tokens_cons] at h
    obtain ⟨_, _, rfl, -, _, us, rfl, -, h⟩ := h
    simpa [Parser.pastedSuffixes, noMerge] using same
  | case3 marks ts other =>
    rw [Parser.pastedSuffixes.eq_2 _ us fun pos text next => h.noPair (fun pos => other pos text) pos next]
    exact ⟨rfl, h⟩

theorem inStep_number (text : String) : A.InStep A.SameExpr (number text) (number text) := by
  unfold Parser.number
  refine inStep_place.bind fun p q here => inStep_skip.bindEq fun _ => ?_
  cases Number.ofText? text with
  | none => exact inStep_failAt _ here
  | some value =>
    refine .ite _ (inStep_pure ⟨here, rfl⟩) ?_
    have marks : A.InStep Eq (ofTokens fun _ ts => .ok (Parser.pastedSuffixes value.marks ts))
        (ofTokens fun _ ts => .ok (Parser.pastedSuffixes value.marks ts)) := by
      refine inStep_ofTokens fun ts us tokens => ?_
      obtain ⟨marks, rest⟩ := tokens.pastedSuffixes value.marks
      exact .ok marks rest
    exact marks.bindEq fun _ => inStep_pure ⟨here, rfl⟩

theorem Tokens.templateLines (h : A.Tokens ts us) :
    A.Outcomes Eq (templateLines A.first ts) (templateLines A.second us) := by
  fun_induction Parser.templateLines A.first ts generalizing us with
  | case1 text pos rest ih =>
    obtain ⟨_, us, rfl, -, h⟩ := tokens_cons.mp h
    rw [Parser.templateLines]
    exact (ih h).map fun _ _ => congrArg (text :: ·)
  | case2 pos text stringPos rest ih =>
    simp only [tokens_cons] at h
    obtain ⟨_, _, rfl, -, _, us, rfl, -, h⟩ := h
    rw [Parser.templateLines]
    exact (ih h).map fun _ _ => congrArg (text :: ·)
  | case3 pos rest noString =>
    obtain ⟨_, us, rfl, -, h⟩ := tokens_cons.mp h
    rw [Parser.templateLines.eq_3 _ _ _ fun text => h.noHead (noString text)]
    exact .error (h.mismatchAt _)
  | case4 ts noString noPair noComma =>
    rw [Parser.templateLines.eq_4 _ us (fun text => h.noHead (noString text))
      (fun pos text next => h.noPair (fun pos => noPair pos text) pos next) (h.noHead noComma)]
    exact .ok rfl h

theorem Tokens.moreClobbers (h : A.Tokens ts us) :
    A.Outcomes Eq (moreClobbers A.first ts) (moreClobbers A.second us) := by
  fun_induction Parser.moreClobbers A.first ts generalizing us with
  | case1 pos text stringPos rest ih =>
    simp only [tokens_cons] at h
    obtain ⟨_, _, rfl, -, _, us, rfl, -, h⟩ := h
    rw [Parser.moreClobbers]
    exact (ih h).map fun _ _ => congrArg (text :: ·)
  | case2 pos rest noString =>
    obtain ⟨_, us, rfl, -, h⟩ := tokens_cons.mp h
    rw [Parser.moreClobbers.eq_2 _ _ _ fun text => h.noHead (noString text)]
    exact .error (h.mismatchAt _)
  | case3 ts noPair noComma =>
    rw [Parser.moreClobbers.eq_3 _ us (fun pos text next => h.noPair (fun pos => noPair pos text) pos next)
      (h.noHead noComma)]
    exact .ok rfl h

theorem inStep_clobbers : A.InStep Eq clobbers clobbers := by
  refine (inStep_acceptAs _).bindEq fun first => ?_
  cases first with
  | none => exact inStep_pure rfl
  | some first => exact (inStep_ofTokens fun _ _ tokens => tokens.moreClobbers).bindEq fun _ => inStep_pure rfl

end Alignment

end MacroLift
