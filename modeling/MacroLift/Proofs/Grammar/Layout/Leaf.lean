import MacroLift.Proofs.Grammar.Reading
import MacroLift.Proofs.Tree.Unplaced

namespace MacroLift

variable {ts us vs : List Token}

def SameText (ts us : List Token) : Prop :=
  us.map Token.lexeme = ts.map Token.lexeme

theorem SameText.symm (h : SameText ts us) : SameText us ts :=
  Eq.symm h

theorem sameText_nil : SameText [] us ↔ us = [] :=
  List.map_eq_nil_iff

theorem sameText_cons {t : Token} :
    SameText (t :: ts) us ↔ ∃ pos ts', us = ⟨t.lexeme, pos⟩ :: ts' ∧ SameText ts ts' := by
  constructor
  · intro h
    obtain ⟨⟨l, pos⟩, ts', rfl, rfl, more⟩ := List.map_eq_cons_iff.mp h
    exact ⟨pos, ts', rfl, more⟩
  · rintro ⟨pos, ts', rfl, more⟩
    exact congrArg (t.lexeme :: ·) more

theorem sameText_append :
    SameText (ts ++ us) vs ↔ ∃ ts' us', vs = ts' ++ us' ∧ SameText ts ts' ∧ SameText us us' := by
  unfold SameText
  rw [List.map_append]
  exact List.map_eq_append_iff

theorem SameText.append {ts' us' : List Token} (first : SameText ts ts') (second : SameText us us') :
    SameText (ts ++ us) (ts' ++ us') :=
  sameText_append.mpr ⟨ts', us', rfl, first, second⟩

theorem SameText.ahead (h : SameText ts us) (next : Option Lexeme) : ahead us next = ahead ts next := by
  cases ts with
  | nil => rw [sameText_nil.mp h]
  | cons t ts =>
    obtain ⟨pos, ts', rfl, -⟩ := sameText_cons.mp h
    rfl

theorem SameText.eq_nil (h : SameText ts us) (none : ts = []) : us = [] := by
  subst none
  exact sameText_nil.mp h

theorem SameText.mem {t : Token} {l : Lexeme} (h : SameText ts us) (member : t ∈ ts) (is : t.lexeme = l) :
    ∃ u ∈ us, u.lexeme = l := by
  have among : l ∈ us.map Token.lexeme := by
    rw [h, ← is]
    exact List.mem_map_of_mem member
  exact List.mem_map.mp among

theorem SameText.startsAt {pos : Pos} (h : SameText ts us) (start : StartsAt ts pos) :
    ∃ pos', StartsAt us pos' := by
  cases ts with
  | nil => cases start
  | cons t ts =>
    obtain ⟨pos', ts', rfl, -⟩ := sameText_cons.mp h
    exact ⟨pos', rfl⟩

theorem PastedNames.relaid {fragments : List String} (h : PastedNames ts fragments) (same : SameText ts us) :
    PastedNames us fragments := by
  induction h generalizing us with
  | nil =>
    cases sameText_nil.mp same
    exact .nil
  | cons _ _ text _ ih =>
    simp only [sameText_cons] at same
    obtain ⟨_, _, rfl, _, _, rfl, same⟩ := same
    exact .cons _ _ text (ih same)

theorem Names.relaid {ident : Ident} (h : Names ts ident) (same : SameText ts us) :
    ∃ ident', Names us ident' ∧ ident'.unplaced = ident.unplaced := by
  cases h with
  | simple _ text =>
    simp only [sameText_cons, sameText_nil] at same
    obtain ⟨pos, _, rfl, rfl⟩ := same
    exact ⟨_, .simple pos text, rfl⟩
  | pasted _ text more many =>
    simp only [sameText_cons] at same
    obtain ⟨pos, _, rfl, same⟩ := same
    exact ⟨_, .pasted pos text (more.relaid same) many, rfl⟩

theorem AllConst.relaid (h : AllConst ts) (same : SameText ts us) : AllConst us := by
  intro t member
  have lexeme : t.lexeme ∈ ts.map Token.lexeme := same ▸ List.mem_map_of_mem member
  obtain ⟨t', member', alike⟩ := List.mem_map.mp lexeme
  exact alike ▸ h t' member'

theorem SameText.isEmpty (h : SameText ts us) : us.isEmpty = ts.isEmpty := by
  cases ts with
  | nil => rw [sameText_nil.mp h]
  | cons t ts =>
    obtain ⟨_, _, rfl, -⟩ := sameText_cons.mp h
    rfl

theorem Levels.relaid {type type' result : CType} (h : Levels type ts result) (same : SameText ts us)
    (alike : type'.unplaced = type.unplaced) :
    ∃ result', Levels type' us result' ∧ result'.unplaced = result.unplaced := by
  induction h generalizing us type' with
  | none =>
    cases sameText_nil.mp same
    exact ⟨type', .none type', alike⟩
  | @star type _ consts _ _ const _ ih =>
    simp only [sameText_append, sameText_cons] at same
    obtain ⟨_, _, rfl, ⟨pos, consts', rfl, same⟩, behind⟩ := same
    have pointer : (CType.pointer pos type' consts'.isEmpty).unplaced =
        (CType.pointer pos type consts.isEmpty).unplaced := by
      simp only [CType.unplaced, alike, same.isEmpty]
    obtain ⟨result', more, result⟩ := ih behind pointer
    exact ⟨result', .star pos (const.relaid same) more, result⟩

theorem Optional.relaid {lexeme : Lexeme} {found : Bool} (h : Optional lexeme ts found) (same : SameText ts us) :
    Optional lexeme us found := by
  cases h with
  | absent =>
    cases sameText_nil.mp same
    exact .absent
  | present =>
    simp only [sameText_cons, sameText_nil] at same
    obtain ⟨pos, _, rfl, rfl⟩ := same
    exact .present pos

theorem TypeName.relaid {type : CType} (h : TypeName ts type) (same : SameText ts us) :
    ∃ type', TypeName us type' ∧ type'.unplaced = type.unplaced := by
  cases h with
  | @intro _ _ _ _ _ isStruct ident _ pos start constBefore struct names constBehind pointers =>
    simp only [sameText_append] at same
    obtain ⟨_, levels, rfl, ⟨_, behind, rfl, ⟨_, name, rfl, ⟨before, word, rfl, first, second⟩, last⟩, middle⟩,
      back⟩ := same
    obtain ⟨pos', start'⟩ := ((first.append second).append last).startsAt start
    obtain ⟨ident', names', alike⟩ := names.relaid last
    have named : (CType.named pos' ident' isStruct).unplaced = (CType.named pos ident isStruct).unplaced := by
      simp only [CType.unplaced, alike]
    obtain ⟨type', pointers', result⟩ := pointers.relaid back named
    exact ⟨type', .intro start' (constBefore.relaid first) (struct.relaid second) names'
      (constBehind.relaid middle) pointers', result⟩

theorem Suffixes.relaid {marks all : Marks} (h : Suffixes marks ts all) (same : SameText ts us) :
    Suffixes marks us all := by
  induction h generalizing us with
  | none =>
    cases sameText_nil.mp same
    exact .none _
  | paste _ _ text new _ ih =>
    simp only [sameText_cons] at same
    obtain ⟨_, _, rfl, _, _, rfl, same⟩ := same
    exact .paste _ _ text new (ih same)

theorem Pieces.relaid {pieces : List Expr} (h : Pieces ts pieces) (same : SameText ts us) :
    ∃ pieces', Pieces us pieces' ∧ unplacedExprs pieces' = unplacedExprs pieces := by
  induction h generalizing us with
  | nil =>
    cases sameText_nil.mp same
    exact ⟨[], .nil, rfl⟩
  | text _ text _ ih =>
    simp only [sameText_cons] at same
    obtain ⟨pos, _, rfl, same⟩ := same
    obtain ⟨pieces', more, alike⟩ := ih same
    exact ⟨_, .text pos text more, by simp only [unplacedExprs, Expr.unplaced, alike]⟩
  | mark _ _ text _ ih =>
    simp only [sameText_cons] at same
    obtain ⟨pos, _, rfl, namePos, _, rfl, same⟩ := same
    obtain ⟨pieces', more, alike⟩ := ih same
    exact ⟨_, .mark pos namePos text more, by simp only [unplacedExprs, Expr.unplaced, Ident.unplaced, alike]⟩

theorem Template.relaid {lines : List String} (h : Template ts lines) (same : SameText ts us) :
    Template us lines := by
  induction h generalizing us with
  | nil =>
    cases sameText_nil.mp same
    exact .nil
  | adjacent _ text _ ih =>
    simp only [sameText_cons] at same
    obtain ⟨_, _, rfl, same⟩ := same
    exact .adjacent _ text (ih same)
  | comma _ _ text _ ih =>
    simp only [sameText_cons] at same
    obtain ⟨_, _, rfl, _, _, rfl, same⟩ := same
    exact .comma _ _ text (ih same)

theorem MoreClobbers.relaid {texts : List String} (h : MoreClobbers ts texts) (same : SameText ts us) :
    MoreClobbers us texts := by
  induction h generalizing us with
  | nil =>
    cases sameText_nil.mp same
    exact .nil
  | cons _ _ text _ ih =>
    simp only [sameText_cons] at same
    obtain ⟨_, _, rfl, _, _, rfl, same⟩ := same
    exact .cons _ _ text (ih same)

theorem Clobbers.relaid {texts : List String} (h : Clobbers ts texts) (same : SameText ts us) :
    Clobbers us texts := by
  cases h with
  | none =>
    cases sameText_nil.mp same
    exact .none
  | some _ text more =>
    simp only [sameText_cons] at same
    obtain ⟨_, _, rfl, same⟩ := same
    exact .some _ text (more.relaid same)

theorem OperandName.relaid {label : Option String} (h : OperandName ts label) (same : SameText ts us) :
    OperandName us label := by
  cases h with
  | none =>
    cases sameText_nil.mp same
    exact .none
  | bracketed _ _ _ text =>
    simp only [sameText_cons, sameText_nil] at same
    obtain ⟨_, _, rfl, _, _, rfl, _, _, rfl, rfl⟩ := same
    exact .bracketed _ _ _ text

end MacroLift
