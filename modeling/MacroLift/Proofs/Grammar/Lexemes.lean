import MacroLift.Proofs.Grammar.Reading

namespace MacroLift

namespace Lexeme

def inName : Lexeme → Bool
  | .name _ | .punct .paste => true
  | _ => false

def inType : Lexeme → Bool
  | .name _ | .punct .paste | .punct .star | .keyword .constKw | .keyword .structKw => true
  | _ => false

def inTemplate : Lexeme → Bool
  | .string _ | .punct .comma => true
  | _ => false

def inLeaf : Lexeme → Bool
  | .name _ | .string _ => true
  | .punct p => [.paste, .star, .comma, .hash].contains p
  | .keyword k => [.constKw, .structKw].contains k
  | _ => false

/-- The lexemes that no phrase uses. -/
def isForeign : Lexeme → Bool
  | .punct p => [.pipe, .caret, .logicalAnd, .logicalOr, .percent].contains p
  | .keyword k => k == .unionKw
  | _ => false

def endsStatement : Lexeme → Bool
  | .punct p => [.semicolon, .leftBrace, .rightBrace].contains p
  | _ => false

def isPlain (l : Lexeme) : Bool :=
  !l.isForeign && !l.endsStatement

end Lexeme

theorem split_cases {α : Type} {xs ys us vs : List α} {x y : α} (same : xs ++ x :: us = ys ++ y :: vs) :
    (∃ ws, xs = ys ++ y :: ws ∧ vs = ws ++ x :: us) ∨ (xs = ys ∧ x = y ∧ us = vs) ∨
      ∃ ws, ys = xs ++ x :: ws ∧ us = ws ++ y :: vs := by
  induction xs generalizing ys with
  | nil =>
    cases ys with
    | nil => exact .inr (.inl ⟨rfl, List.cons.inj same⟩)
    | cons z ys =>
      obtain ⟨rfl, more⟩ := List.cons.inj same
      exact .inr (.inr ⟨ys, rfl, more⟩)
  | cons z xs ih =>
    cases ys with
    | nil =>
      obtain ⟨rfl, more⟩ := List.cons.inj same
      exact .inl ⟨xs, rfl, more.symm⟩
    | cons w ys =>
      obtain ⟨rfl, more⟩ := List.cons.inj same
      rcases ih more with ⟨ws, rfl, behind⟩ | ⟨rfl, both⟩ | ⟨ws, rfl, behind⟩
      · exact .inl ⟨ws, rfl, behind⟩
      · exact .inr (.inl ⟨rfl, both⟩)
      · exact .inr (.inr ⟨ws, rfl, behind⟩)

theorem split_letters {p : Lexeme → Bool} {ts us xs vs : List Token} {t x : Token}
    (letters : ∀ y ∈ xs, p y.lexeme = true) (mark : p x.lexeme = false) (same : ts ++ x :: us = xs ++ t :: vs) :
    (∃ ws, ts = xs ++ t :: ws ∧ vs = ws ++ x :: us) ∨ (ts = xs ∧ x = t ∧ us = vs) := by
  rcases split_cases same with behind | this | ⟨ws, rfl, -⟩
  · exact .inl behind
  · exact .inr this
  · have letter := letters x (by simp)
    rw [mark] at letter
    cases letter

variable {ts : List Token} {ident : Ident} {type : CType}

theorem PastedNames.letters {fragments : List String} (h : PastedNames ts fragments) :
    ∀ t ∈ ts, t.lexeme.inName = true := by
  induction h with
  | nil => simp
  | cons _ _ _ _ ih => simpa [Lexeme.inName] using ih

theorem Names.letters (h : Names ts ident) : ∀ t ∈ ts, t.lexeme.inName = true := by
  cases h with
  | simple => simp [Lexeme.inName]
  | pasted _ _ more => simpa [Lexeme.inName] using more.letters

theorem inType_of_inName {l : Lexeme} (h : l.inName = true) : l.inType = true := by
  unfold Lexeme.inName at h
  split at h
  · rfl
  · rfl
  · cases h

theorem Names.inType (h : Names ts ident) : ∀ t ∈ ts, t.lexeme.inType = true :=
  fun t member => inType_of_inName (h.letters t member)

theorem Names.product {us : List Token} {other : Ident} (h : Names ts ident) (h' : Names us other) (pos : Pos) :
    ∀ t ∈ ts ++ ⟨.punct .star, pos⟩ :: us, t.lexeme.inType = true :=
  List.forall_mem_append.mpr ⟨h.inType, List.forall_mem_cons.mpr ⟨rfl, h'.inType⟩⟩

theorem Names.head (h : Names ts ident) : ∃ pos text us, ts = ⟨.name text, pos⟩ :: us := by
  cases h with
  | simple pos text => exact ⟨pos, text, [], rfl⟩
  | pasted pos text => exact ⟨pos, text, _, rfl⟩

theorem AllConst.letters (h : AllConst ts) : ∀ t ∈ ts, t.lexeme.inType = true := by
  intro t member
  rw [h t member]
  rfl

theorem Levels.letters {result : CType} (h : Levels type ts result) : ∀ t ∈ ts, t.lexeme.inType = true := by
  induction h with
  | none => simp
  | star pos const _ ih => simpa [Lexeme.inType, or_imp, forall_and] using ⟨const.letters, ih⟩

theorem Optional.letters {lexeme : Lexeme} {found : Bool} (h : Optional lexeme ts found) :
    ∀ t ∈ ts, t.lexeme = lexeme := by
  cases h <;> simp

theorem Optional.none {lexeme : Lexeme} {found : Bool} {p : Lexeme → Bool} (h : Optional lexeme ts found)
    (other : p lexeme = false) : ∀ t ∈ ts, p t.lexeme = false := by
  intro t member
  rw [h.letters t member]
  exact other

theorem TypeName.letters (h : TypeName ts type) : ∀ t ∈ ts, t.lexeme.inType = true := by
  obtain ⟨_, constBefore, struct, names, constBehind, pointers⟩ := h
  simp only [List.mem_append, or_imp, forall_and]
  refine ⟨⟨⟨⟨constBefore.letters, ?_⟩, names.inType⟩, constBehind.letters⟩, pointers.letters⟩
  intro t member
  rw [struct.letters t member]
  rfl

theorem Template.letters {lines : List String} (h : Template ts lines) : ∀ t ∈ ts, t.lexeme.inTemplate = true := by
  induction h with
  | nil => simp
  | adjacent _ _ _ ih | comma _ _ _ _ ih => simpa [Lexeme.inTemplate] using ih

theorem MoreClobbers.letters {texts : List String} (h : MoreClobbers ts texts) :
    ∀ t ∈ ts, t.lexeme.inTemplate = true := by
  induction h with
  | nil => simp
  | cons _ _ _ _ ih => simpa [Lexeme.inTemplate] using ih

theorem Clobbers.letters {texts : List String} (h : Clobbers ts texts) : ∀ t ∈ ts, t.lexeme.inTemplate = true := by
  cases h with
  | none => simp
  | some _ _ more => simpa [Lexeme.inTemplate] using more.letters

theorem Suffixes.letters {marks all : Marks} (h : Suffixes marks ts all) : ∀ t ∈ ts, t.lexeme.inName = true := by
  induction h with
  | none => simp
  | paste _ _ _ _ _ ih => simpa [Lexeme.inName] using ih

theorem inLeaf_of_inType {l : Lexeme} (h : l.inType = true) : l.inLeaf = true := by
  unfold Lexeme.inType at h
  split at h
  case h_6 => cases h
  all_goals rfl

theorem inLeaf_of_inTemplate {l : Lexeme} (h : l.inTemplate = true) : l.inLeaf = true := by
  unfold Lexeme.inTemplate at h
  split at h
  · rfl
  · rfl
  · cases h

theorem Names.leaf (h : Names ts ident) : ∀ t ∈ ts, t.lexeme.inLeaf = true :=
  fun t member => inLeaf_of_inType (h.inType t member)

theorem TypeName.leaf (h : TypeName ts type) : ∀ t ∈ ts, t.lexeme.inLeaf = true :=
  fun t member => inLeaf_of_inType (h.letters t member)

theorem Suffixes.leaf {marks all : Marks} (h : Suffixes marks ts all) : ∀ t ∈ ts, t.lexeme.inLeaf = true :=
  fun t member => inLeaf_of_inType (inType_of_inName (h.letters t member))

theorem Template.leaf {lines : List String} (h : Template ts lines) : ∀ t ∈ ts, t.lexeme.inLeaf = true :=
  fun t member => inLeaf_of_inTemplate (h.letters t member)

theorem Clobbers.leaf {texts : List String} (h : Clobbers ts texts) : ∀ t ∈ ts, t.lexeme.inLeaf = true :=
  fun t member => inLeaf_of_inTemplate (h.letters t member)

theorem Pieces.leaf {pieces : List Expr} (h : Pieces ts pieces) : ∀ t ∈ ts, t.lexeme.inLeaf = true := by
  induction h with
  | nil => simp
  | text _ _ _ ih | mark _ _ _ _ ih => simpa [Lexeme.inLeaf] using ih

theorem isPlain_of_inLeaf {l : Lexeme} (h : l.inLeaf = true) : l.isPlain = true := by
  cases l with
  | punct p => cases p <;> first | rfl | cases h
  | keyword k => cases k <;> first | rfl | cases h
  | _ => rfl

theorem plain_of_leaf (leaf : ∀ t ∈ ts, t.lexeme.inLeaf = true) : ∀ t ∈ ts, t.lexeme.isPlain = true :=
  fun t member => isPlain_of_inLeaf (leaf t member)

theorem OperandName.plain {label : Option String} (h : OperandName ts label) :
    ∀ t ∈ ts, t.lexeme.isPlain = true := by
  cases h <;> simp [Lexeme.isPlain, Lexeme.isForeign, Lexeme.endsStatement]

theorem UnaryOp.isPlain_punct (op : UnaryOp) : Lexeme.isPlain (.punct op.punct) = true := by
  cases op <;> rfl

theorem BinaryOp.isPlain_punct (op : BinaryOp) : Lexeme.isPlain (.punct op.punct) = true := by
  cases op <;> rfl

theorem AssignOp.isPlain_punct (op : AssignOp) : Lexeme.isPlain (.punct op.punct) = true := by
  cases op <;> rfl

def Phrase.admits : Phrase → Lexeme → Bool
  | .statement | .branch | .statements => fun l => !l.isForeign
  | _ => Lexeme.isPlain

theorem Phrase.admits_of_isPlain {l : Lexeme} (plain : l.isPlain = true) (phrase : Phrase) :
    phrase.admits l = true := by
  unfold Phrase.admits
  split
  all_goals first | exact plain | exact (Bool.and_eq_true_iff.mp plain).1

theorem Derives.admits {phrase : Phrase} {tree : phrase.Tree} (h : Derives phrase ts tree) :
    ∀ t ∈ ts, phrase.admits t.lexeme = true := by
  induction h with
  | name names => exact plain_of_leaf names.leaf
  | number _ _ _ pasted => exact List.forall_mem_cons.mpr ⟨rfl, plain_of_leaf pasted.leaf⟩
  | character => simp [Phrase.admits, Lexeme.isPlain, Lexeme.isForeign, Lexeme.endsStatement]
  | piece pieces | pieces pieces => exact plain_of_leaf pieces.leaf
  | base _ _ ih | closed _ _ ih | chained _ ih | tighter _ _ _ ih => exact ih
  | field isArrow _ _ names ih =>
    simp only [List.forall_mem_append, List.forall_mem_cons]
    exact ⟨ih, by cases isArrow <;> rfl, plain_of_leaf names.leaf⟩
  | assembly _ _ _ _ _ _ marked more _ opener behind =>
    simp only [List.forall_mem_append, List.forall_mem_cons]
    refine ⟨⟨⟨⟨opener, ?_⟩, rfl, rfl, plain_of_leaf more.leaf⟩, behind⟩, rfl, by simp⟩
    intro t member
    rw [marked.letters t member]
    rfl
  | cast _ _ type _ ih =>
    simp only [List.forall_mem_append, List.forall_mem_cons]
    exact ⟨⟨rfl, plain_of_leaf type.leaf⟩, rfl, ih⟩
  | operand _ _ _ _ _ named _ ih =>
    simp only [List.forall_mem_append, List.forall_mem_cons]
    exact ⟨⟨named.plain, rfl, rfl, ih⟩, rfl, by simp⟩
  | clobbers _ _ _ _ _ clobbered written read =>
    simp only [List.forall_mem_append, List.forall_mem_cons]
    exact ⟨⟨⟨rfl, written⟩, rfl, read⟩, rfl, plain_of_leaf clobbered.leaf⟩
  | loop _ _ _ _ _ _ stop inner condition =>
    simp only [List.forall_mem_append, List.forall_mem_cons]
    refine ⟨⟨⟨rfl, inner⟩, rfl, rfl, fun t member => Phrase.admits_of_isPlain (condition t member) _⟩, rfl, ?_⟩
    intro t member
    rw [stop.letters t member]
    rfl
  | declare _ _ _ static typed late _ names _ ih =>
    simp only [List.forall_mem_append, List.forall_mem_cons]
    refine ⟨⟨⟨⟨⟨?_, ?_⟩, ?_⟩, ?_⟩, rfl, ?_⟩, rfl, by simp⟩
    · intro t member
      rw [static.letters t member]
      rfl
    · exact fun t member => Phrase.admits_of_isPlain (plain_of_leaf typed.leaf t member) _
    · intro t member
      rw [late.letters t member]
      rfl
    · exact fun t member => Phrase.admits_of_isPlain (plain_of_leaf names.leaf t member) _
    · exact fun t member => Phrase.admits_of_isPlain (ih t member) _
  | parens _ _ _ ih => simpa [or_imp, forall_and, Phrase.admits] using ⟨rfl, ih, rfl⟩
  | call _ _ _ _ callee inner =>
    simp only [List.forall_mem_append, List.forall_mem_cons]
    exact ⟨⟨callee, rfl, inner⟩, rfl, by simp⟩
  | @step _ _ op _ _ _ ih =>
    simp only [List.forall_mem_append, List.forall_mem_cons]
    exact ⟨ih, op.isPlain_punct, by simp⟩
  | addressOf _ _ ih | outputs _ _ ih => exact List.forall_mem_cons.mpr ⟨rfl, ih⟩
  | before op _ _ ih => exact List.forall_mem_cons.mpr ⟨op.isPlain_punct, ih⟩
  | binary op _ _ _ first second =>
    exact List.forall_mem_append.mpr ⟨first, List.forall_mem_cons.mpr ⟨op.isPlain_punct, second⟩⟩
  | ternary _ _ _ _ _ test first second =>
    simp only [List.forall_mem_append, List.forall_mem_cons]
    exact ⟨⟨test, rfl, first⟩, rfl, second⟩
  | assign op _ _ _ first second =>
    exact List.forall_mem_append.mpr ⟨first, List.forall_mem_cons.mpr ⟨op.isPlain_punct, second⟩⟩
  | noArguments | noOperands | noSections | noStatements => simp
  | argument _ ih | oneOperand _ ih | splicedBranch _ ih | bareBranch _ _ ih => exact ih
  | moreArguments _ _ _ _ first last | moreOperands _ _ _ _ first last =>
    exact List.forall_mem_append.mpr ⟨first, List.forall_mem_cons.mpr ⟨rfl, last⟩⟩
  | inputs _ _ _ _ written read =>
    simp only [List.forall_mem_append, List.forall_mem_cons]
    exact ⟨⟨rfl, written⟩, rfl, read⟩
  | block _ _ _ ih =>
    simp only [List.forall_mem_append, List.forall_mem_cons]
    exact ⟨⟨rfl, ih⟩, rfl, by simp⟩
  | choice _ _ _ _ _ condition whenTrue =>
    simp only [List.forall_mem_append, List.forall_mem_cons]
    exact ⟨⟨rfl, rfl, fun t member => Phrase.admits_of_isPlain (condition t member) _⟩, rfl, whenTrue⟩
  | choiceElse _ _ _ _ _ _ _ condition whenTrue whenFalse =>
    simp only [List.forall_mem_append, List.forall_mem_cons]
    exact ⟨⟨⟨rfl, rfl, fun t member => Phrase.admits_of_isPlain (condition t member) _⟩, rfl, whenTrue⟩, rfl,
      whenFalse⟩
  | eval _ _ ih =>
    simp only [List.forall_mem_append, List.forall_mem_cons]
    exact ⟨fun t member => Phrase.admits_of_isPlain (ih t member) _, rfl, by simp⟩
  | moreStatements _ _ first last => exact List.forall_mem_append.mpr ⟨first, last⟩

end MacroLift
