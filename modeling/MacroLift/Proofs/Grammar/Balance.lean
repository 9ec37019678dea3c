import MacroLift.Proofs.Grammar.Lexemes

namespace MacroLift

variable {ts us : List Token}

/-- How many parentheses are open behind some tokens, if no more are closed than opened. -/
def openAfter : Nat → List Token → Option Nat
  | depth, [] => some depth
  | depth, t :: ts =>
    match t.lexeme with
    | .punct .leftParen => openAfter (depth + 1) ts
    | .punct .rightParen =>
      match depth with
      | 0 => none
      | depth + 1 => openAfter depth ts
    | _ => openAfter depth ts

def Balanced (ts : List Token) : Prop :=
  ∀ depth, openAfter depth ts = some depth

def Lexeme.isParen : Lexeme → Bool
  | .punct .leftParen | .punct .rightParen => true
  | _ => false

theorem openAfter_cons {t : Token} (other : t.lexeme.isParen = false) (depth : Nat) (ts : List Token) :
    openAfter depth (t :: ts) = openAfter depth ts := by
  rw [openAfter.eq_def]
  dsimp only
  split
  case h_1 paren | h_2 paren =>
    rw [paren] at other
    cases other
  case h_3 => rfl

theorem openAfter_append (depth : Nat) (ts us : List Token) :
    openAfter depth (ts ++ us) = (openAfter depth ts).bind (openAfter · us) := by
  fun_induction openAfter depth ts with
  | case1 => rfl
  | case2 depth t ts open_ ih => simp [openAfter, open_, ih]
  | case3 t ts close => simp [openAfter, close]
  | case4 t ts close depth ih => simp [openAfter, close, ih]
  | case5 depth t ts notOpen notClose ih =>
    have other : t.lexeme.isParen = false := by
      unfold Lexeme.isParen
      split
      · exact absurd ‹_› notOpen
      · exact absurd ‹_› notClose
      · rfl
    rw [List.cons_append, openAfter_cons other, ih]

@[simp] theorem balanced_nil : Balanced [] := fun _ => rfl

theorem Balanced.append (first : Balanced ts) (second : Balanced us) : Balanced (ts ++ us) := by
  intro depth
  rw [openAfter_append, first depth]
  exact second depth

theorem Balanced.parens (inner : Balanced ts) (openPos closePos : Pos) :
    Balanced (⟨.punct .leftParen, openPos⟩ :: ts ++ [⟨.punct .rightParen, closePos⟩]) := by
  intro depth
  change openAfter (depth + 1) (ts ++ _) = _
  rw [openAfter_append, inner (depth + 1)]
  rfl

theorem Balanced.cons {t : Token} (other : t.lexeme.isParen = false) (more : Balanced ts) :
    Balanced (t :: ts) := by
  intro depth
  rw [openAfter_cons other]
  exact more depth

theorem Balanced.then {t : Token} (first : Balanced ts) (other : t.lexeme.isParen = false) (second : Balanced us) :
    Balanced (ts ++ t :: us) :=
  first.append (second.cons other)

theorem Balanced.parensThen (inner : Balanced ts) (openPos closePos : Pos) (more : Balanced us) :
    Balanced (⟨.punct .leftParen, openPos⟩ :: ts ++ ⟨.punct .rightParen, closePos⟩ :: us) := by
  simpa using (inner.parens openPos closePos).append more

theorem balanced_of_forall (others : ∀ t ∈ ts, t.lexeme.isParen = false) : Balanced ts := by
  induction ts with
  | nil => exact balanced_nil
  | cons t ts ih =>
    obtain ⟨first, more⟩ := List.forall_mem_cons.mp others
    exact .cons first (ih more)

theorem balanced_of_letters {p : Lexeme → Bool} (letters : ∀ t ∈ ts, p t.lexeme = true)
    (noOpen : p (.punct .leftParen) = false) (noClose : p (.punct .rightParen) = false) : Balanced ts := by
  refine balanced_of_forall fun t member => ?_
  have letter := letters t member
  unfold Lexeme.isParen
  split
  case h_1 paren =>
    rw [paren, noOpen] at letter
    cases letter
  case h_2 paren =>
    rw [paren, noClose] at letter
    cases letter
  case h_3 => rfl

theorem Balanced.eq_of_append_close {ts' us' : List Token} {pos pos' : Pos} (first : Balanced ts)
    (second : Balanced us)
    (same : ts ++ ⟨.punct .rightParen, pos⟩ :: ts' = us ++ ⟨.punct .rightParen, pos'⟩ :: us') :
    ts = us := by
  have short : ∀ {xs ys : List Token}, Balanced xs → Balanced ys → ∀ {p : Pos} {zs : List Token},
      xs ≠ ys ++ ⟨.punct .rightParen, p⟩ :: zs := by
    intro xs ys whole part p zs eq
    have depth := whole 0
    rw [eq, openAfter_append, part 0] at depth
    cases depth
  rcases split_cases same with ⟨ws, rfl, -⟩ | ⟨rfl, -⟩ | ⟨ws, rfl, -⟩
  · exact absurd rfl (short first second)
  · rfl
  · exact absurd rfl (short second first)

theorem balanced_of_leaf (leaf : ∀ t ∈ ts, t.lexeme.inLeaf = true) : Balanced ts :=
  balanced_of_letters leaf rfl rfl

theorem Optional.balanced {lexeme : Lexeme} {found : Bool} (h : Optional lexeme ts found)
    (other : lexeme.isParen = false) : Balanced ts := by
  cases h with
  | absent => exact balanced_nil
  | present => exact .cons other balanced_nil

theorem OperandName.balanced {label : Option String} (h : OperandName ts label) : Balanced ts := by
  cases h with
  | none => exact balanced_nil
  | bracketed => exact .cons rfl (.cons rfl (.cons rfl balanced_nil))

theorem UnaryOp.isParen_punct (op : UnaryOp) : Lexeme.isParen (.punct op.punct) = false := by
  cases op <;> rfl

theorem BinaryOp.isParen_punct (op : BinaryOp) : Lexeme.isParen (.punct op.punct) = false := by
  cases op <;> rfl

theorem AssignOp.isParen_punct (op : AssignOp) : Lexeme.isParen (.punct op.punct) = false := by
  cases op <;> rfl

theorem Derives.balanced {phrase : Phrase} {tree : phrase.Tree} (h : Derives phrase ts tree) : Balanced ts := by
  induction h with
  | name names => exact balanced_of_leaf names.leaf
  | number _ _ _ pasted => exact .cons rfl (balanced_of_leaf pasted.leaf)
  | character => exact .cons rfl balanced_nil
  | piece pieces | pieces pieces => exact balanced_of_leaf pieces.leaf
  | parens openPos closePos _ ih => exact ih.parens openPos closePos
  | base _ _ ih | closed _ _ ih | chained _ ih | tighter _ _ _ ih => exact ih
  | call openPos closePos _ _ callee inner =>
    rw [List.append_assoc]
    exact callee.append (inner.parens openPos closePos)
  | field isArrow _ _ names ih => exact ih.then (by cases isArrow <;> rfl) (balanced_of_leaf names.leaf)
  | @step _ _ op _ _ _ ih => exact ih.then op.isParen_punct balanced_nil
  | assembly openPos firstPos closePos first _ _ marked more _ opener behind =>
    rw [List.append_assoc, List.append_assoc]
    refine (opener.append (marked.balanced rfl)).append ?_
    have inner := ((balanced_of_leaf more.leaf).append behind).cons (t := ⟨.string first, firstPos⟩) rfl
    simpa using inner.parens openPos closePos
  | cast openPos closePos type _ ih => exact (balanced_of_leaf type.leaf).parensThen openPos closePos ih
  | addressOf _ _ ih => exact .cons rfl ih
  | before op _ _ ih => exact .cons op.isParen_punct ih
  | binary op _ _ _ first second => exact first.then op.isParen_punct second
  | ternary _ _ _ _ _ test first second => exact (test.then rfl first).then rfl second
  | assign op _ _ _ first second => exact first.then op.isParen_punct second
  | noArguments | noOperands | noSections | noStatements => exact balanced_nil
  | argument _ ih | oneOperand _ ih | splicedBranch _ ih | bareBranch _ _ ih => exact ih
  | moreArguments _ _ _ _ first last | moreOperands _ _ _ _ first last => exact first.then rfl last
  | operand _ openPos closePos _ _ named _ ih =>
    rw [List.append_assoc]
    exact named.balanced.then rfl (ih.parens openPos closePos)
  | outputs _ _ ih => exact .cons rfl ih
  | inputs _ _ _ _ written read => exact (written.cons rfl).then rfl read
  | clobbers _ _ _ _ _ clobbered written read =>
    exact ((written.cons rfl).then rfl read).then rfl (balanced_of_leaf clobbered.leaf)
  | block _ _ _ ih => exact (Balanced.cons rfl ih).then rfl balanced_nil
  | choice _ openPos closePos _ _ condition whenTrue =>
    exact .cons rfl (condition.parensThen openPos closePos whenTrue)
  | choiceElse _ openPos closePos _ _ _ _ condition whenTrue whenFalse =>
    exact (Balanced.cons rfl (condition.parensThen openPos closePos whenTrue)).then rfl whenFalse
  | loop _ _ openPos closePos _ _ stop inner condition =>
    have test := condition.parensThen openPos closePos (stop.balanced rfl)
    rw [List.append_assoc]
    exact (inner.cons rfl).then rfl test
  | declare _ _ _ static typed late _ names _ ih =>
    have header := ((static.balanced rfl).append (balanced_of_leaf typed.leaf)).append (late.balanced rfl)
    rw [List.append_assoc]
    exact (header.append (balanced_of_leaf names.leaf)).then rfl (ih.then rfl balanced_nil)
  | eval _ _ ih => exact ih.then rfl balanced_nil
  | moreStatements _ _ first last => exact first.append last

end MacroLift
