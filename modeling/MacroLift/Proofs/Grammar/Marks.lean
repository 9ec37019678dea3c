import MacroLift.Proofs.Grammar.Body
import MacroLift.Proofs.Tree.Nodes

namespace MacroLift

def Lexeme.isMark : Lexeme → Bool
  | .punct p => [.ampersand, .leftBracket, .rightBracket].contains p
  | _ => false

def Node.isMarked : Node → Bool
  | .expr (.addressOf _ _) => true
  | .operand (.mk _ (some _) _ _) => true
  | _ => false

/-- The ampersands and brackets among the tokens are those of the nodes, one for one and in this order. -/
inductive Marked : List Token → List Node → Prop where
  | nil : Marked [] []
  | token {ts : List Token} {nodes : List Node} {t : Token} (plain : t.lexeme.isMark = false)
      (more : Marked ts nodes) : Marked (t :: ts) nodes
  | node {ts : List Token} {nodes : List Node} {node : Node} (plain : node.isMarked = false)
      (more : Marked ts nodes) : Marked ts (node :: nodes)
  | address {ts : List Token} {nodes : List Node} (pos : Pos) (operand : Expr) (more : Marked ts nodes) :
      Marked (⟨.punct .ampersand, pos⟩ :: ts) (.expr (.addressOf pos operand) :: nodes)
  | label {ts : List Token} {nodes : List Node} (openPos pos closePos : Pos) (name constraint : String)
      (value : Expr) (more : Marked ts nodes) :
      Marked
        (⟨.punct .leftBracket, openPos⟩ :: ⟨.name name, pos⟩ :: ⟨.punct .rightBracket, closePos⟩ :: ts)
        (.operand (.mk openPos (some name) constraint value) :: nodes)

variable {ts us : List Token} {ns ms : List Node}

theorem Marked.append (first : Marked ts ns) (second : Marked us ms) : Marked (ts ++ us) (ns ++ ms) := by
  induction first with
  | nil => exact second
  | token plain _ ih => exact .token plain ih
  | node plain _ ih => exact .node plain ih
  | address pos operand _ ih => exact .address pos operand ih
  | label openPos pos closePos name constraint value _ ih =>
    exact .label openPos pos closePos name constraint value ih

theorem Marked.drop {node : Node} (h : Marked ts (node :: ns)) (plain : node.isMarked = false) : Marked ts ns := by
  generalize same : node :: ns = ms at h
  induction h with
  | nil => cases same
  | token other _ ih => exact .token other (ih same)
  | node _ more =>
    cases same
    exact more
  | address | label =>
    cases same
    cases plain

theorem marked_of_plain (plain : ∀ t ∈ ts, t.lexeme.isMark = false) : Marked ts [] := by
  induction ts with
  | nil => exact .nil
  | cons t ts ih =>
    rw [List.forall_mem_cons] at plain
    exact .token plain.1 (ih plain.2)

theorem Marked.alone (h : Marked ts ns) : Marked ts (ns ++ []) := by
  rwa [List.append_nil]

theorem Marked.behind (second : Marked us ns) (plain : ∀ t ∈ ts, t.lexeme.isMark = false) :
    Marked (ts ++ us) ns :=
  (marked_of_plain plain).append second

theorem Marked.before (first : Marked ts ns) (plain : ∀ t ∈ us, t.lexeme.isMark = false) :
    Marked (ts ++ us) ns := by
  have all := first.append (marked_of_plain plain)
  rwa [List.append_nil] at all

theorem Marked.inParens (inner : Marked ts ns) (openPos closePos : Pos) :
    Marked (⟨.punct .leftParen, openPos⟩ :: ts ++ [⟨.punct .rightParen, closePos⟩]) ns :=
  .token rfl (inner.before (by simp [Lexeme.isMark]))

theorem isMark_of_inLeaf {l : Lexeme} (h : l.inLeaf = true) : l.isMark = false := by
  cases l with
  | punct p => cases p <;> first | rfl | cases h
  | _ => rfl

theorem noMark_of_leaf (leaf : ∀ t ∈ ts, t.lexeme.inLeaf = true) : ∀ t ∈ ts, t.lexeme.isMark = false :=
  fun t member => isMark_of_inLeaf (leaf t member)

theorem Pieces.marked {pieces : List Expr} (h : Pieces ts pieces) : Marked ts (nodesOfExprs pieces) := by
  induction h with
  | nil => exact .nil
  | text _ _ _ ih => exact .node rfl (.token rfl ih)
  | mark _ _ _ _ ih => exact .node rfl (.token rfl (.token rfl ih))

theorem UnaryOp.isMark_punct (op : UnaryOp) : Lexeme.isMark (.punct op.punct) = false := by
  cases op <;> rfl

theorem BinaryOp.isMark_punct (op : BinaryOp) : Lexeme.isMark (.punct op.punct) = false := by
  cases op <;> rfl

theorem AssignOp.isMark_punct (op : AssignOp) : Lexeme.isMark (.punct op.punct) = false := by
  cases op <;> rfl

@[simp] def Phrase.nodes : (phrase : Phrase) → phrase.Tree → List Node
  | .expr _, e | .chain, e => e.nodes
  | .arguments, es => nodesOfExprs es
  | .operand, o => o.nodes
  | .operands, os => nodesOfOperands os
  | .sections, parts => nodesOfOperands parts.1 ++ nodesOfOperands parts.2.1
  | .statement, s => s.nodes
  | .branch, ss | .statements, ss => nodesOfStmts ss

theorem Derives.marked {phrase : Phrase} {tree : phrase.Tree} (h : Derives phrase ts tree) :
    Marked ts (phrase.nodes tree) := by
  induction h with
  | name names => exact .node rfl (marked_of_plain (noMark_of_leaf names.leaf))
  | number _ _ _ pasted => exact .node rfl (.token rfl (marked_of_plain (noMark_of_leaf pasted.leaf)))
  | character => exact .node rfl (.token rfl .nil)
  | piece pieces =>
    have all := pieces.marked
    rwa [nodesOfExprs, nodesOfExprs, List.append_nil] at all
  | pieces pieces => exact .node rfl pieces.marked
  | parens openPos closePos _ ih => exact ih.inParens openPos closePos
  | base _ _ ih | closed _ _ ih | chained _ ih | tighter _ _ _ ih => exact ih
  | @call _ _ _ _ _ openPos closePos _ _ callee inner =>
    have behind := (callee.drop rfl).append (inner.inParens openPos closePos)
    rw [← List.append_assoc] at behind
    exact .node rfl behind
  | field isArrow _ _ names ih =>
    exact .node rfl (ih.before (List.forall_mem_cons.mpr ⟨by cases isArrow <;> rfl, noMark_of_leaf names.leaf⟩))
  | @step _ _ op _ _ _ ih => exact .node rfl (ih.before (List.forall_mem_cons.mpr ⟨op.isMark_punct, by simp⟩))
  | @assembly _ _ template _ _ _ _ _ _ _ openPos firstPos _ first _ _ marked more _ opener behind =>
    have plain : ∀ t ∈ (⟨.punct .leftParen, openPos⟩ : Token) :: ⟨.string first, firstPos⟩ :: template,
        t.lexeme.isMark = false :=
      List.forall_mem_cons.mpr ⟨rfl, List.forall_mem_cons.mpr ⟨rfl, noMark_of_leaf more.leaf⟩⟩
    have front := ((opener.drop rfl).before (marked.none rfl)).before plain
    exact .node rfl ((front.append behind).before (by simp [Lexeme.isMark]))
  | cast openPos closePos type _ ih =>
    refine .node rfl (.token rfl (Marked.behind (.token rfl ih) (noMark_of_leaf type.leaf)))
  | addressOf pos _ ih => exact .address pos _ ih
  | before op pos _ ih => exact .node rfl (.token op.isMark_punct ih)
  | binary op pos _ _ first second => exact .node rfl (first.append (.token op.isMark_punct second))
  | ternary _ _ _ _ _ test first second =>
    exact .node rfl ((test.append (.token rfl first)).append (.token rfl second))
  | assign op pos _ _ first second => exact .node rfl (first.append (.token op.isMark_punct second))
  | noArguments | noOperands | noSections | noStatements => exact .nil
  | argument _ ih => exact ih.alone
  | moreArguments commaPos _ _ _ first last =>
    have all := first.append (.token (t := ⟨.punct .comma, commaPos⟩) rfl last)
    simpa using all
  | operand constraintPos openPos closePos constraint start named _ ih =>
    have value := Marked.token (t := ⟨.string constraint, constraintPos⟩) rfl (ih.inParens openPos closePos)
    cases named with
    | none => exact .node rfl value
    | bracketed =>
      cases start
      exact .label _ _ _ _ _ _ value
  | oneOperand _ ih => exact ih.alone
  | moreOperands commaPos _ _ _ first last =>
    have all := first.append (.token (t := ⟨.punct .comma, commaPos⟩) rfl last)
    simpa using all
  | outputs _ _ ih => exact .token rfl ih.alone
  | inputs _ _ _ _ written read => exact .token rfl (written.append (.token rfl read))
  | @clobbers _ _ vs _ _ _ pos nextPos lastPos _ _ clobbered written read =>
    have plain : ∀ t ∈ (⟨.punct .colon, lastPos⟩ : Token) :: vs, t.lexeme.isMark = false :=
      List.forall_mem_cons.mpr ⟨rfl, noMark_of_leaf clobbered.leaf⟩
    exact .token rfl ((written.append (.token (t := ⟨.punct .colon, nextPos⟩) rfl read)).before plain)
  | block _ _ _ ih => exact .node rfl (.token rfl (ih.before (by simp [Lexeme.isMark])))
  | choice _ openPos closePos _ _ condition whenTrue =>
    have all := (condition.inParens openPos closePos).append whenTrue
    refine .node rfl (.token rfl ?_)
    simpa using all
  | choiceElse _ openPos closePos elsePos _ _ _ condition whenTrue whenFalse =>
    have all := ((condition.inParens openPos closePos).append whenTrue).append
      (.token (t := ⟨.keyword .elseKw, elsePos⟩) rfl whenFalse)
    refine .node rfl (.token rfl ?_)
    simpa using all
  | loop _ whilePos openPos closePos _ _ stop inner condition =>
    have test := (condition.inParens openPos closePos).before (stop.none rfl)
    have all := inner.append (.token (t := ⟨.keyword .whileKw, whilePos⟩) rfl test)
    refine .node rfl (.token rfl ?_)
    simpa using all
  | declare assignPos stopPos _ static typed late _ names _ ih =>
    have front :=
      ((marked_of_plain (static.none rfl)).before (noMark_of_leaf typed.leaf)).before (late.none rfl)
    have head := front.before (noMark_of_leaf names.leaf)
    exact .node rfl ((head.append (.token rfl ih)).before (by simp [Lexeme.isMark]))
  | eval _ _ ih => exact .node rfl (ih.before (by simp [Lexeme.isMark]))
  | splicedBranch _ ih => exact ih.drop rfl
  | bareBranch _ _ ih => exact ih.alone
  | moreStatements _ _ first last =>
    have all := first.append last
    simpa using all

theorem Derives.notForeign {phrase : Phrase} {tree : phrase.Tree} (h : Derives phrase ts tree) :
    ∀ t ∈ ts, t.lexeme.isForeign = false := by
  intro t member
  have admitted := h.admits t member
  unfold Phrase.admits at admitted
  split at admitted
  all_goals simp_all [Lexeme.isPlain]

variable {setting : Setting} {b : Body}

theorem DerivesBody.marked (h : DerivesBody setting ts b) : Marked ts b.nodes := by
  cases h with
  | empty => exact .node rfl .nil
  | statement _ inner | expression _ inner => exact inner.marked

theorem DerivesBody.notForeign (h : DerivesBody setting ts b) : ∀ t ∈ ts, t.lexeme.isForeign = false := by
  cases h with
  | empty => simp
  | statement _ inner | expression _ inner => exact inner.notForeign

/-- All the tokens of an accepted body derive its tree. No operator outside the grammar is among them, each
    ampersand takes an address, and brackets stand around the names of assembly operands only. -/
theorem accepted_derives (accepted : Parser.body setting ts = .ok b) :
    DerivesBody setting ts b ∧ (∀ t ∈ ts, t.lexeme.isForeign = false) ∧ Marked ts b.nodes := by
  have derived := (readsBody_of_body accepted).derives
  exact ⟨derived, derived.notForeign, derived.marked⟩

theorem accepted_derives_assembly :
    let ts : List Token :=
      [⟨.name "__asm", ⟨1, 1⟩⟩, ⟨.punct .leftParen, ⟨1, 6⟩⟩, ⟨.string "\"nop\"", ⟨1, 7⟩⟩, ⟨.punct .colon, ⟨1, 13⟩⟩,
        ⟨.punct .leftBracket, ⟨1, 15⟩⟩, ⟨.name "r", ⟨1, 16⟩⟩, ⟨.punct .rightBracket, ⟨1, 17⟩⟩,
        ⟨.string "\"=r\"", ⟨1, 19⟩⟩, ⟨.punct .leftParen, ⟨1, 23⟩⟩, ⟨.punct .ampersand, ⟨1, 24⟩⟩,
        ⟨.name "x", ⟨1, 25⟩⟩, ⟨.punct .rightParen, ⟨1, 26⟩⟩, ⟨.punct .rightParen, ⟨1, 27⟩⟩]
    let address : Expr := .addressOf ⟨1, 24⟩ (.name ⟨1, 25⟩ (.simple ⟨1, 25⟩ "x"))
    let b : Body :=
      .expression ⟨1, 1⟩ (.assembly ⟨1, 1⟩ ["\"nop\""] [.mk ⟨1, 15⟩ (some "r") "\"=r\"" address] [] [] false)
    DerivesBody ⟨⟨1, 28⟩, ["x"]⟩ ts b ∧ (∀ t ∈ ts, t.lexeme.isForeign = false) ∧ Marked ts b.nodes :=
  accepted_derives (by rfl)

end MacroLift
