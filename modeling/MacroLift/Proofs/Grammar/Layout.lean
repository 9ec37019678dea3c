import MacroLift.Proofs.Grammar.Body
import MacroLift.Proofs.Grammar.Layout.Leaf

namespace MacroLift

open MacroLift.Parser

variable {ts us : List Token}

@[simp] theorem Ident.isOneOf_unplaced (names : List String) (ident : Ident) :
    ident.unplaced.isOneOf names = ident.isOneOf names := by
  cases ident <;> rfl

@[simp] theorem bareName?_unplaced (type : CType) : bareName? type.unplaced = bareName? type := by
  cases type with
  | named _ ident => cases ident <;> rfl
  | pointer => rfl

@[simp] theorem isClosed_unplaced (e : Expr) : isClosed e.unplaced = isClosed e := by
  cases e <;> rfl

@[simp] theorem opensAssembly_unplaced (e : Expr) : opensAssembly e.unplaced = opensAssembly e := by
  cases e with
  | name _ ident => cases ident <;> rfl
  | _ => rfl

theorem InParens.relaid {ident : Ident} (h : InParens ts ident) (same : SameText ts us) :
    ∃ ident', InParens us ident' ∧ ident'.unplaced = ident.unplaced := by
  obtain ⟨openPos, name, closePos, rfl, names⟩ := h
  simp only [sameText_append, sameText_cons, sameText_nil] at same
  obtain ⟨_, _, rfl, ⟨openPos, name', rfl, inner⟩, closePos, _, rfl, rfl⟩ := same
  obtain ⟨ident', names', alike⟩ := names.relaid inner
  exact ⟨ident', ⟨openPos, name', closePos, rfl, names'⟩, alike⟩

theorem MayCast.relaid {parameters : List String} {next : Option Lexeme} (h : MayCast parameters ts next)
    (same : SameText ts us) : MayCast parameters us next := by
  obtain ⟨ident, parens, starts, allowed⟩ := h
  obtain ⟨ident', parens', alike⟩ := parens.relaid same
  rw [← ident.isOneOf_unplaced, ← alike, ident'.isOneOf_unplaced] at allowed
  exact ⟨ident', parens', starts, allowed⟩

theorem IsTemplate.relaid (h : IsTemplate ts) (same : SameText ts us) : IsTemplate us := by
  obtain ⟨pos, first, rest, lines, rfl, template⟩ := h
  simp only [sameText_cons] at same
  obtain ⟨pos', rest', rfl, same⟩ := same
  exact ⟨pos', first, rest', lines, rfl, template.relaid same⟩

theorem OpensDeclaration.relaid (h : OpensDeclaration ts) (same : SameText ts us) : OpensDeclaration us := by
  obtain ⟨type, starPos, name, assignPos, rest, typeName, declared, rfl, typed, named⟩ := h
  simp only [sameText_append, sameText_cons] at same
  obtain ⟨_, _, rfl, ⟨type', _, rfl, first, starPos', name', rfl, second⟩, assignPos', rest', rfl, -⟩ := same
  obtain ⟨typeName', typed', -⟩ := typed.relaid first
  obtain ⟨declared', named', -⟩ := named.relaid second
  exact ⟨type', starPos', name', assignPos', rest', typeName', declared', rfl, typed', named'⟩

theorem Ident.eq_simple_of_unplaced {ident : Ident} {name : String} (h : ident.unplaced = .simple nowhere name) :
    ∃ pos, ident = .simple pos name := by
  cases ident with
  | simple pos text =>
    cases h
    exact ⟨pos, rfl⟩
  | pasted => cases h

theorem Expr.eq_name_of_unplaced {e : Expr} {ident : Ident} (h : e.unplaced = .name nowhere ident.unplaced) :
    ∃ pos' ident', e = .name pos' ident' ∧ ident'.unplaced = ident.unplaced := by
  cases e with
  | name pos' ident' => exact ⟨pos', ident', rfl, (Expr.name.inj h).2⟩
  | _ => cases h

theorem Stmt.eq_block_of_unplaced {s : Stmt} {body : List Stmt}
    (h : s.unplaced = .block nowhere (unplacedStmts body)) :
    ∃ pos' body', s = .block pos' body' ∧ unplacedStmts body' = unplacedStmts body := by
  cases s with
  | block pos' body' => exact ⟨pos', body', rfl, (Stmt.block.inj h).2⟩
  | _ => cases h

theorem eq_cons_of_unplaced {es more : List Expr} {e : Expr} (h : unplacedExprs es = unplacedExprs (e :: more)) :
    ∃ e' more', es = e' :: more' ∧ e'.unplaced = e.unplaced ∧ unplacedExprs more' = unplacedExprs more := by
  cases es with
  | nil => cases h
  | cons e' more' => exact ⟨e', more', rfl, (List.cons.inj h).1, (List.cons.inj h).2⟩

theorem ne_nil_of_unplacedExprs {es fs : List Expr} (h : unplacedExprs fs = unplacedExprs es) (some : es ≠ []) :
    fs ≠ [] := by
  rintro rfl
  cases es with
  | nil => exact some rfl
  | cons => cases h

theorem ne_nil_of_unplacedOperands {os ps : List AsmOperand} (h : unplacedOperands ps = unplacedOperands os)
    (some : os ≠ []) : ps ≠ [] := by
  rintro rfl
  cases os with
  | nil => exact some rfl
  | cons => cases h

theorem isClosed_of_unplaced {e e' : Expr} (h : e'.unplaced = e.unplaced) : isClosed e' = isClosed e := by
  rw [← isClosed_unplaced e', h, isClosed_unplaced]

def Phrase.unplaced : (phrase : Phrase) → phrase.Tree → phrase.Tree
  | .expr _, e | .chain, e => e.unplaced
  | .arguments, es => unplacedExprs es
  | .operand, o => o.unplaced
  | .operands, os => unplacedOperands os
  | .sections, parts => (unplacedOperands parts.1, unplacedOperands parts.2.1, parts.2.2)
  | .statement, s => s.unplaced
  | .branch, ss | .statements, ss => unplacedStmts ss

/-- However a phrase is laid out, it reads as the same tree. -/
def Relaid (parameters : List String) (phrase : Phrase) (ts : List Token) (tree : phrase.Tree)
    (next : Option Lexeme) : Prop :=
  ∀ ⦃us : List Token⦄, SameText ts us →
    ∃ tree', Reads parameters phrase us tree' next ∧ phrase.unplaced tree' = phrase.unplaced tree

variable {vs : List Token} {parameters : List String} {next : Option Lexeme}

section

variable {phrase phrase' whole : Phrase} {tree : phrase.Tree} {tree' : phrase'.Tree} {all : whole.Tree}
  {lexeme closing : Lexeme} {oldPos oldClose : Pos}

theorem relaid_behind (relaid : Relaid parameters phrase ts tree next)
    (reads : ∀ ⦃us pos inner⦄, Reads parameters phrase us inner next →
      phrase.unplaced inner = phrase.unplaced tree →
        ∃ outer, Reads parameters whole (⟨lexeme, pos⟩ :: us) outer next ∧
          whole.unplaced outer = whole.unplaced all) :
    Relaid parameters whole (⟨lexeme, oldPos⟩ :: ts) all next := by
  intro xs same
  simp only [sameText_cons] at same
  obtain ⟨pos, us, rfl, same⟩ := same
  obtain ⟨inner, read, alike⟩ := relaid same
  exact reads read alike

theorem relaid_inside (relaid : Relaid parameters phrase ts tree (some closing))
    (reads : ∀ ⦃us pos closePos inner⦄, Reads parameters phrase us inner (some closing) →
      phrase.unplaced inner = phrase.unplaced tree →
        ∃ outer, Reads parameters whole (⟨lexeme, pos⟩ :: us ++ [⟨closing, closePos⟩]) outer next ∧
          whole.unplaced outer = whole.unplaced all) :
    Relaid parameters whole (⟨lexeme, oldPos⟩ :: ts ++ [⟨closing, oldClose⟩]) all next := by
  intro xs same
  simp only [sameText_append, sameText_cons, sameText_nil] at same
  obtain ⟨_, _, rfl, ⟨pos, us, rfl, same⟩, closePos, _, rfl, rfl⟩ := same
  obtain ⟨inner, read, alike⟩ := relaid same
  exact reads read alike

theorem relaid_joined (first : Relaid parameters phrase ts tree (some lexeme))
    (second : Relaid parameters phrase' us tree' next)
    (reads : ∀ ⦃vs ws pos left right⦄, Reads parameters phrase vs left (some lexeme) →
      Reads parameters phrase' ws right next → phrase.unplaced left = phrase.unplaced tree →
        phrase'.unplaced right = phrase'.unplaced tree' →
          ∃ outer, Reads parameters whole (vs ++ ⟨lexeme, pos⟩ :: ws) outer next ∧
            whole.unplaced outer = whole.unplaced all) :
    Relaid parameters whole (ts ++ ⟨lexeme, oldPos⟩ :: us) all next := by
  intro xs same
  simp only [sameText_append, sameText_cons] at same
  obtain ⟨vs, _, rfl, front, pos, ws, rfl, behind⟩ := same
  obtain ⟨left, first', alike⟩ := first front
  obtain ⟨right, second', alike'⟩ := second behind
  exact reads first' second' alike alike'

end

theorem relaid_name {ident : Ident} (names : Names ts ident) :
    Relaid parameters (.expr 10) ts (.name ident.pos ident) next := by
  intro us same
  obtain ⟨ident', names', alike⟩ := names.relaid same
  exact ⟨_, .name names', congrArg (Expr.name nowhere) alike⟩

theorem relaid_number {value : Number} {marks : Marks} {pos : Pos} {text : String}
    (found : Number.ofText? text = some value) (pasted : Suffixes value.marks ts marks)
    (unpasted : value.isFloat = true → ts = []) :
    Relaid parameters (.expr 10) (⟨.number text, pos⟩ :: ts) (.number pos { value with marks }) next := by
  intro us same
  simp only [sameText_cons] at same
  obtain ⟨pos, suffixes, rfl, same⟩ := same
  exact ⟨_, .number pos text found (pasted.relaid same) fun float => same.eq_nil (unpasted float), rfl⟩

theorem relaid_piece {e : Expr} (pieces : Pieces ts [e]) : Relaid parameters (.expr 10) ts e next := by
  intro us same
  obtain ⟨pieces', relaid, all⟩ := pieces.relaid same
  obtain ⟨e, more, rfl, alike, none⟩ := eq_cons_of_unplaced all
  cases more with
  | nil => exact ⟨e, .piece relaid, alike⟩
  | cons => cases none

theorem relaid_pieces {first second : Expr} {more : List Expr} (pieces : Pieces ts (first :: second :: more)) :
    Relaid parameters (.expr 10) ts (.concat first.pos (first :: second :: more)) next := by
  intro us same
  obtain ⟨pieces', relaid, alike⟩ := pieces.relaid same
  obtain ⟨first, _, rfl, -, behind⟩ := eq_cons_of_unplaced alike
  obtain ⟨second, more, rfl, -, -⟩ := eq_cons_of_unplaced behind
  exact ⟨_, .pieces relaid, congrArg (Expr.concat nowhere) alike⟩

theorem relaid_call {pos : Pos} {ident : Ident} {arguments : List Expr} {openPos closePos : Pos}
    (callee : Relaid parameters .chain ts (.name pos ident) (some (.punct .leftParen)))
    (inner : Relaid parameters .arguments us arguments (some (.punct .rightParen)))
    (noCast : MayCast parameters ts (some (.punct .leftParen)) → arguments.length ≠ 1)
    (noAssembly : opensAssembly (.name pos ident) = true → ¬ IsTemplate us) :
    Relaid parameters .chain (ts ++ ⟨.punct .leftParen, openPos⟩ :: us ++ [⟨.punct .rightParen, closePos⟩])
      (.call pos ident arguments) next := by
  intro xs same
  simp only [sameText_append, sameText_cons, sameText_nil] at same
  obtain ⟨_, _, rfl, ⟨_, _, rfl, front, openPos, _, rfl, middle⟩, closePos, _, rfl, rfl⟩ := same
  obtain ⟨f, callee', named⟩ := callee front
  obtain ⟨arguments', inner', alike⟩ := inner middle
  obtain ⟨pos', ident', rfl, called⟩ := Expr.eq_name_of_unplaced named
  dsimp only [Phrase.unplaced] at named alike
  refine ⟨_, .call openPos closePos callee' inner' ?_ ?_, ?_⟩
  · intro cast
    rw [← length_unplacedExprs, alike, length_unplacedExprs]
    exact noCast (cast.relaid front.symm)
  · intro opens template
    rw [← opensAssembly_unplaced, named, opensAssembly_unplaced] at opens
    exact noAssembly opens (template.relaid middle.symm)
  · simp only [Phrase.unplaced, Expr.unplaced, called, alike]

theorem relaid_field {e : Expr} {name : Ident} {isArrow : Bool} {pos : Pos}
    (relaid : Relaid parameters .chain ts e (some (.punct (if isArrow then .arrow else .dot))))
    (names : Names us name) :
    Relaid parameters .chain (ts ++ ⟨.punct (if isArrow then .arrow else .dot), pos⟩ :: us)
      (.field e.pos e name isArrow) next := by
  intro xs same
  simp only [sameText_append, sameText_cons] at same
  obtain ⟨_, _, rfl, front, pos, _, rfl, behind⟩ := same
  obtain ⟨e, owner, alike⟩ := relaid front
  obtain ⟨name, names', named⟩ := names.relaid behind
  exact ⟨_, .field isArrow pos owner names', by simp_all only [Phrase.unplaced, Expr.unplaced]⟩

theorem relaid_step {e : Expr} {op : UnaryOp} {pos : Pos} (isStep : op.isStep = true)
    (relaid : Relaid parameters .chain ts e (some (.punct op.punct))) (follow : followsOperand next = true)
    (noCast : MayCast parameters ts (some (.punct op.punct)) → next.any startsOperand = false) :
    Relaid parameters (.expr 9) (ts ++ [⟨.punct op.punct, pos⟩]) (.unary e.pos op .after e) next := by
  intro xs same
  simp only [sameText_append, sameText_cons, sameText_nil] at same
  obtain ⟨_, _, rfl, front, pos, _, rfl, rfl⟩ := same
  obtain ⟨e, inner, alike⟩ := relaid front
  exact ⟨_, .step pos isStep inner follow fun cast => noCast (cast.relaid front.symm),
    by simp_all only [Phrase.unplaced, Expr.unplaced]⟩

theorem relaid_assembly {head volatile template sections : List Token} {pos namePos : Pos} {word : String}
    {isVolatile : Bool} {lines : List String} {parts : List AsmOperand × List AsmOperand × List String}
    {openPos firstPos closePos : Pos} {first : String}
    (opener : Relaid parameters (.expr 10) head (.name pos (.simple namePos word))
      (ahead volatile (some (.punct .leftParen))))
    (isWord : isAssemblyWord word = true) (marked : Optional (.keyword .volatileKw) volatile isVolatile)
    (more : Template template lines)
    (behind : Relaid parameters .sections sections parts (some (.punct .rightParen)))
    (follow : followsOperand next = true)
    (noCast : MayCast parameters head (some (.punct .leftParen)) → volatile = [] → sections = [] →
      ∃ t ∈ template, t.lexeme = .punct .comma) :
    Relaid parameters (.expr 9)
      (head ++ volatile ++ ⟨.punct .leftParen, openPos⟩ :: ⟨.string first, firstPos⟩ :: template ++ sections ++
        [⟨.punct .rightParen, closePos⟩])
      (.assembly pos (first :: lines) parts.1 parts.2.1 parts.2.2 isVolatile) next := by
  intro xs same
  simp only [sameText_append, sameText_cons, sameText_nil] at same
  obtain ⟨_, _, rfl, ⟨_, sections, rfl, ⟨_, _, rfl, ⟨head, volatile, rfl, front, word⟩, openPos, _, rfl, firstPos,
    template, rfl, middle⟩, back⟩, closePos, _, rfl, rfl⟩ := same
  obtain ⟨f, opener', named⟩ := opener front
  obtain ⟨parts, behind', alike⟩ := behind back
  obtain ⟨pos', _, rfl, called⟩ := Expr.eq_name_of_unplaced named
  obtain ⟨namePos', rfl⟩ := Ident.eq_simple_of_unplaced called
  rw [← word.ahead] at opener'
  refine ⟨_, .assembly openPos firstPos closePos first opener' isWord (marked.relaid word) (more.relaid middle)
    behind' follow ?_, ?_⟩
  · intro cast noVolatile noSections
    obtain ⟨t, member, comma⟩ := noCast (cast.relaid front.symm) (word.symm.eq_nil noVolatile)
      (back.symm.eq_nil noSections)
    exact middle.mem member comma
  · obtain ⟨outs, ins, texts⟩ := parts
    simp_all only [Phrase.unplaced, Expr.unplaced, Prod.mk.injEq]

theorem relaid_cast {target : CType} {e : Expr} {openPos closePos : Pos} (type : TypeName ts target)
    (relaid : Relaid parameters (.expr 8) us e next)
    (noParameter : ¬ ((bareName? target).any parameters.contains = true ∧
      (ahead us next).any continuesOperand = true)) :
    Relaid parameters (.expr 8) (⟨.punct .leftParen, openPos⟩ :: ts ++ ⟨.punct .rightParen, closePos⟩ :: us)
      (.cast openPos target e) next := by
  intro xs same
  simp only [sameText_append, sameText_cons] at same
  obtain ⟨_, _, rfl, ⟨openPos, _, rfl, front⟩, closePos, _, rfl, behind⟩ := same
  obtain ⟨type', typed, target⟩ := type.relaid front
  obtain ⟨e, operand, alike⟩ := relaid behind
  rw [← bareName?_unplaced, ← target, bareName?_unplaced, ← behind.ahead] at noParameter
  exact ⟨_, .cast openPos closePos typed operand noParameter, by simp_all only [Phrase.unplaced, Expr.unplaced]⟩

theorem relaid_ternary {condition whenTrue whenFalse : Expr} {questionPos colonPos : Pos}
    (test : Relaid parameters (.expr 3) ts condition (some (.punct .question)))
    (first : Relaid parameters (.expr 2) us whenTrue (some (.punct .colon)))
    (second : Relaid parameters (.expr 2) vs whenFalse next) :
    Relaid parameters (.expr 2)
      (ts ++ ⟨.punct .question, questionPos⟩ :: us ++ ⟨.punct .colon, colonPos⟩ :: vs)
      (.ternary condition.pos condition whenTrue whenFalse) next := by
  intro xs same
  simp only [sameText_append, sameText_cons] at same
  obtain ⟨_, _, rfl, ⟨_, _, rfl, front, questionPos, _, rfl, middle⟩, colonPos, _, rfl, behind⟩ := same
  obtain ⟨condition, test', tested⟩ := test front
  obtain ⟨whenTrue, first', alike⟩ := first middle
  obtain ⟨whenFalse, second', alike'⟩ := second behind
  exact ⟨_, .ternary questionPos colonPos test' first' second', by simp_all only [Phrase.unplaced, Expr.unplaced]⟩

theorem relaid_operand {name : List Token} {pos oldPos openPos closePos : Pos} {label : Option String} {e : Expr}
    {constraint : String} (start : StartsAt (name ++ [⟨.string constraint, oldPos⟩]) pos)
    (named : OperandName name label) (relaid : Relaid parameters (.expr 1) ts e (some (.punct .rightParen))) :
    Relaid parameters .operand
      (name ++ ⟨.string constraint, oldPos⟩ :: ⟨.punct .leftParen, openPos⟩ :: ts ++
        [⟨.punct .rightParen, closePos⟩])
      (.mk pos label constraint e) next := by
  intro xs same
  simp only [sameText_append, sameText_cons, sameText_nil] at same
  obtain ⟨_, _, rfl, ⟨name, _, rfl, front, constraintPos, _, rfl, openPos, _, rfl, middle⟩, closePos, _, rfl,
    rfl⟩ := same
  have header : SameText (_ ++ [⟨.string constraint, oldPos⟩]) (name ++ [⟨.string constraint, constraintPos⟩]) :=
    front.append rfl
  obtain ⟨pos, start'⟩ := header.startsAt start
  obtain ⟨e, inner, alike⟩ := relaid middle
  exact ⟨_, .operand constraintPos openPos closePos constraint start' (named.relaid front) inner,
    congrArg (AsmOperand.mk nowhere _ constraint) alike⟩

theorem relaid_clobbers {outs ins : List AsmOperand} {texts : List String} {pos nextPos lastPos : Pos}
    (written : Relaid parameters .operands ts outs (some (.punct .colon)))
    (read : Relaid parameters .operands us ins (some (.punct .colon))) (clobbered : Clobbers vs texts) :
    Relaid parameters .sections
      (⟨.punct .colon, pos⟩ :: ts ++ ⟨.punct .colon, nextPos⟩ :: us ++ ⟨.punct .colon, lastPos⟩ :: vs)
      (outs, ins, texts) next := by
  intro xs same
  simp only [sameText_append, sameText_cons] at same
  obtain ⟨_, _, rfl, ⟨_, _, rfl, ⟨pos, _, rfl, front⟩, nextPos, _, rfl, middle⟩, lastPos, _, rfl, behind⟩ := same
  obtain ⟨outs, written', alike⟩ := written front
  obtain ⟨ins, read', alike'⟩ := read middle
  exact ⟨_, .clobbers pos nextPos lastPos written' read' (clobbered.relaid behind),
    by simp_all only [Phrase.unplaced]⟩

theorem relaid_choice {test : Expr} {body : List Stmt} {pos openPos closePos : Pos}
    (condition : Relaid parameters (.expr 1) ts test (some (.punct .rightParen)))
    (whenTrue : Relaid parameters .branch us body next) (noElse : next ≠ some (.keyword .elseKw)) :
    Relaid parameters .statement
      (⟨.keyword .ifKw, pos⟩ :: ⟨.punct .leftParen, openPos⟩ :: ts ++ ⟨.punct .rightParen, closePos⟩ :: us)
      (.choice pos test body []) next := by
  intro xs same
  simp only [sameText_append, sameText_cons] at same
  obtain ⟨_, _, rfl, ⟨pos, _, rfl, openPos, _, rfl, front⟩, closePos, _, rfl, behind⟩ := same
  obtain ⟨test, condition', alike⟩ := condition front
  obtain ⟨body, whenTrue', alike'⟩ := whenTrue behind
  exact ⟨_, .choice pos openPos closePos condition' whenTrue' noElse,
    by simp_all only [Phrase.unplaced, Stmt.unplaced]⟩

theorem relaid_choiceElse {test : Expr} {body other : List Stmt} {pos openPos closePos elsePos : Pos}
    (condition : Relaid parameters (.expr 1) ts test (some (.punct .rightParen)))
    (whenTrue : Relaid parameters .branch us body (some (.keyword .elseKw)))
    (whenFalse : Relaid parameters .branch vs other next) :
    Relaid parameters .statement
      (⟨.keyword .ifKw, pos⟩ :: ⟨.punct .leftParen, openPos⟩ :: ts ++ ⟨.punct .rightParen, closePos⟩ :: us ++
        ⟨.keyword .elseKw, elsePos⟩ :: vs)
      (.choice pos test body other) next := by
  intro xs same
  simp only [sameText_append, sameText_cons] at same
  obtain ⟨_, _, rfl, ⟨_, _, rfl, ⟨pos, _, rfl, openPos, _, rfl, front⟩, closePos, _, rfl, middle⟩, elsePos, _, rfl,
    behind⟩ := same
  obtain ⟨test, condition', alike⟩ := condition front
  obtain ⟨body, whenTrue', alike'⟩ := whenTrue middle
  obtain ⟨other, whenFalse', alike''⟩ := whenFalse behind
  exact ⟨_, .choiceElse pos openPos closePos elsePos condition' whenTrue' whenFalse',
    by simp_all only [Phrase.unplaced, Stmt.unplaced]⟩

theorem relaid_loop {semicolon : List Token} {test : Expr} {body : List Stmt} {hasSemicolon : Bool}
    {pos whilePos openPos closePos : Pos} (inner : Relaid parameters .branch ts body (some (.keyword .whileKw)))
    (condition : Relaid parameters (.expr 1) us test (some (.punct .rightParen)))
    (stop : Optional (.punct .semicolon) semicolon hasSemicolon)
    (noStop : hasSemicolon = false → next ≠ some (.punct .semicolon)) :
    Relaid parameters .statement
      (⟨.keyword .doKw, pos⟩ :: ts ++ ⟨.keyword .whileKw, whilePos⟩ :: ⟨.punct .leftParen, openPos⟩ :: us ++
        ⟨.punct .rightParen, closePos⟩ :: semicolon)
      (.loop pos body test) next := by
  intro xs same
  simp only [sameText_append, sameText_cons] at same
  obtain ⟨_, _, rfl, ⟨_, _, rfl, ⟨pos, _, rfl, front⟩, whilePos, _, rfl, openPos, _, rfl, middle⟩,
    closePos, _, rfl, behind⟩ := same
  obtain ⟨body, inner', alike⟩ := inner front
  obtain ⟨test, condition', alike'⟩ := condition middle
  exact ⟨_, .loop pos whilePos openPos closePos inner' condition' (stop.relaid behind) noStop,
    by simp_all only [Phrase.unplaced, Stmt.unplaced]⟩

theorem relaid_declare {before behind : List Token} {pos assignPos stopPos : Pos} {type : CType} {name : Ident}
    {value : Expr} {isStaticBefore isStaticBehind : Bool} (start : StartsAt (before ++ ts) pos)
    (static : Optional (.keyword .staticKw) before isStaticBefore) (typed : TypeName ts type)
    (late : Optional (.keyword .staticKw) behind isStaticBehind) (once : isStaticBefore = true → behind = [])
    (names : Names us name) (relaid : Relaid parameters (.expr 1) vs value (some (.punct .semicolon))) :
    Relaid parameters .statement
      (before ++ ts ++ behind ++ us ++ ⟨.punct .assign, assignPos⟩ :: vs ++ [⟨.punct .semicolon, stopPos⟩])
      (.declare pos type name value (isStaticBefore || isStaticBehind)) next := by
  intro xs same
  simp only [sameText_append, sameText_cons, sameText_nil] at same
  obtain ⟨_, _, rfl, ⟨_, _, rfl, ⟨_, name', rfl, ⟨_, behind, rfl, ⟨before, type', rfl, first, second⟩, third⟩,
    fourth⟩, assignPos, _, rfl, value⟩, stopPos, _, rfl, rfl⟩ := same
  obtain ⟨pos, start'⟩ := (first.append second).startsAt start
  obtain ⟨type, typed', alike⟩ := typed.relaid second
  obtain ⟨name, names', named⟩ := names.relaid fourth
  obtain ⟨e, initial, alike'⟩ := relaid value
  exact ⟨_, .declare assignPos stopPos start' (static.relaid first) typed' (late.relaid third)
    (fun early => third.eq_nil (once early)) names' initial, by simp_all only [Phrase.unplaced, Stmt.unplaced]⟩

theorem Reads.relaid {phrase : Phrase} {tree : phrase.Tree} (h : Reads parameters phrase ts tree next) :
    Relaid parameters phrase ts tree next := by
  induction h with
  | name names => exact relaid_name names
  | number _ _ found pasted unpasted => exact relaid_number found pasted unpasted
  | character _ text =>
    intro us same
    simp only [sameText_cons, sameText_nil] at same
    obtain ⟨pos, _, rfl, rfl⟩ := same
    exact ⟨_, .character pos text, rfl⟩
  | piece pieces => exact relaid_piece pieces
  | pieces pieces => exact relaid_pieces pieces
  | parens _ _ _ ih =>
    exact relaid_inside ih fun _ openPos closePos e inner alike => ⟨e, .parens openPos closePos inner, alike⟩
  | base _ more ih =>
    intro us same
    obtain ⟨e, inner, alike⟩ := ih same
    exact ⟨e, .base inner ((isClosed_of_unplaced alike).trans more), alike⟩
  | call _ _ _ _ noCast noAssembly callee inner => exact relaid_call callee inner noCast noAssembly
  | field _ _ _ names ih => exact relaid_field ih names
  | closed _ whole follow ih =>
    intro us same
    obtain ⟨e, inner, alike⟩ := ih same
    exact ⟨e, .closed inner ((isClosed_of_unplaced alike).trans whole) follow, alike⟩
  | chained _ follow noCast ih =>
    intro us same
    obtain ⟨e, inner, alike⟩ := ih same
    exact ⟨e, .chained inner follow fun cast => noCast (cast.relaid same.symm), alike⟩
  | step _ isStep _ follow noCast ih => exact relaid_step isStep ih follow noCast
  | assembly _ _ _ _ _ isWord marked more _ follow noCast opener behind =>
    exact relaid_assembly opener isWord marked more behind follow noCast
  | cast _ _ type _ noParameter ih => exact relaid_cast type ih noParameter
  | addressOf _ _ ih =>
    exact relaid_behind ih fun _ pos _ operand alike =>
      ⟨_, .addressOf pos operand, congrArg (Expr.addressOf nowhere) alike⟩
  | before op _ _ ih =>
    exact relaid_behind ih fun _ pos _ operand alike =>
      ⟨_, .before op pos operand, congrArg (Expr.unary nowhere op .before) alike⟩
  | binary op _ _ _ first second =>
    exact relaid_joined first second fun _ _ pos _ _ first' second' alike alike' =>
      ⟨_, .binary op pos first' second', by simp_all only [Phrase.unplaced, Expr.unplaced]⟩
  | ternary _ _ _ _ _ test first second => exact relaid_ternary test first second
  | assign op _ _ _ first second =>
    exact relaid_joined first second fun _ _ pos _ _ first' second' alike alike' =>
      ⟨_, .assign op pos first' second', by simp_all only [Phrase.unplaced, Expr.unplaced]⟩
  | tighter low high _ ih =>
    intro us same
    obtain ⟨e, inner, alike⟩ := ih same
    exact ⟨e, .tighter low high inner, alike⟩
  | noArguments =>
    intro us same
    cases sameText_nil.mp same
    exact ⟨[], .noArguments, rfl⟩
  | argument _ ih =>
    intro us same
    obtain ⟨e, inner, alike⟩ := ih same
    exact ⟨[e], .argument inner, congrArg (fun e => [e]) alike⟩
  | moreArguments _ _ more _ first last =>
    exact relaid_joined first last fun _ _ commaPos _ _ first' last' alike alike' =>
      ⟨_, .moreArguments commaPos first' (ne_nil_of_unplacedExprs alike more) last',
        by simp_all only [Phrase.unplaced, unplacedExprs_append, unplacedExprs]⟩
  | operand _ _ _ _ start named _ ih => exact relaid_operand start named ih
  | noOperands =>
    intro us same
    cases sameText_nil.mp same
    exact ⟨[], .noOperands, rfl⟩
  | oneOperand _ ih =>
    intro us same
    obtain ⟨o, inner, alike⟩ := ih same
    exact ⟨[o], .oneOperand inner, congrArg (fun o => [o]) alike⟩
  | moreOperands _ _ more _ first last =>
    exact relaid_joined first last fun _ _ commaPos _ _ first' last' alike alike' =>
      ⟨_, .moreOperands commaPos first' (ne_nil_of_unplacedOperands alike more) last',
        by simp_all only [Phrase.unplaced, unplacedOperands_append, unplacedOperands]⟩
  | noSections =>
    intro us same
    cases sameText_nil.mp same
    exact ⟨_, .noSections, rfl⟩
  | outputs _ _ ih =>
    exact relaid_behind ih fun _ pos _ written alike =>
      ⟨_, .outputs pos written, by simp_all only [Phrase.unplaced]⟩
  | inputs _ _ _ _ written read =>
    intro us same
    simp only [sameText_append, sameText_cons] at same
    obtain ⟨_, _, rfl, ⟨pos, _, rfl, front⟩, nextPos, _, rfl, behind⟩ := same
    obtain ⟨outs, written', alike⟩ := written front
    obtain ⟨ins, read', alike'⟩ := read behind
    exact ⟨_, .inputs pos nextPos written' read', by simp_all only [Phrase.unplaced]⟩
  | clobbers _ _ _ _ _ clobbered written read => exact relaid_clobbers written read clobbered
  | block _ _ _ ih =>
    exact relaid_inside ih fun _ pos closePos _ inner alike =>
      ⟨_, .block pos closePos inner, congrArg (Stmt.block nowhere) alike⟩
  | choice _ _ _ _ _ noElse condition whenTrue => exact relaid_choice condition whenTrue noElse
  | choiceElse _ _ _ _ _ _ _ condition whenTrue whenFalse => exact relaid_choiceElse condition whenTrue whenFalse
  | loop _ _ _ _ _ _ stop noStop inner condition => exact relaid_loop inner condition stop noStop
  | declare _ _ start static typed late once names _ ih =>
    exact relaid_declare start static typed late once names ih
  | eval _ _ noDeclaration ih =>
    intro us same
    simp only [sameText_append, sameText_cons, sameText_nil] at same
    obtain ⟨_, _, rfl, front, pos, _, rfl, rfl⟩ := same
    obtain ⟨e, inner, alike⟩ := ih front
    exact ⟨_, .eval pos inner fun opens => noDeclaration (opens.relaid front.symm),
      congrArg (Stmt.eval nowhere) alike⟩
  | splicedBranch _ ih =>
    intro us same
    obtain ⟨s, inner, alike⟩ := ih same
    obtain ⟨pos', body', rfl, alike'⟩ := Stmt.eq_block_of_unplaced alike
    exact ⟨body', .splicedBranch inner, alike'⟩
  | bareBranch _ bare ih =>
    intro us same
    obtain ⟨s, inner, alike⟩ := ih same
    refine ⟨[s], .bareBranch inner ?_, congrArg (fun s => [s]) alike⟩
    rintro pos body rfl
    obtain ⟨pos', body', rfl, -⟩ := Stmt.eq_block_of_unplaced alike.symm
    exact bare pos' body' rfl
  | noStatements =>
    intro us same
    cases sameText_nil.mp same
    exact ⟨[], .noStatements, rfl⟩
  | moreStatements _ _ first last =>
    intro us same
    simp only [sameText_append] at same
    obtain ⟨_, _, rfl, front, behind⟩ := same
    obtain ⟨body, first', alike⟩ := first front
    obtain ⟨s, last', alike'⟩ := last behind
    rw [← behind.ahead] at first'
    exact ⟨_, .moreStatements first' last', by simp_all only [Phrase.unplaced, unplacedStmts_append,
      unplacedStmts]⟩

theorem ReadsBody.relaid {setting setting' : Setting} {b : Body} (h : ReadsBody setting ts b)
    (same : SameText ts us) (parameters : setting'.parameters = setting.parameters) :
    ∃ b', ReadsBody setting' us b' ∧ b'.unplaced = b.unplaced := by
  cases h with
  | empty =>
    cases sameText_nil.mp same
    exact ⟨_, .empty, rfl⟩
  | statement start inner =>
    obtain ⟨pos, start'⟩ := same.startsAt start
    obtain ⟨s, inner', alike⟩ := inner.relaid same
    rw [← parameters] at inner'
    exact ⟨_, .statement start' inner', congrArg (Body.statement nowhere) alike⟩
  | expression start inner =>
    obtain ⟨pos, start'⟩ := same.startsAt start
    obtain ⟨e, inner', alike⟩ := inner.relaid same
    rw [← parameters] at inner'
    exact ⟨_, .expression start' inner', congrArg (Body.expression nowhere) alike⟩

end MacroLift
