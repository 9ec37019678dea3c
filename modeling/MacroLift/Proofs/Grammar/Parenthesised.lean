import MacroLift.Proofs.Grammar.Enclosure
import MacroLift.Proofs.Grammar.Layout

namespace MacroLift

open MacroLift.Parser

variable {c : Enclosure} {parameters : List String} {ts us vs : List Token} {next : Option Lexeme}

/-- What a statement looks for behind itself is there only if it was there before. -/
def StopsAlike (next next' : Option Lexeme) : Prop :=
  (next' = some (.keyword .elseKw) → next = some (.keyword .elseKw)) ∧
    (next' = some (.punct .semicolon) → next = some (.punct .semicolon))

theorem stopsAlike_refl (next : Option Lexeme) : StopsAlike next next :=
  ⟨id, id⟩

def Phrase.Encloses (c : Enclosure) (parameters : List String) (next : Option Lexeme) :
    (phrase : Phrase) → List Token → phrase.Tree → Prop
  | .statement, ts, s => ∀ next', StopsAlike next next' → Reads parameters .statement (c.apply ts) s next'
  | .branch, ts, body => ∀ next', StopsAlike next next' → Reads parameters .branch (c.apply ts) body next'
  | .statements, ts, body => ∀ next', StopsAlike next next' → Reads parameters .statements (c.apply ts) body next'
  | phrase, ts, tree => Reads parameters phrase (c.apply ts) tree next

/-- If all uses of the name at its place are variables, parentheses around it do not change the reading. -/
def Enclosed (c : Enclosure) (parameters : List String) (phrase : Phrase) (ts : List Token) (tree : phrase.Tree)
    (next : Option Lexeme) : Prop :=
  ts.count c.token ≤ (phrase.nodes tree).countP c.isVariable → phrase.Encloses c parameters next ts tree

section

variable {phrase phrase' phrase'' : Phrase} {tree : phrase.Tree} {tree' : phrase'.Tree} {tree'' : phrase''.Tree}
  {next' next'' : Option Lexeme}

theorem fits_beside (beside : Nat) (inner : Reads parameters phrase ts tree next)
    (fits : beside + ts.count c.token ≤ (phrase.nodes tree).countP c.isVariable) :
    beside = 0 ∧ ts.count c.token ≤ (phrase.nodes tree).countP c.isVariable := by
  have most := inner.derives.variables_le c
  omega

theorem fits_both_beside (beside : Nat) (first : Reads parameters phrase ts tree next)
    (second : Reads parameters phrase' us tree' next')
    (fits : ts.count c.token + us.count c.token + beside ≤
      (phrase.nodes tree).countP c.isVariable + (phrase'.nodes tree').countP c.isVariable) :
    beside = 0 ∧ ts.count c.token ≤ (phrase.nodes tree).countP c.isVariable ∧
      us.count c.token ≤ (phrase'.nodes tree').countP c.isVariable := by
  have left := first.derives.variables_le c
  have right := second.derives.variables_le c
  omega

theorem fits_both (first : Reads parameters phrase ts tree next) (second : Reads parameters phrase' us tree' next')
    (fits : ts.count c.token + us.count c.token ≤
      (phrase.nodes tree).countP c.isVariable + (phrase'.nodes tree').countP c.isVariable) :
    ts.count c.token ≤ (phrase.nodes tree).countP c.isVariable ∧
      us.count c.token ≤ (phrase'.nodes tree').countP c.isVariable :=
  (fits_both_beside 0 first second fits).2

theorem fits_three (first : Reads parameters phrase ts tree next)
    (second : Reads parameters phrase' us tree' next')
    (third : Reads parameters phrase'' vs tree'' next'')
    (fits : ts.count c.token + us.count c.token + vs.count c.token ≤
      (phrase.nodes tree).countP c.isVariable + (phrase'.nodes tree').countP c.isVariable +
        (phrase''.nodes tree'').countP c.isVariable) :
    ts.count c.token ≤ (phrase.nodes tree).countP c.isVariable ∧
      us.count c.token ≤ (phrase'.nodes tree').countP c.isVariable ∧
        vs.count c.token ≤ (phrase''.nodes tree'').countP c.isVariable := by
  have left := first.derives.variables_le c
  have middle := second.derives.variables_le c
  have right := third.derives.variables_le c
  omega

end

theorem enclosed_name {ident : Ident} (names : Names ts ident) :
    Enclosed c parameters (.expr 10) ts (.name ident.pos ident) next := by
  intro fits
  show Reads parameters (.expr 10) (c.apply ts) (.name ident.pos ident) next
  cases names with
  | simple pos text =>
    by_cases same : (⟨.name text, pos⟩ : Token) = c.token
    · have alone : Reads parameters (.expr 9) [⟨.name text, pos⟩] (.name pos (.simple pos text))
          (some (.punct .rightParen)) := .of_names (.simple pos text) rfl
      have inner := alone.loosen (by omega) (Nat.le_add_left 1 8) (by omega)
      rw [same, Enclosure.apply_token, Enclosure.apply_nil, ← same]
      exact .parens _ _ inner
    · rw [Enclosure.apply_other same, Enclosure.apply_nil]
      exact .name (.simple pos text)
  | pasted pos text more many =>
    have none : c.apply (⟨.name text, pos⟩ :: _) = _ := Enclosure.apply_of_count (Nat.le_zero.mp fits)
    rw [none]
    exact .name (.pasted pos text more many)

theorem enclosed_pieces {pieces : List Expr} (h : Pieces ts pieces)
    (fits : ts.count c.token ≤ (nodesOfExprs pieces).countP c.isVariable) : c.apply ts = ts := by
  rw [h.noVariable c] at fits
  exact Enclosure.apply_of_count (Nat.le_zero.mp fits)

theorem enclosed_call {pos openPos closePos : Pos} {ident : Ident} {arguments : List Expr}
    (callee : Reads parameters .chain ts (.name pos ident) (some (.punct .leftParen)))
    (inner : Reads parameters .arguments us arguments (some (.punct .rightParen)))
    (noCast : MayCast parameters ts (some (.punct .leftParen)) → arguments.length ≠ 1)
    (noAssembly : opensAssembly (.name pos ident) = true → ¬ IsTemplate us)
    (enclosed : Enclosed c parameters .arguments us arguments (some (.punct .rightParen))) :
    Enclosed c parameters .chain (ts ++ ⟨.punct .leftParen, openPos⟩ :: us ++ [⟨.punct .rightParen, closePos⟩])
      (.call pos ident arguments) next := by
  intro fits
  obtain ⟨none, fits⟩ := fits_beside (ts.count c.token) inner (by simpa [Enclosure.isVariable] using fits)
  have inner' := enclosed fits
  simpa [Phrase.Encloses, Enclosure.apply_of_count none] using Reads.call openPos closePos callee inner' noCast
    fun opens template => noAssembly opens (Enclosure.isTemplate_of_apply template)

theorem enclosed_field {e : Expr} {name : Ident} {isArrow : Bool} {pos : Pos}
    (owner : Reads parameters .chain ts e (some (.punct (if isArrow then .arrow else .dot))))
    (names : Names us name)
    (enclosed : Enclosed c parameters .chain ts e (some (.punct (if isArrow then .arrow else .dot)))) :
    Enclosed c parameters .chain (ts ++ ⟨.punct (if isArrow then .arrow else .dot), pos⟩ :: us)
      (.field e.pos e name isArrow) next := by
  intro fits
  obtain ⟨none, fits⟩ := fits_beside (c := c) (us.count c.token) owner
    (by simpa [Enclosure.isVariable, Nat.add_comm] using fits)
  have owner' := enclosed fits
  simpa [Phrase.Encloses, Enclosure.apply_of_count none] using Reads.field isArrow pos owner' names

theorem enclosed_step {e : Expr} {op : UnaryOp} {pos : Pos} (isParameter : parameters.contains c.name = true)
    (isStep : op.isStep = true) (follow : followsOperand next = true)
    (noCast : MayCast parameters ts (some (.punct op.punct)) → next.any startsOperand = false)
    (enclosed : Enclosed c parameters .chain ts e (some (.punct op.punct))) :
    Enclosed c parameters (.expr 9) (ts ++ [⟨.punct op.punct, pos⟩]) (.unary e.pos op .after e) next := by
  intro fits
  have inner' := enclosed (by simpa [Enclosure.isVariable] using fits)
  have continues : continuesOperand (.punct op.punct) = true := by
    cases op <;> first | rfl | cases isStep
  simpa [Phrase.Encloses] using Reads.step pos isStep inner' follow fun cast =>
    noCast (Enclosure.mayCast_of_apply isParameter (fun _ => continues) cast)

theorem enclosed_assembly {head volatile template sections : List Token} {pos namePos : Pos} {word : String}
    {isVolatile : Bool} {lines : List String} {parts : List AsmOperand × List AsmOperand × List String}
    {openPos firstPos closePos : Pos} {first : String}
    (opener : Reads parameters (.expr 10) head (.name pos (.simple namePos word))
      (ahead volatile (some (.punct .leftParen))))
    (isWord : isAssemblyWord word = true) (marked : Optional (.keyword .volatileKw) volatile isVolatile)
    (more : Template template lines)
    (behind : Reads parameters .sections sections parts (some (.punct .rightParen)))
    (follow : followsOperand next = true)
    (noCast : MayCast parameters head (some (.punct .leftParen)) → volatile = [] → sections = [] →
      ∃ t ∈ template, t.lexeme = .punct .comma)
    (enclosed : Enclosed c parameters .sections sections parts (some (.punct .rightParen))) :
    Enclosed c parameters (.expr 9)
      (head ++ volatile ++ ⟨.punct .leftParen, openPos⟩ :: ⟨.string first, firstPos⟩ :: template ++ sections ++
        [⟨.punct .rightParen, closePos⟩])
      (.assembly pos (first :: lines) parts.1 parts.2.1 parts.2.2 isVolatile) next := by
  intro fits
  obtain ⟨none, fits⟩ := fits_beside ((head ++ volatile ++ template).count c.token) behind
    (by simpa [Enclosure.isVariable, Nat.add_assoc] using fits)
  obtain ⟨⟨noHead, noVolatile⟩, noTemplate⟩ := by simpa only [List.count_append, Nat.add_eq_zero_iff] using none
  have behind' := enclosed fits
  simpa [Phrase.Encloses, Enclosure.apply_of_count noHead, Enclosure.apply_of_count noVolatile,
    Enclosure.apply_of_count noTemplate] using Reads.assembly openPos firstPos closePos first opener isWord marked
      more behind' follow fun cast absent none => noCast cast absent (Enclosure.apply_eq_nil none)

theorem enclosed_cast {target : CType} {e : Expr} {openPos closePos : Pos} (type : TypeName ts target)
    (operand : Reads parameters (.expr 8) us e next)
    (noParameter : ¬ ((bareName? target).any parameters.contains = true ∧
      (ahead us next).any continuesOperand = true))
    (enclosed : Enclosed c parameters (.expr 8) us e next) :
    Enclosed c parameters (.expr 8) (⟨.punct .leftParen, openPos⟩ :: ts ++ ⟨.punct .rightParen, closePos⟩ :: us)
      (.cast openPos target e) next := by
  intro fits
  obtain ⟨none, fits⟩ := fits_beside (ts.count c.token) operand (by simpa [Enclosure.isVariable] using fits)
  have operand' := enclosed fits
  have noParameter' : ¬ ((bareName? target).any parameters.contains = true ∧
      (ahead (c.apply us) next).any continuesOperand = true) := by
    rcases Enclosure.ahead_apply us next (c := c) with same | paren
    · rwa [same]
    · rw [paren]
      rintro ⟨-, continues⟩
      cases continues
  simpa [Phrase.Encloses, Enclosure.apply_of_count none] using
    Reads.cast openPos closePos type operand' noParameter'

theorem enclosed_ternary {condition whenTrue whenFalse : Expr} {questionPos colonPos : Pos}
    (test : Reads parameters (.expr 3) ts condition (some (.punct .question)))
    (first : Reads parameters (.expr 2) us whenTrue (some (.punct .colon)))
    (second : Reads parameters (.expr 2) vs whenFalse next)
    (ofTest : Enclosed c parameters (.expr 3) ts condition (some (.punct .question)))
    (ofFirst : Enclosed c parameters (.expr 2) us whenTrue (some (.punct .colon)))
    (ofSecond : Enclosed c parameters (.expr 2) vs whenFalse next) :
    Enclosed c parameters (.expr 2)
      (ts ++ ⟨.punct .question, questionPos⟩ :: us ++ ⟨.punct .colon, colonPos⟩ :: vs)
      (.ternary condition.pos condition whenTrue whenFalse) next := by
  intro fits
  obtain ⟨left, middle, right⟩ := fits_three test first second
    (by simpa [Enclosure.isVariable, Nat.add_assoc] using fits)
  simpa [Phrase.Encloses] using
    Reads.ternary questionPos colonPos (ofTest left) (ofFirst middle) (ofSecond right)

theorem enclosed_operand {name : List Token} {pos constraintPos openPos closePos : Pos} {label : Option String}
    {e : Expr} {constraint : String} (start : StartsAt (name ++ [⟨.string constraint, constraintPos⟩]) pos)
    (named : OperandName name label) (inner : Reads parameters (.expr 1) ts e (some (.punct .rightParen)))
    (enclosed : Enclosed c parameters (.expr 1) ts e (some (.punct .rightParen))) :
    Enclosed c parameters .operand
      (name ++ ⟨.string constraint, constraintPos⟩ :: ⟨.punct .leftParen, openPos⟩ :: ts ++
        [⟨.punct .rightParen, closePos⟩])
      (.mk pos label constraint e) next := by
  intro fits
  obtain ⟨none, fits⟩ := fits_beside (name.count c.token) inner (by simpa [Enclosure.isVariable] using fits)
  have inner' := enclosed fits
  simpa [Phrase.Encloses, Enclosure.apply_of_count none] using
    Reads.operand constraintPos openPos closePos constraint start named inner'

theorem enclosed_clobbers {outs ins : List AsmOperand} {texts : List String} {pos nextPos lastPos : Pos}
    (written : Reads parameters .operands ts outs (some (.punct .colon)))
    (read : Reads parameters .operands us ins (some (.punct .colon))) (clobbered : Clobbers vs texts)
    (ofWritten : Enclosed c parameters .operands ts outs (some (.punct .colon)))
    (ofRead : Enclosed c parameters .operands us ins (some (.punct .colon))) :
    Enclosed c parameters .sections
      (⟨.punct .colon, pos⟩ :: ts ++ ⟨.punct .colon, nextPos⟩ :: us ++ ⟨.punct .colon, lastPos⟩ :: vs)
      (outs, ins, texts) next := by
  intro fits
  obtain ⟨none, left, right⟩ := fits_both_beside (vs.count c.token) written read
    (by simpa [Nat.add_assoc] using fits)
  simpa [Phrase.Encloses, Enclosure.apply_of_count none] using
    Reads.clobbers pos nextPos lastPos (ofWritten left) (ofRead right) clobbered

theorem stopsAlike_ahead (start : Leads Lexeme.startsStatement us) (next next' : Option Lexeme) :
    StopsAlike (ahead us next) (ahead (c.apply us) next') := by
  obtain ⟨t, us, rfl, -⟩ := start
  by_cases same : t = c.token
  · rw [same, Enclosure.apply_token]
    exact ⟨nofun, nofun⟩
  · rw [Enclosure.apply_other same]
    exact stopsAlike_refl _

theorem enclosed_choice {test : Expr} {body : List Stmt} {pos openPos closePos : Pos}
    (condition : Reads parameters (.expr 1) ts test (some (.punct .rightParen)))
    (whenTrue : Reads parameters .branch us body next) (noElse : next ≠ some (.keyword .elseKw))
    (ofCondition : Enclosed c parameters (.expr 1) ts test (some (.punct .rightParen)))
    (ofTrue : Enclosed c parameters .branch us body next) :
    Enclosed c parameters .statement
      (⟨.keyword .ifKw, pos⟩ :: ⟨.punct .leftParen, openPos⟩ :: ts ++ ⟨.punct .rightParen, closePos⟩ :: us)
      (.choice pos test body []) next := by
  intro fits next' alike
  obtain ⟨left, right⟩ := fits_both condition whenTrue (by simpa [Enclosure.isVariable] using fits)
  simpa using Reads.choice pos openPos closePos (ofCondition left) (ofTrue right next' alike)
    fun stop => noElse (alike.1 stop)

theorem enclosed_choiceElse {test : Expr} {body other : List Stmt} {pos openPos closePos elsePos : Pos}
    (condition : Reads parameters (.expr 1) ts test (some (.punct .rightParen)))
    (whenTrue : Reads parameters .branch us body (some (.keyword .elseKw)))
    (whenFalse : Reads parameters .branch vs other next)
    (ofCondition : Enclosed c parameters (.expr 1) ts test (some (.punct .rightParen)))
    (ofTrue : Enclosed c parameters .branch us body (some (.keyword .elseKw)))
    (ofFalse : Enclosed c parameters .branch vs other next) :
    Enclosed c parameters .statement
      (⟨.keyword .ifKw, pos⟩ :: ⟨.punct .leftParen, openPos⟩ :: ts ++ ⟨.punct .rightParen, closePos⟩ :: us ++
        ⟨.keyword .elseKw, elsePos⟩ :: vs)
      (.choice pos test body other) next := by
  intro fits next' alike
  obtain ⟨left, middle, right⟩ := fits_three condition whenTrue whenFalse
    (by simpa [Enclosure.isVariable, Nat.add_assoc] using fits)
  simpa using Reads.choiceElse pos openPos closePos elsePos (ofCondition left)
    (ofTrue middle _ (stopsAlike_refl _)) (ofFalse right next' alike)

theorem enclosed_loop {semicolon : List Token} {test : Expr} {body : List Stmt} {hasSemicolon : Bool}
    {pos whilePos openPos closePos : Pos} (inner : Reads parameters .branch ts body (some (.keyword .whileKw)))
    (condition : Reads parameters (.expr 1) us test (some (.punct .rightParen)))
    (stop : Optional (.punct .semicolon) semicolon hasSemicolon)
    (noStop : hasSemicolon = false → next ≠ some (.punct .semicolon))
    (ofInner : Enclosed c parameters .branch ts body (some (.keyword .whileKw)))
    (ofCondition : Enclosed c parameters (.expr 1) us test (some (.punct .rightParen))) :
    Enclosed c parameters .statement
      (⟨.keyword .doKw, pos⟩ :: ts ++ ⟨.keyword .whileKw, whilePos⟩ :: ⟨.punct .leftParen, openPos⟩ :: us ++
        ⟨.punct .rightParen, closePos⟩ :: semicolon)
      (.loop pos body test) next := by
  intro fits next' alike
  obtain ⟨none, left, right⟩ := fits_both_beside (semicolon.count c.token) inner condition
    (by simpa [Enclosure.isVariable, Nat.add_assoc] using fits)
  have inner' := ofInner left _ (stopsAlike_refl _)
  simpa [Enclosure.apply_of_count none] using Reads.loop pos whilePos openPos closePos inner' (ofCondition right)
    stop fun absent behind => noStop absent (alike.2 behind)

theorem enclosed_declare {before behind : List Token} {pos assignPos stopPos : Pos} {type : CType} {name : Ident}
    {value : Expr} {isStaticBefore isStaticBehind : Bool} (start : StartsAt (before ++ ts) pos)
    (static : Optional (.keyword .staticKw) before isStaticBefore) (typed : TypeName ts type)
    (late : Optional (.keyword .staticKw) behind isStaticBehind) (once : isStaticBefore = true → behind = [])
    (names : Names us name) (initial : Reads parameters (.expr 1) vs value (some (.punct .semicolon)))
    (enclosed : Enclosed c parameters (.expr 1) vs value (some (.punct .semicolon))) :
    Enclosed c parameters .statement
      (before ++ ts ++ behind ++ us ++ ⟨.punct .assign, assignPos⟩ :: vs ++ [⟨.punct .semicolon, stopPos⟩])
      (.declare pos type name value (isStaticBefore || isStaticBehind)) next := by
  intro fits next' _
  obtain ⟨none, fits⟩ := fits_beside ((before ++ ts ++ behind ++ us).count c.token) initial
    (by simpa [Enclosure.isVariable, Nat.add_assoc] using fits)
  obtain ⟨⟨⟨noBefore, noType⟩, noBehind⟩, noName⟩ := by
    simpa only [List.count_append, Nat.add_eq_zero_iff] using none
  have initial' := enclosed fits
  simpa [Enclosure.apply_of_count noBefore, Enclosure.apply_of_count noType, Enclosure.apply_of_count noBehind,
    Enclosure.apply_of_count noName] using
      Reads.declare assignPos stopPos start static typed late once names initial'

theorem enclosed_moreStatements {body : List Stmt} {s : Stmt}
    (first : Reads parameters .statements ts body (ahead us next)) (last : Reads parameters .statement us s next)
    (ofFirst : Enclosed c parameters .statements ts body (ahead us next))
    (ofLast : Enclosed c parameters .statement us s next) :
    Enclosed c parameters .statements (ts ++ us) (body ++ [s]) next := by
  intro fits next' alike
  obtain ⟨left, right⟩ := fits_both first last (by simpa using fits)
  have between : StopsAlike (ahead us next) (ahead (c.apply us) next') :=
    stopsAlike_ahead last.derives.starts next next'
  simpa using Reads.moreStatements (ofFirst left _ between) (ofLast right next' alike)

theorem Reads.enclosed {phrase : Phrase} {tree : phrase.Tree} (h : Reads parameters phrase ts tree next)
    (isParameter : parameters.contains c.name = true) : Enclosed c parameters phrase ts tree next := by
  induction h with
  | name names => exact enclosed_name names
  | number pos text found pasted unpasted =>
    intro fits
    have none : c.apply (⟨.number text, pos⟩ :: _) = _ := Enclosure.apply_of_count (Nat.le_zero.mp fits)
    simp only [Phrase.Encloses, none]
    exact .number pos text found pasted unpasted
  | character pos text => exact fun _ => .character pos text
  | piece pieces =>
    intro fits
    simp only [Phrase.Encloses, enclosed_pieces pieces (by simpa using fits)]
    exact .piece pieces
  | pieces pieces =>
    intro fits
    simp only [Phrase.Encloses, enclosed_pieces pieces (by simpa [Enclosure.isVariable] using fits)]
    exact .pieces pieces
  | parens openPos closePos inner ih =>
    intro fits
    have inner' := ih (by simpa using fits)
    simpa [Phrase.Encloses] using Reads.parens openPos closePos inner'
  | base inner more ih => exact fun fits => .base (ih fits) more
  | call _ _ callee inner noCast noAssembly _ ih => exact enclosed_call callee inner noCast noAssembly ih
  | field _ _ owner names ih => exact enclosed_field owner names ih
  | closed inner whole follow ih => exact fun fits => .closed (ih fits) whole follow
  | chained inner follow noCast ih =>
    exact fun fits => .chained (ih fits) follow fun cast =>
      noCast (Enclosure.mayCast_of_apply isParameter (Enclosure.continues_of_follows follow) cast)
  | step _ isStep _ follow noCast ih => exact enclosed_step isParameter isStep follow noCast ih
  | assembly _ _ _ _ opener isWord marked more behind follow noCast _ ih =>
    exact enclosed_assembly opener isWord marked more behind follow noCast ih
  | cast _ _ type operand noParameter ih => exact enclosed_cast type operand noParameter ih
  | addressOf pos operand ih =>
    intro fits
    have operand' := ih (by simpa [Enclosure.isVariable] using fits)
    simpa [Phrase.Encloses] using Reads.addressOf pos operand'
  | before op pos operand ih =>
    intro fits
    have operand' := ih (by simpa [Enclosure.isVariable] using fits)
    simpa [Phrase.Encloses] using Reads.before op pos operand'
  | binary op pos first second ih ih' =>
    intro fits
    obtain ⟨left, right⟩ := fits_both first second (by simpa [Enclosure.isVariable] using fits)
    simpa [Phrase.Encloses] using Reads.binary op pos (ih left) (ih' right)
  | ternary _ _ test first second ih ih' ih'' => exact enclosed_ternary test first second ih ih' ih''
  | assign op pos first second ih ih' =>
    intro fits
    obtain ⟨left, right⟩ := fits_both first second (by simpa [Enclosure.isVariable] using fits)
    simpa [Phrase.Encloses] using Reads.assign op pos (ih left) (ih' right)
  | tighter low high inner ih => exact fun fits => .tighter low high (ih fits)
  | noArguments => exact fun _ => .noArguments
  | argument inner ih => exact fun fits => .argument (ih (by simpa using fits))
  | moreArguments commaPos first more last ih ih' =>
    intro fits
    obtain ⟨left, right⟩ := fits_both first last (by simpa using fits)
    simpa [Phrase.Encloses] using Reads.moreArguments commaPos (ih left) more (ih' right)
  | operand _ _ _ _ start named inner ih => exact enclosed_operand start named inner ih
  | noOperands => exact fun _ => .noOperands
  | oneOperand inner ih => exact fun fits => .oneOperand (ih (by simpa using fits))
  | moreOperands commaPos first more last ih ih' =>
    intro fits
    obtain ⟨left, right⟩ := fits_both first last (by simpa using fits)
    simpa [Phrase.Encloses] using Reads.moreOperands commaPos (ih left) more (ih' right)
  | noSections => exact fun _ => .noSections
  | outputs pos written ih =>
    intro fits
    have written' := ih (by simpa using fits)
    simpa [Phrase.Encloses] using Reads.outputs pos written'
  | inputs pos nextPos written read ih ih' =>
    intro fits
    obtain ⟨left, right⟩ := fits_both written read (by simpa using fits)
    simpa [Phrase.Encloses] using Reads.inputs pos nextPos (ih left) (ih' right)
  | clobbers _ _ _ written read clobbered ih ih' => exact enclosed_clobbers written read clobbered ih ih'
  | block pos closePos inner ih =>
    intro fits next' _
    have inner' := ih (by simpa [Enclosure.isVariable] using fits) _ (stopsAlike_refl _)
    simpa using Reads.block pos closePos inner'
  | choice _ _ _ condition whenTrue noElse ih ih' => exact enclosed_choice condition whenTrue noElse ih ih'
  | choiceElse _ _ _ _ condition whenTrue whenFalse ih ih' ih'' =>
    exact enclosed_choiceElse condition whenTrue whenFalse ih ih' ih''
  | loop _ _ _ _ inner condition stop noStop ih ih' => exact enclosed_loop inner condition stop noStop ih ih'
  | declare _ _ start static typed late once names initial ih =>
    exact enclosed_declare start static typed late once names initial ih
  | eval pos inner noDeclaration ih =>
    intro fits next' _
    have inner' := ih (by simpa [Enclosure.isVariable] using fits)
    simpa using Reads.eval pos inner' fun opens => noDeclaration (Enclosure.opensDeclaration_of_apply opens)
  | splicedBranch inner ih =>
    exact fun fits next' alike => .splicedBranch (ih (by simpa [Enclosure.isVariable] using fits) next' alike)
  | bareBranch inner bare ih =>
    exact fun fits next' alike => .bareBranch (ih (by simpa using fits) next' alike) bare
  | noStatements => exact fun _ _ _ => .noStatements
  | moreStatements first last ih ih' => exact enclosed_moreStatements first last ih ih'

theorem ReadsBody.enclosed {setting : Setting} {b : Body} (h : ReadsBody setting ts b)
    (isParameter : setting.parameters.contains c.name = true)
    (fits : ts.count c.token ≤ b.nodes.countP c.isVariable) :
    ∃ b', ReadsBody setting (c.apply ts) b' ∧ b'.unplaced = b.unplaced := by
  have start : ts ≠ [] → StartsAt (c.apply ts) _ := fun some =>
    startsAt_placeOf setting fun none => some (Enclosure.apply_eq_nil none)
  cases h with
  | empty => exact ⟨_, .empty, rfl⟩
  | statement _ inner =>
    have inner' := inner.enclosed isParameter fits _ (stopsAlike_refl _)
    exact ⟨_, .statement (start inner.derives.starts.ne_nil) inner', rfl⟩
  | expression _ inner =>
    exact ⟨_, .expression (start inner.derives.starts.ne_nil) (inner.enclosed isParameter fits), rfl⟩

/-- Wherever an accepted body uses a parameter as a variable, the text with the parameter in parentheses is
    accepted too, as the same tree up to places. -/
theorem parenthesised_parameter {setting setting' : Setting} {before after us : List Token} {x : String}
    {pos : Pos} {b : Body} (accepted : body setting (before ++ ⟨.name x, pos⟩ :: after) = .ok b)
    (isParameter : x ∈ setting.parameters) (parameters : setting'.parameters = setting.parameters)
    (once : ⟨.name x, pos⟩ ∉ before ++ after) (isVariable : .expr (.name pos (.simple pos x)) ∈ b.nodes)
    (text : us.map Token.lexeme = before.map Token.lexeme ++
      [.punct .leftParen, .name x, .punct .rightParen] ++ after.map Token.lexeme) :
    ∃ b', body setting' us = .ok b' ∧ b'.unplaced = b.unplaced := by
  let c : Enclosure := ⟨x, pos, pos, pos⟩
  have token : c.token = ⟨.name x, pos⟩ := rfl
  rw [← token, List.mem_append, not_or] at once
  -- the token stands there once, and the variable is its use
  have single : (before ++ c.token :: after).count c.token = 1 := by
    rw [List.count_append, List.count_cons_self, List.count_eq_zero.mpr once.1, List.count_eq_zero.mpr once.2]
  have recorded : 0 < b.nodes.countP c.isVariable :=
    List.countP_pos_iff.mpr ⟨_, isVariable, by simp [Enclosure.isVariable, c]⟩
  obtain ⟨b', reading, alike⟩ := (readsBody_of_body accepted).enclosed (c := c) (by simpa using isParameter)
    (by rw [← token, single]; exact recorded)
  have enclosed : c.apply (before ++ c.token :: after) = before ++ ⟨.punct .leftParen, pos⟩ :: c.token ::
      ⟨.punct .rightParen, pos⟩ :: after := by
    rw [Enclosure.apply_append, Enclosure.apply_token, Enclosure.apply_eq_self once.1,
      Enclosure.apply_eq_self once.2]
  rw [← token, enclosed] at reading
  have same : SameText (before ++ ⟨.punct .leftParen, pos⟩ :: c.token :: ⟨.punct .rightParen, pos⟩ ::
    after) us := by
    simp [SameText, text, token]
  obtain ⟨b'', reading', alike'⟩ := reading.relaid same parameters
  exact ⟨b'', body_eq_ok_iff.mpr reading', alike'.trans alike⟩

theorem parenthesised_parameter_step :
    ∃ b', body ⟨⟨1, 6⟩, ["x"]⟩ [⟨.punct .leftParen, ⟨1, 1⟩⟩, ⟨.name "x", ⟨1, 2⟩⟩, ⟨.punct .rightParen, ⟨1, 3⟩⟩,
        ⟨.punct .increment, ⟨1, 4⟩⟩] = .ok b' ∧
      b'.unplaced =
        .expression nowhere (.unary nowhere .increment .after (.name nowhere (.simple nowhere "x"))) := by
  have accepted : body ⟨⟨1, 4⟩, ["x"]⟩ ([] ++ ⟨.name "x", ⟨1, 1⟩⟩ :: [⟨.punct .increment, ⟨1, 2⟩⟩]) =
      .ok (.expression ⟨1, 1⟩ (.unary ⟨1, 1⟩ .increment .after (.name ⟨1, 1⟩ (.simple ⟨1, 1⟩ "x")))) := by rfl
  exact parenthesised_parameter accepted (by decide) rfl (by decide) (by simp [Body.nodes, Expr.nodes]) rfl

end MacroLift
