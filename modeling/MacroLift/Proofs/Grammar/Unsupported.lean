import MacroLift.Proofs.Grammar.Body

namespace MacroLift

open MacroLift.Parser

variable {setting : Setting} {parameters : List String} {ts us rest : List Token} {e : Expr} {next : Option Lexeme}

/-- The tokens end with a name in parentheses that is no parameter. -/
def EndsInType (parameters : List String) (ts : List Token) : Prop :=
  ∃ front parens ident, ts = front ++ parens ∧ InParens parens ident ∧ ident.isOneOf parameters = false

def EndsInStep (parameters : List String) (ts : List Token) : Prop :=
  ∃ front op pos, ts = front ++ [⟨.punct (UnaryOp.punct op), pos⟩] ∧ op.isStep = true ∧ EndsInType parameters front

/-- The lexeme behind the tokens makes no cast of what they end with. -/
def MakesNoCast (parameters : List String) (ts : List Token) (next : Option Lexeme) : Prop :=
  next.any startsOperand = false ∨
    next.any continuesOperand = true ∧ ¬ EndsInType parameters ts ∧ ¬ EndsInStep parameters ts

theorem EndsInType.behind (h : EndsInType parameters us) (ts : List Token) : EndsInType parameters (ts ++ us) := by
  obtain ⟨front, parens, ident, rfl, more⟩ := h
  exact ⟨ts ++ front, parens, ident, by simp, more⟩

theorem EndsInStep.behind (h : EndsInStep parameters us) (ts : List Token) : EndsInStep parameters (ts ++ us) := by
  obtain ⟨front, op, pos, rfl, isStep, ends⟩ := h
  exact ⟨ts ++ front, op, pos, by simp, isStep, ends.behind ts⟩

theorem MakesNoCast.last (h : MakesNoCast parameters (ts ++ us) next) : MakesNoCast parameters us next := by
  rcases h with starts | ⟨continues, noType, noStep⟩
  · exact .inl starts
  · exact .inr ⟨continues, fun ends => noType (ends.behind ts), fun ends => noStep (ends.behind ts)⟩

theorem MakesNoCast.cons {t : Token} (h : MakesNoCast parameters (t :: us) next) :
    MakesNoCast parameters us next := by
  have split : MakesNoCast parameters ([t] ++ us) next := h
  exact split.last

theorem MakesNoCast.noCast (h : MakesNoCast parameters ts next) : ¬ MayCast parameters ts next := by
  rintro ⟨ident, parens, starts, allowed⟩
  rcases h with stops | ⟨continues, noType, -⟩
  · rw [stops] at starts
    cases starts
  · have other : ident.isOneOf parameters = false := Bool.eq_false_iff.mpr fun one => allowed ⟨one, continues⟩
    exact noType ⟨[], ts, ident, rfl, parens, other⟩

theorem MakesNoCast.noStep {op : UnaryOp} {pos : Pos}
    (h : MakesNoCast parameters (ts ++ [⟨.punct op.punct, pos⟩]) next)
    (isStep : op.isStep = true) (cast : MayCast parameters ts (some (.punct op.punct))) :
    next.any startsOperand = false := by
  rcases h with stops | ⟨-, -, noStep⟩
  · exact stops
  · obtain ⟨ident, parens, -, allowed⟩ := cast
    have continues : continuesOperand (.punct op.punct) = true := by
      cases op <;> first | rfl | cases isStep
    have other : ident.isOneOf parameters = false := Bool.eq_false_iff.mpr fun one => allowed ⟨one, continues⟩
    exact absurd ⟨ts, op, pos, rfl, isStep, [], ts, ident, rfl, parens, other⟩ noStep

def Phrase.ReadsBefore (parameters : List String) (next : Option Lexeme) :
    (phrase : Phrase) → List Token → phrase.Tree → Prop
  | .expr rank, ts, e => MakesNoCast parameters ts next → Reads parameters (.expr rank) ts e next
  | .chain, ts, e => MakesNoCast parameters ts next → Reads parameters .chain ts e next
  | _, _, _ => True

theorem Reads.readsBefore {phrase : Phrase} {tree : phrase.Tree} {behind : Option Lexeme}
    (h : Reads parameters phrase ts tree behind) (follow : followsOperand next = true) :
    phrase.ReadsBefore parameters next ts tree := by
  induction h with
  | name names => exact fun _ => .name names
  | number pos text found pasted unpasted => exact fun _ => .number pos text found pasted unpasted
  | character pos text => exact fun _ => .character pos text
  | piece pieces => exact fun _ => .piece pieces
  | pieces pieces => exact fun _ => .pieces pieces
  | parens openPos closePos inner => exact fun _ => .parens openPos closePos inner
  | base _ more ih => exact fun stops => .base (ih stops) more
  | call openPos closePos callee inner noCast noAssembly =>
    exact fun _ => .call openPos closePos callee inner noCast noAssembly
  | field isArrow pos owner names => exact fun _ => .field isArrow pos owner names
  | closed _ whole _ ih => exact fun stops => .closed (ih stops) whole follow
  | chained _ _ _ ih => exact fun stops => .chained (ih stops) follow stops.noCast
  | step pos isStep inner => exact fun stops => .step pos isStep inner follow (stops.noStep isStep)
  | assembly openPos firstPos closePos first opener isWord marked more behind _ noCast =>
    exact fun _ => .assembly openPos firstPos closePos first opener isWord marked more behind follow noCast
  | cast openPos closePos type operand noParameter ih =>
    intro stops
    have starts : Leads startsOperand _ := operand.derives.starts
    obtain ⟨t, us, rfl, -⟩ := starts
    exact .cast openPos closePos type (ih stops.last.cons) noParameter
  | addressOf pos _ ih => exact fun stops => .addressOf pos (ih stops.cons)
  | before op pos _ ih => exact fun stops => .before op pos (ih stops.cons)
  | binary op pos first _ _ second => exact fun stops => .binary op pos first (second stops.last.cons)
  | ternary questionPos colonPos test first _ _ _ second =>
    exact fun stops => .ternary questionPos colonPos test first (second stops.last.cons)
  | assign op pos first _ _ second => exact fun stops => .assign op pos first (second stops.last.cons)
  | tighter low high _ ih => exact fun stops => .tighter low high (ih stops)
  | _ => exact trivial

def Lexeme.isForeignOperator (l : Lexeme) : Bool :=
  [.punct .pipe, .punct .caret, .punct .logicalAnd, .punct .logicalOr, .punct .percent, .punct .leftBracket,
    .punct .rightBracket, .keyword .unionKw].contains l

theorem stops_of_isForeignOperator {l : Lexeme} (h : l.isForeignOperator = true) :
    startsOperand l = false ∧ followsOperand (some l) = true ∧ ∃ construct, unsupported? l = some construct := by
  simp only [Lexeme.isForeignOperator, List.contains_iff_mem, List.mem_cons, List.not_mem_nil, or_false] at h
  rcases h with rfl | rfl | rfl | rfl | rfl | rfl | rfl | rfl
  all_goals exact ⟨rfl, rfl, _, rfl⟩

/-- An accepted expression with an operator behind it that the grammar does not have is rejected for the operator,
    whatever follows. An ampersand is such an operator unless it can begin the operand of a cast. -/
theorem foreign_operator_rejected {pos : Pos} (accepted : body setting ts = .ok (.expression pos e)) (op : Token)
    (rest : List Token)
    (foreign : op.lexeme.isForeignOperator = true ∨
      op.lexeme = .punct .ampersand ∧ ¬ EndsInType setting.parameters ts ∧ ¬ EndsInStep setting.parameters ts) :
    ∃ construct, unsupported? op.lexeme = some construct ∧
      body setting (ts ++ op :: rest) = .error ⟨.unsupported construct, op.pos⟩ := by
  cases readsBody_of_body accepted with | expression _ reading => ?_
  rcases foreign with foreign | ⟨ampersand, noType, noStep⟩
  · obtain ⟨noStart, follows, construct, named⟩ := stops_of_isForeignOperator foreign
    have before : Reads setting.parameters (.expr 1) ts e (some op.lexeme) :=
      reading.readsBefore follows (.inl noStart)
    exact ⟨construct, named, body_unsupported before named⟩
  · have before : Reads setting.parameters (.expr 1) ts e (some op.lexeme) := by
      rw [ampersand]
      exact reading.readsBefore rfl (.inr ⟨rfl, noType, noStep⟩)
    have named : unsupported? op.lexeme = some "bitwise operator '&'" := by rw [ampersand]; rfl
    exact ⟨_, named, body_unsupported before named⟩

theorem EndsInType.last (h : EndsInType parameters ts) :
    ts.getLast?.map Token.lexeme = some (.punct .rightParen) := by
  obtain ⟨front, parens, ident, rfl, ⟨openPos, name, closePos, rfl, -⟩, -⟩ := h
  rw [← List.append_assoc, List.getLast?_concat, Option.map_some]

theorem EndsInStep.last (h : EndsInStep parameters ts) :
    ∃ op : UnaryOp, op.isStep = true ∧ ts.getLast?.map Token.lexeme = some (.punct op.punct) := by
  obtain ⟨front, op, pos, rfl, isStep, -⟩ := h
  exact ⟨op, isStep, by rw [List.getLast?_concat, Option.map_some]⟩

theorem foreign_operator_rejected_conjunction :
    ∃ construct, unsupported? (.punct .ampersand) = some construct ∧
      body ⟨⟨1, 6⟩, ["x", "y"]⟩ [⟨.name "x", ⟨1, 1⟩⟩, ⟨.punct .ampersand, ⟨1, 3⟩⟩, ⟨.name "y", ⟨1, 5⟩⟩] =
        .error ⟨.unsupported construct, ⟨1, 3⟩⟩ := by
  have accepted : body ⟨⟨1, 6⟩, ["x", "y"]⟩ [⟨.name "x", ⟨1, 1⟩⟩] =
      .ok (.expression ⟨1, 1⟩ (.name ⟨1, 1⟩ (.simple ⟨1, 1⟩ "x"))) := by rfl
  have noType : ¬ EndsInType ["x", "y"] [⟨.name "x", ⟨1, 1⟩⟩] := fun ends => nomatch ends.last
  have noStep : ¬ EndsInStep ["x", "y"] [⟨.name "x", ⟨1, 1⟩⟩] := fun ends => by
    obtain ⟨op, -, last⟩ := ends.last
    cases last
  exact foreign_operator_rejected accepted ⟨.punct .ampersand, ⟨1, 3⟩⟩ [⟨.name "y", ⟨1, 5⟩⟩]
    (.inr ⟨rfl, noType, noStep⟩)

/-- In `(x)++ & y` the step and the ampersand belong to the operand of a cast if `x` is no parameter. -/
theorem ampersand_behind_step_accepted :
    ¬ ∀ (setting : Setting) (ts : List Token) (pos : Pos) (e : Expr) (op : Token) (rest : List Token),
      body setting ts = .ok (.expression pos e) → op.lexeme = .punct .ampersand →
        ¬ EndsInType setting.parameters ts →
          ∃ construct, body setting (ts ++ op :: rest) = .error ⟨.unsupported construct, op.pos⟩ := by
  intro claimed
  have noType : ¬ EndsInType [] [⟨.punct .leftParen, ⟨1, 1⟩⟩, ⟨.name "x", ⟨1, 2⟩⟩, ⟨.punct .rightParen, ⟨1, 3⟩⟩,
      ⟨.punct .increment, ⟨1, 4⟩⟩] := fun ends => nomatch ends.last
  obtain ⟨construct, rejected⟩ := claimed ⟨⟨1, 10⟩, []⟩ _ _ _ ⟨.punct .ampersand, ⟨1, 7⟩⟩ [⟨.name "y", ⟨1, 9⟩⟩]
    (by rfl) rfl noType
  cases rejected

end MacroLift
