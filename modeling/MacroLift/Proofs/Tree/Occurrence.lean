import MacroLift.Proofs.Tree.Nodes

namespace MacroLift

structure Occurrence where
  node : Node
  above : List Node

mutual

def Expr.occurrences (above : List Node) (e : Expr) : List Occurrence :=
  ⟨.expr e, above⟩ ::
    match e with
    | .call _ _ inner | .concat _ inner => occurrencesOfExprs (.expr e :: above) inner
    | .cast _ _ operand | .field _ operand _ _ | .unary _ _ _ operand | .addressOf _ operand =>
      operand.occurrences (.expr e :: above)
    | .binary _ _ left right | .assign _ _ left right =>
      left.occurrences (.expr e :: above) ++ right.occurrences (.expr e :: above)
    | .ternary _ condition whenTrue whenFalse =>
      condition.occurrences (.expr e :: above) ++ whenTrue.occurrences (.expr e :: above) ++
        whenFalse.occurrences (.expr e :: above)
    | .assembly _ _ outputs inputs _ _ =>
      occurrencesOfOperands (.expr e :: above) outputs ++ occurrencesOfOperands (.expr e :: above) inputs
    | .name _ _ | .number _ _ | .string _ _ | .character _ _ | .stringify _ _ | .placeholder _ _ => []

def occurrencesOfExprs (above : List Node) : List Expr → List Occurrence
  | [] => []
  | e :: es => e.occurrences above ++ occurrencesOfExprs above es

def AsmOperand.occurrences (above : List Node) : AsmOperand → List Occurrence
  | .mk pos name constraint value =>
    ⟨.operand (.mk pos name constraint value), above⟩ ::
      value.occurrences (.operand (.mk pos name constraint value) :: above)

def occurrencesOfOperands (above : List Node) : List AsmOperand → List Occurrence
  | [] => []
  | operand :: operands => operand.occurrences above ++ occurrencesOfOperands above operands

end

mutual

def Stmt.occurrences (above : List Node) (s : Stmt) : List Occurrence :=
  ⟨.stmt s, above⟩ ::
    match s with
    | .eval _ value | .declare _ _ _ value _ => value.occurrences (.stmt s :: above)
    | .block _ body => occurrencesOfStmts (.stmt s :: above) body
    | .choice _ condition whenTrue whenFalse =>
      condition.occurrences (.stmt s :: above) ++ occurrencesOfStmts (.stmt s :: above) whenTrue ++
        occurrencesOfStmts (.stmt s :: above) whenFalse
    | .loop _ body condition =>
      occurrencesOfStmts (.stmt s :: above) body ++ condition.occurrences (.stmt s :: above)
    | .placeholder _ _ => []

def occurrencesOfStmts (above : List Node) : List Stmt → List Occurrence
  | [] => []
  | s :: ss => s.occurrences above ++ occurrencesOfStmts above ss

end

def Body.occurrences : Body → List Occurrence
  | .statement _ value => value.occurrences []
  | .expression _ value => value.occurrences []
  | .both _ asStatement asExpression => asStatement.occurrences [] ++ asExpression.occurrences []

mutual

theorem Expr.map_occurrences (above : List Node) : (e : Expr) → (e.occurrences above).map (·.node) = e.nodes
  | .name _ _ | .number _ _ | .string _ _ | .character _ _ | .stringify _ _ | .placeholder _ _ => by
    simp [Expr.occurrences]
  | .call _ _ inner | .concat _ inner => by simp [Expr.occurrences, map_occurrencesOfExprs _ inner]
  | .cast _ _ operand | .field _ operand _ _ | .unary _ _ _ operand | .addressOf _ operand => by
    simp [Expr.occurrences, operand.map_occurrences]
  | .binary _ _ left right | .assign _ _ left right => by
    simp [Expr.occurrences, left.map_occurrences, right.map_occurrences]
  | .ternary _ condition whenTrue whenFalse => by
    simp [Expr.occurrences, condition.map_occurrences, whenTrue.map_occurrences, whenFalse.map_occurrences]
  | .assembly _ _ outputs inputs _ _ => by
    simp [Expr.occurrences, map_occurrencesOfOperands _ outputs, map_occurrencesOfOperands _ inputs]

theorem map_occurrencesOfExprs (above : List Node) :
    (es : List Expr) → (occurrencesOfExprs above es).map (·.node) = nodesOfExprs es
  | [] => rfl
  | e :: es => by simp [occurrencesOfExprs, e.map_occurrences, map_occurrencesOfExprs above es]

theorem map_occurrencesOfOperands (above : List Node) :
    (os : List AsmOperand) → (occurrencesOfOperands above os).map (·.node) = nodesOfOperands os
  | [] => rfl
  | .mk _ _ _ value :: os => by
    simp [occurrencesOfOperands, AsmOperand.occurrences, value.map_occurrences, map_occurrencesOfOperands above os]

end

mutual

theorem Stmt.map_occurrences (above : List Node) : (s : Stmt) → (s.occurrences above).map (·.node) = s.nodes
  | .eval _ value | .declare _ _ _ value _ => by simp [Stmt.occurrences, value.map_occurrences]
  | .block _ body => by simp [Stmt.occurrences, map_occurrencesOfStmts _ body]
  | .choice _ condition whenTrue whenFalse => by
    simp [Stmt.occurrences, condition.map_occurrences, map_occurrencesOfStmts _ whenTrue,
      map_occurrencesOfStmts _ whenFalse]
  | .loop _ body condition => by
    simp [Stmt.occurrences, condition.map_occurrences, map_occurrencesOfStmts _ body]
  | .placeholder _ _ => by simp [Stmt.occurrences]

theorem map_occurrencesOfStmts (above : List Node) :
    (ss : List Stmt) → (occurrencesOfStmts above ss).map (·.node) = nodesOfStmts ss
  | [] => rfl
  | s :: ss => by simp [occurrencesOfStmts, s.map_occurrences, map_occurrencesOfStmts above ss]

end

theorem Body.map_occurrences (body : Body) : body.occurrences.map (·.node) = body.nodes := by
  cases body <;> simp [Body.occurrences, Expr.map_occurrences, Stmt.map_occurrences]

theorem Body.mem_nodes_iff {body : Body} {node : Node} :
    node ∈ body.nodes ↔ ∃ o ∈ body.occurrences, o.node = node := by
  rw [← body.map_occurrences, List.mem_map]

def StandUnder (above : List Node) (os : List Occurrence) : Prop :=
  ∀ o ∈ os, above ⊆ o.above

namespace StandUnder

variable {above : List Node} {os ps : List Occurrence}

theorem nil : StandUnder above [] := by
  simp [StandUnder]

theorem cons {node : Node} (more : StandUnder (node :: above) os) : StandUnder above (⟨node, above⟩ :: os) :=
  List.forall_mem_cons.mpr
    ⟨List.Subset.refl above, fun o member => List.Subset.trans (List.subset_cons_self node above) (more o member)⟩

theorem append (first : StandUnder above os) (second : StandUnder above ps) : StandUnder above (os ++ ps) :=
  List.forall_mem_append.mpr ⟨first, second⟩

end StandUnder

mutual

theorem Expr.standUnder (above : List Node) : (e : Expr) → StandUnder above (e.occurrences above)
  | .name _ _ | .number _ _ | .string _ _ | .character _ _ | .stringify _ _ | .placeholder _ _ => .cons .nil
  | .call _ _ inner | .concat _ inner => .cons (exprs_standUnder _ inner)
  | .cast _ _ operand | .field _ operand _ _ | .unary _ _ _ operand | .addressOf _ operand =>
    .cons (operand.standUnder _)
  | .binary _ _ left right | .assign _ _ left right => .cons ((left.standUnder _).append (right.standUnder _))
  | .ternary _ condition whenTrue whenFalse =>
    .cons (((condition.standUnder _).append (whenTrue.standUnder _)).append (whenFalse.standUnder _))
  | .assembly _ _ outputs inputs _ _ =>
    .cons ((operands_standUnder _ outputs).append (operands_standUnder _ inputs))

theorem exprs_standUnder (above : List Node) : (es : List Expr) → StandUnder above (occurrencesOfExprs above es)
  | [] => .nil
  | e :: es => (e.standUnder above).append (exprs_standUnder above es)

theorem operands_standUnder (above : List Node) :
    (os : List AsmOperand) → StandUnder above (occurrencesOfOperands above os)
  | [] => .nil
  | .mk _ _ _ value :: os => (StandUnder.cons (value.standUnder _)).append (operands_standUnder above os)

end

end MacroLift
