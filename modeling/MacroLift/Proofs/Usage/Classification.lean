import MacroLift.Proofs.Tree.Occurrence
import MacroLift.Proofs.Usage.Table

namespace MacroLift

/-- What stands under these nodes is an argument if they are a call, perhaps with casts between. -/
def Role.under : List Node → Role
  | .expr (.call _ _ _) :: _ => .argument
  | .expr (.cast _ _ _) :: above => Role.under above
  | _ => .value

def Node.heldNames : Node → List Ident
  | .expr (.name _ held) | .expr (.call _ held _) | .expr (.field _ _ held _) | .expr (.stringify _ held) => [held]
  | .expr (.cast _ target _) => [target.baseName]
  | .stmt (.declare _ declared held _ _) => [declared.baseName, held]
  | _ => []

def Ident.fragments : Ident → List String
  | .simple _ _ => []
  | .pasted _ fragments => fragments

/-- A node uses a name as a name: as a fragment of a paste, as the operand of `#`, or as the name under the
    pointer levels of the type that it casts to. -/
inductive Node.UsesAsName (name : String) : Node → Prop where
  | pasted {node : Node} {ident : Ident} (held : ident ∈ node.heldNames) (member : name ∈ ident.fragments) :
      UsesAsName name node
  | stringified (pos namePos : Pos) : UsesAsName name (.expr (.stringify pos (.simple namePos name)))
  | target {type : CType} {namePos : Pos} (pos : Pos) (operand : Expr)
      (base : type.baseName = .simple namePos name) : UsesAsName name (.expr (.cast pos type operand))

/-- A node uses a name as a value: it is a variable that is not just handed on to a call. -/
inductive Occurrence.UsesAsValue (name : String) : Occurrence → Prop where
  | variable {above : List Node} (pos namePos : Pos) (kept : Role.under above = .value) :
      UsesAsValue name ⟨.expr (.name pos (.simple namePos name)), above⟩

def Node.callee? : Node → Option String
  | .expr (.call _ (.simple _ function) _) => some function
  | _ => none

def Body.UsesAsName (body : Body) (name : String) : Prop :=
  ∃ node ∈ body.nodes, node.UsesAsName name

def Body.UsesAsValue (body : Body) (name : String) : Prop :=
  ∃ o ∈ body.occurrences, o.UsesAsValue name

def Expr.ownUses (role : Role) : Expr → List Use
  | .name _ ident =>
    match role with
    | .value => ident.valueUses
    | .argument => ident.pastedUses
  | .call _ callee _ => callee.calleeUses
  | .cast _ target _ => target.baseName.nameUses
  | .field _ _ ident _ => ident.pastedUses
  | .stringify _ ident => ident.nameUses
  | _ => []

def Stmt.ownUses : Stmt → List Use
  | .declare _ type name _ _ => type.baseName.pastedUses ++ name.pastedUses
  | _ => []

def Occurrence.uses (o : Occurrence) : List Use :=
  match o.node with
  | .expr e => e.ownUses (.under o.above)
  | .stmt s => s.ownUses
  | _ => []

@[simp] theorem Occurrence.uses_expr (e : Expr) (above : List Node) :
    Occurrence.uses ⟨.expr e, above⟩ = e.ownUses (.under above) := rfl

@[simp] theorem Occurrence.uses_stmt (s : Stmt) (above : List Node) :
    Occurrence.uses ⟨.stmt s, above⟩ = s.ownUses := rfl

@[simp] theorem Occurrence.uses_operand (o : AsmOperand) (above : List Node) :
    Occurrence.uses ⟨.operand o, above⟩ = [] := rfl

variable (use : Use)

mutual

theorem Expr.mem_uses_iff (above : List Node) :
    (e : Expr) → (use ∈ e.uses (.under above) ↔ use ∈ (e.occurrences above).flatMap Occurrence.uses)
  | .name _ _ => by cases role : Role.under above <;> simp [Expr.uses, Expr.occurrences, Expr.ownUses, role]
  | .number _ _ | .string _ _ | .character _ _ | .stringify _ _ | .placeholder _ _ => by
    simp [Expr.uses, Expr.occurrences, Expr.ownUses]
  | .call pos callee arguments => by
    have inner := mem_usesOfExprs_iff (.expr (.call pos callee arguments) :: above) arguments
    simpa [Expr.uses, Expr.occurrences, Expr.ownUses, Role.under] using or_congr_right inner
  | .cast pos target operand => by
    have inner := operand.mem_uses_iff (.expr (.cast pos target operand) :: above)
    simpa [Expr.uses, Expr.occurrences, Expr.ownUses, Role.under] using or_congr_right inner
  | .field pos operand name isArrow => by
    have inner := operand.mem_uses_iff (.expr (.field pos operand name isArrow) :: above)
    simpa [Expr.uses, Expr.occurrences, Expr.ownUses, Role.under] using or_comm.trans (or_congr_right inner)
  | .concat pos parts => by
    have inner := mem_usesOfExprs_iff (.expr (.concat pos parts) :: above) parts
    simpa [Expr.uses, Expr.occurrences, Expr.ownUses, Role.under] using inner
  | .unary pos op side operand => by
    have inner := operand.mem_uses_iff (.expr (.unary pos op side operand) :: above)
    simpa [Expr.uses, Expr.occurrences, Expr.ownUses, Role.under] using inner
  | .addressOf pos operand => by
    have inner := operand.mem_uses_iff (.expr (.addressOf pos operand) :: above)
    simpa [Expr.uses, Expr.occurrences, Expr.ownUses, Role.under] using inner
  | .binary pos op left right => by
    have first := left.mem_uses_iff (.expr (.binary pos op left right) :: above)
    have second := right.mem_uses_iff (.expr (.binary pos op left right) :: above)
    simpa [Expr.uses, Expr.occurrences, Expr.ownUses, Role.under] using or_congr first second
  | .assign pos op target value => by
    have first := target.mem_uses_iff (.expr (.assign pos op target value) :: above)
    have second := value.mem_uses_iff (.expr (.assign pos op target value) :: above)
    simpa [Expr.uses, Expr.occurrences, Expr.ownUses, Role.under] using or_congr first second
  | .ternary pos condition whenTrue whenFalse => by
    have test := condition.mem_uses_iff (.expr (.ternary pos condition whenTrue whenFalse) :: above)
    have first := whenTrue.mem_uses_iff (.expr (.ternary pos condition whenTrue whenFalse) :: above)
    have second := whenFalse.mem_uses_iff (.expr (.ternary pos condition whenTrue whenFalse) :: above)
    simpa [Expr.uses, Expr.occurrences, Expr.ownUses, Role.under] using or_congr test (or_congr first second)
  | .assembly pos template outputs inputs clobbers isVolatile => by
    have written := mem_usesOfOperands_iff
      (.expr (.assembly pos template outputs inputs clobbers isVolatile) :: above) outputs
    have read := mem_usesOfOperands_iff
      (.expr (.assembly pos template outputs inputs clobbers isVolatile) :: above) inputs
    simpa [Expr.uses, Expr.occurrences, Expr.ownUses, Role.under] using or_congr written read

theorem mem_usesOfExprs_iff (above : List Node) :
    (es : List Expr) →
      (use ∈ usesOfExprs (.under above) es ↔ use ∈ (occurrencesOfExprs above es).flatMap Occurrence.uses)
  | [] => by simp [usesOfExprs, occurrencesOfExprs]
  | e :: es => by
    simpa [usesOfExprs, occurrencesOfExprs] using or_congr (e.mem_uses_iff above) (mem_usesOfExprs_iff above es)

theorem mem_usesOfOperands_iff (above : List Node) :
    (os : List AsmOperand) →
      (use ∈ usesOfOperands os ↔ use ∈ (occurrencesOfOperands above os).flatMap Occurrence.uses)
  | [] => by simp [usesOfOperands, occurrencesOfOperands]
  | .mk pos name constraint value :: os => by
    have inner := value.mem_uses_iff (.operand (.mk pos name constraint value) :: above)
    simpa [usesOfOperands, occurrencesOfOperands, AsmOperand.uses, AsmOperand.occurrences, Role.under] using
      or_congr inner (mem_usesOfOperands_iff above os)

end

mutual

theorem Stmt.mem_uses_iff (above : List Node) :
    (s : Stmt) → (use ∈ s.uses ↔ use ∈ (s.occurrences above).flatMap Occurrence.uses)
  | .eval pos value => by
    have inner := value.mem_uses_iff use (.stmt (.eval pos value) :: above)
    simpa [Stmt.uses, Stmt.occurrences, Stmt.ownUses, Role.under] using inner
  | .declare pos type name value isStatic => by
    have inner := value.mem_uses_iff use (.stmt (.declare pos type name value isStatic) :: above)
    simpa [Stmt.uses, Stmt.occurrences, Stmt.ownUses, Role.under, or_assoc] using
      or_congr_right (or_congr_right inner)
  | .block pos body => by
    have inner := mem_usesOfStmts_iff (.stmt (.block pos body) :: above) body
    simpa [Stmt.uses, Stmt.occurrences, Stmt.ownUses] using inner
  | .choice pos condition whenTrue whenFalse => by
    have test := condition.mem_uses_iff use (.stmt (.choice pos condition whenTrue whenFalse) :: above)
    have first := mem_usesOfStmts_iff (.stmt (.choice pos condition whenTrue whenFalse) :: above) whenTrue
    have second := mem_usesOfStmts_iff (.stmt (.choice pos condition whenTrue whenFalse) :: above) whenFalse
    simpa [Stmt.uses, Stmt.occurrences, Stmt.ownUses, Role.under] using or_congr test (or_congr first second)
  | .loop pos body condition => by
    have inner := mem_usesOfStmts_iff (.stmt (.loop pos body condition) :: above) body
    have test := condition.mem_uses_iff use (.stmt (.loop pos body condition) :: above)
    simpa [Stmt.uses, Stmt.occurrences, Stmt.ownUses, Role.under] using or_congr inner test
  | .placeholder _ _ => by simp [Stmt.uses, Stmt.occurrences, Stmt.ownUses]

theorem mem_usesOfStmts_iff (above : List Node) :
    (ss : List Stmt) → (use ∈ usesOfStmts ss ↔ use ∈ (occurrencesOfStmts above ss).flatMap Occurrence.uses)
  | [] => by simp [usesOfStmts, occurrencesOfStmts]
  | s :: ss => by
    simpa [usesOfStmts, occurrencesOfStmts] using or_congr (s.mem_uses_iff above) (mem_usesOfStmts_iff above ss)

end

theorem Body.mem_uses_iff (body : Body) : use ∈ body.uses ↔ ∃ o ∈ body.occurrences, use ∈ o.uses := by
  rw [← List.mem_flatMap]
  cases body with
  | statement pos value => exact value.mem_uses_iff use []
  | expression pos value => exact value.mem_uses_iff use []
  | both pos asStatement asExpression =>
    have first := asStatement.mem_uses_iff use []
    have second : use ∈ asExpression.uses .value ↔ _ := asExpression.mem_uses_iff use []
    rw [Body.uses, Body.occurrences, List.flatMap_append, List.mem_append, List.mem_append, first, second]

variable {name : String}

namespace Ident

variable {ident : Ident}

@[simp] theorem asName_mem_pastedUses : .asName name ∈ ident.pastedUses ↔ name ∈ ident.fragments := by
  cases ident <;> simp [pastedUses, fragments]

@[simp] theorem asName_mem_valueUses : .asName name ∈ ident.valueUses ↔ name ∈ ident.fragments := by
  cases ident <;> simp [valueUses, fragments]

@[simp] theorem asName_mem_calleeUses : .asName name ∈ ident.calleeUses ↔ name ∈ ident.fragments := by
  cases ident <;> simp [calleeUses, fragments]

@[simp] theorem asName_mem_nameUses :
    .asName name ∈ ident.nameUses ↔ name ∈ ident.fragments ∨ ∃ pos, ident = .simple pos name := by
  cases ident <;> simp [nameUses, fragments, eq_comm]

@[simp] theorem asValue_mem_pastedUses : .asValue name ∉ ident.pastedUses := by
  cases ident <;> simp [pastedUses]

@[simp] theorem asValue_mem_calleeUses : .asValue name ∉ ident.calleeUses := by
  cases ident <;> simp [calleeUses]

@[simp] theorem asValue_mem_nameUses : .asValue name ∉ ident.nameUses := by
  cases ident <;> simp [nameUses]

@[simp] theorem asValue_mem_valueUses : .asValue name ∈ ident.valueUses ↔ ∃ pos, ident = .simple pos name := by
  cases ident <;> simp [valueUses, eq_comm]

end Ident

theorem Node.usesAsName_iff {node : Node} :
    node.UsesAsName name ↔
      (∃ ident ∈ node.heldNames, name ∈ ident.fragments) ∨
        (∃ pos namePos, node = .expr (.stringify pos (.simple namePos name))) ∨
          ∃ pos type operand namePos,
            node = .expr (.cast pos type operand) ∧ type.baseName = .simple namePos name := by
  constructor
  · rintro (⟨held, member⟩ | ⟨pos, namePos⟩ | ⟨pos, operand, base⟩)
    · exact .inl ⟨_, held, member⟩
    · exact .inr (.inl ⟨pos, namePos, rfl⟩)
    · exact .inr (.inr ⟨pos, _, operand, _, rfl, base⟩)
  · rintro (⟨ident, held, member⟩ | ⟨pos, namePos, rfl⟩ | ⟨pos, type, operand, namePos, rfl, base⟩)
    · exact .pasted held member
    · exact .stringified pos namePos
    · exact .target pos operand base

namespace Occurrence

variable {o : Occurrence}

theorem asName_mem_uses : .asName name ∈ o.uses ↔ o.node.UsesAsName name := by
  obtain ⟨node, above⟩ := o
  rw [Node.usesAsName_iff]
  cases node with
  | expr e =>
    cases e with
    | name pos ident => cases role : Role.under above <;> simp [Expr.ownUses, Node.heldNames, role]
    | _ => simp [Expr.ownUses, Node.heldNames, and_assoc]
  | stmt s => cases s <;> simp [Stmt.ownUses, Node.heldNames]
  | _ => simp [Occurrence.uses, Node.heldNames]

theorem asValue_mem_uses : .asValue name ∈ o.uses ↔ o.UsesAsValue name := by
  constructor
  · obtain ⟨node, above⟩ := o
    intro member
    cases node with
    | expr e =>
      cases e with
      | name pos ident =>
        cases role : Role.under above with
        | value =>
          obtain ⟨namePos, rfl⟩ : ∃ namePos, ident = .simple namePos name := by
            simpa [Expr.ownUses, role] using member
          exact .variable pos namePos role
        | argument => simp [Expr.ownUses, role] at member
      | _ => simp [Expr.ownUses] at member
    | stmt s => cases s <;> simp [Stmt.ownUses] at member
    | _ => cases member
  · rintro ⟨pos, namePos, kept⟩
    simp [Expr.ownUses, kept]

end Occurrence

namespace Body

variable {body : Body}

theorem asName_mem_uses : .asName name ∈ body.uses ↔ body.UsesAsName name := by
  simp only [mem_uses_iff, Occurrence.asName_mem_uses, UsesAsName, mem_nodes_iff]
  constructor
  · rintro ⟨o, member, used⟩
    exact ⟨o.node, ⟨o, member, rfl⟩, used⟩
  · rintro ⟨_, ⟨o, member, rfl⟩, used⟩
    exact ⟨o, member, used⟩

theorem asValue_mem_uses : .asValue name ∈ body.uses ↔ body.UsesAsValue name := by
  simp only [mem_uses_iff, Occurrence.asValue_mem_uses, UsesAsValue]

end Body

@[simp] theorem Ident.callees_pastedUses (ident : Ident) : ident.pastedUses.filterMap Use.callee? = [] := by
  cases ident <;> simp [Ident.pastedUses, Use.callee?]

@[simp] theorem Ident.callees_valueUses (ident : Ident) : ident.valueUses.filterMap Use.callee? = [] := by
  cases ident <;> simp [Ident.valueUses, Use.callee?]

@[simp] theorem Ident.callees_nameUses (ident : Ident) : ident.nameUses.filterMap Use.callee? = [] := by
  cases ident <;> simp [Ident.nameUses, Use.callee?]

theorem Ident.callees_calleeUses (pos : Pos) (ident : Ident) (arguments : List Expr) :
    ident.calleeUses.filterMap Use.callee? = (Node.callee? (.expr (.call pos ident arguments))).toList := by
  cases ident <;> simp [Ident.calleeUses, Use.callee?, Node.callee?]

mutual

theorem Expr.callees_uses (role : Role) :
    (e : Expr) → (e.uses role).filterMap Use.callee? = e.nodes.filterMap Node.callee?
  | .name _ _ => by cases role <;> simp [Expr.uses, Node.callee?]
  | .number _ _ | .string _ _ | .character _ _ | .stringify _ _ | .placeholder _ _ => by
    simp [Expr.uses, Node.callee?]
  | .call pos callee arguments => by
    rw [Expr.uses, List.filterMap_append, callee.callees_calleeUses pos arguments,
      callees_usesOfExprs .argument arguments, Expr.nodes, List.filterMap_cons]
    cases Node.callee? (.expr (.call pos callee arguments)) <;> rfl
  | .cast _ _ operand => by simp [Expr.uses, List.filterMap_cons, Node.callee?, operand.callees_uses role]
  | .field _ operand _ _ | .unary _ _ _ operand | .addressOf _ operand => by
    simp [Expr.uses, List.filterMap_cons, Node.callee?, operand.callees_uses .value]
  | .concat _ parts => by simp [Expr.uses, List.filterMap_cons, Node.callee?, callees_usesOfExprs .value parts]
  | .binary _ _ left right | .assign _ _ left right => by
    simp [Expr.uses, List.filterMap_cons, Node.callee?, left.callees_uses .value, right.callees_uses .value]
  | .ternary _ condition whenTrue whenFalse => by
    simp [Expr.uses, List.filterMap_cons, Node.callee?, condition.callees_uses .value,
      whenTrue.callees_uses .value, whenFalse.callees_uses .value]
  | .assembly _ _ outputs inputs _ _ => by
    simp [Expr.uses, List.filterMap_cons, Node.callee?, callees_usesOfOperands outputs,
      callees_usesOfOperands inputs]

theorem callees_usesOfExprs (role : Role) :
    (es : List Expr) → (usesOfExprs role es).filterMap Use.callee? = (nodesOfExprs es).filterMap Node.callee?
  | [] => rfl
  | e :: es => by simp [usesOfExprs, e.callees_uses role, callees_usesOfExprs role es]

theorem callees_usesOfOperands :
    (os : List AsmOperand) →
      (usesOfOperands os).filterMap Use.callee? = (nodesOfOperands os).filterMap Node.callee?
  | [] => rfl
  | .mk _ _ _ value :: os => by
    simp [usesOfOperands, AsmOperand.uses, List.filterMap_cons, Node.callee?, value.callees_uses .value,
      callees_usesOfOperands os]

end

mutual

theorem Stmt.callees_uses : (s : Stmt) → s.uses.filterMap Use.callee? = s.nodes.filterMap Node.callee?
  | .eval _ value | .declare _ _ _ value _ => by
    simp [Stmt.uses, List.filterMap_cons, Node.callee?, value.callees_uses .value]
  | .block _ body => by simp [Stmt.uses, List.filterMap_cons, Node.callee?, callees_usesOfStmts body]
  | .choice _ condition whenTrue whenFalse => by
    simp [Stmt.uses, List.filterMap_cons, Node.callee?, condition.callees_uses .value,
      callees_usesOfStmts whenTrue, callees_usesOfStmts whenFalse]
  | .loop _ body condition => by
    simp [Stmt.uses, List.filterMap_cons, Node.callee?, callees_usesOfStmts body, condition.callees_uses .value]
  | .placeholder _ _ => by simp [Stmt.uses, Node.callee?]

theorem callees_usesOfStmts :
    (ss : List Stmt) → (usesOfStmts ss).filterMap Use.callee? = (nodesOfStmts ss).filterMap Node.callee?
  | [] => rfl
  | s :: ss => by simp [usesOfStmts, s.callees_uses, callees_usesOfStmts ss]

end

theorem Body.callees_uses (body : Body) : body.uses.filterMap Use.callee? = body.nodes.filterMap Node.callee? := by
  cases body <;> simp [Body.uses, Expr.callees_uses, Stmt.callees_uses]

theorem strongest_usage (asName asValue : Prop) [Decidable asName] [Decidable asValue] :
    let usage : Usage := if asName then .identifier else if asValue then .expression else .unknown
    (usage = .identifier ↔ asName) ∧ (usage = .expression ↔ ¬ asName ∧ asValue) ∧
      (usage = .unknown ↔ ¬ asName ∧ ¬ asValue) := by
  by_cases asName <;> by_cases asValue <;> simp [*]

namespace Analysis

theorem identifier_of_usesAsName {macroName parameter : String} {parameters : List String} {usage : Usage}
    {body : Body} (listed : (parameter, usage) ∈ (Analysis.of macroName parameters body).parameters)
    (used : body.UsesAsName (bindingName parameter)) : usage = .identifier := by
  obtain ⟨-, rfl⟩ := mem_parameters_iff.mp listed
  rw [if_pos (Body.asName_mem_uses.mpr used)]

theorem isPattern_of_identifier {analysis : Analysis} {parameter : String}
    (listed : (parameter, .identifier) ∈ analysis.parameters) : analysis.isPattern = true :=
  List.any_eq_true.mpr ⟨_, listed, rfl⟩

end Analysis

/-- A parameter is an identifier if the body uses it as a name anywhere; otherwise it is an expression if the body
    uses it as a value or it takes all further arguments; otherwise nothing is known of it. The functions are those
    that are called by their own names, in the order of their first calls. -/
theorem classification_exact (signature : Signature) (body : Body) :
    let analysis := Analysis.of signature.name signature.parameters body
    analysis.parameters.map Prod.fst = signature.parameters ∧
      (∀ parameter usage, (parameter, usage) ∈ analysis.parameters →
        let name := bindingName parameter
        let isValue := body.UsesAsValue name ∨ name = variadicName ∧ signature.isVariadic = true
        (usage = .identifier ↔ body.UsesAsName name) ∧
          (usage = .expression ↔ ¬ body.UsesAsName name ∧ isValue) ∧
            (usage = .unknown ↔ ¬ body.UsesAsName name ∧ ¬ isValue)) ∧
      analysis.calls = (body.nodes.filterMap Node.callee?).eraseDups := by
  refine ⟨by simp [Analysis.of, Function.comp_def], fun parameter usage listed => ?_, ?_⟩
  · obtain ⟨-, rfl⟩ := Analysis.mem_parameters_iff.mp listed
    simp only [← Body.asName_mem_uses, ← Body.asValue_mem_uses, Signature.isVariadic, List.contains_iff_mem]
    exact strongest_usage _ _
  · rw [Analysis.calls_of, Body.callees_uses]

theorem classification_exact_stringified :
    let start : Pos := ⟨1, 1⟩
    let body : Body :=
      .expression start
        (.binary start .add (.name start (.simple start "x")) (.stringify ⟨1, 5⟩ (.simple ⟨1, 6⟩ "x")))
    ("x", .identifier) ∈ (Analysis.of "F" ["x", "y"] body).parameters ∧ body.UsesAsName "x" ∧
      ("y", .unknown) ∈ (Analysis.of "F" ["x", "y"] body).parameters ∧ ¬ body.UsesAsName "y" := by
  intro start body
  have exact := (classification_exact ⟨start, "F", ["x", "y"]⟩ body).2.1
  have first : ("x", .identifier) ∈ (Analysis.of "F" ["x", "y"] body).parameters := by decide
  have second : ("y", .unknown) ∈ (Analysis.of "F" ["x", "y"] body).parameters := by decide
  exact ⟨first, (exact _ _ first).1.mp rfl, second, ((exact _ _ second).2.2.mp rfl).1⟩

end MacroLift
