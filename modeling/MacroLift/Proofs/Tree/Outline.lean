import MacroLift.Tree.Outline

namespace MacroLift

open Outline (entry indent dedent heading)

theorem outlineEntry_add (depth depth' : Nat) (text : String) :
    outlineEntry (depth + depth') text = outlineEntry depth (outlineEntry depth' text) := by
  rw [outlineEntry, outlineEntry, outlineEntry, Nat.mul_add, ← List.replicate_append_replicate, String.ofList_append,
    String.append_assoc]

/-- An entry that is to be written: its text, and how many levels it is below the first. -/
structure Heading where
  depth : Nat
  text : String

namespace Heading

def written (level : Nat) (h : Heading) : String :=
  outlineEntry (level + h.depth) h.text

def deeper (levels : Nat) (h : Heading) : Heading :=
  ⟨levels + h.depth, h.text⟩

def above (text : String) (inner : List Heading) : List Heading :=
  ⟨0, text⟩ :: inner.map (deeper 1)

theorem map_written_deeper (level levels : Nat) (hs : List Heading) :
    (hs.map (deeper levels)).map (written level) = hs.map (written (level + levels)) := by
  rw [List.map_map]
  refine List.map_congr_left fun h _ => ?_
  rw [Function.comp_apply, written, written, deeper, Nat.add_assoc]

theorem deeper_zero (h : Heading) : h.deeper 0 = h := by
  rw [deeper, Nat.zero_add]

theorem map_deeper_deeper (levels levels' : Nat) (hs : List Heading) :
    (hs.map (deeper levels')).map (deeper levels) = hs.map (deeper (levels + levels')) := by
  rw [List.map_map]
  refine List.map_congr_left fun h _ => ?_
  rw [Function.comp_apply, deeper, deeper, deeper, Nat.add_assoc]

theorem written_eq (level : Nat) (h : Heading) : h.written level = outlineEntry level (h.written 0) := by
  rw [written, written, outlineEntry_add, Nat.zero_add]

theorem infix_deeper_zero (hs : List Heading) : hs.map (deeper 0) <:+: hs := by
  have same : hs.map (deeper 0) = hs := List.map_id'' deeper_zero hs
  exact ⟨[], [], by simp [same]⟩

theorem infix_above {hs inner : List Heading} (text : String) (h : hs <:+: inner) :
    hs.map (deeper 1) <:+: above text inner :=
  (h.map (deeper 1)).trans (List.suffix_cons _ _).isInfix

theorem infix_above_above {hs inner : List Heading} (text : String) (h : hs.map (deeper 1) <:+: inner) :
    hs.map (deeper 2) <:+: above text inner := by
  rw [← map_deeper_deeper 1 1]
  exact infix_above text h

end Heading

mutual

def Expr.headings : Expr → List Heading
  | .name _ ident => Heading.above ("Variable " ++ ident.outlineText) []
  | .call _ callee arguments => Heading.above ("Call " ++ callee.outlineText) (headingsOfExprs arguments)
  | .cast _ target operand => Heading.above ("Cast " ++ target.outlineText) operand.headings
  | .number _ value => Heading.above ("Number " ++ value.text) []
  | .string _ text => Heading.above ("String " ++ text) []
  | .character _ text => Heading.above ("Char " ++ text) []
  | .field _ operand name isArrow =>
    Heading.above ("Field " ++ (if isArrow then "->" else ".") ++ name.outlineText) operand.headings
  | .stringify _ name => Heading.above ("Stringify " ++ name.outlineText) []
  | .concat _ parts => Heading.above "Concat" (headingsOfExprs parts)
  | .unary _ op side operand =>
    Heading.above ("Unary " ++ op.spelling ++ " (" ++ side.outlineText ++ ")") operand.headings
  | .binary _ op left right => Heading.above ("Binary " ++ op.spelling) (left.headings ++ right.headings)
  | .assign _ op target value => Heading.above ("Assign " ++ op.spelling) (target.headings ++ value.headings)
  | .ternary _ condition whenTrue whenFalse =>
    Heading.above "Ternary" (condition.headings ++ (whenTrue.headings ++ whenFalse.headings))
  | .addressOf _ operand => Heading.above "AddressOf" operand.headings
  | .assembly _ template _ _ _ _ => Heading.above ("Asm " ++ " ".intercalate template) []
  | .placeholder _ _ => []

def headingsOfExprs : List Expr → List Heading
  | [] => []
  | e :: es => e.headings ++ headingsOfExprs es

end

mutual

def Stmt.headings : Stmt → List Heading
  | .eval _ value => Heading.above "ExprStmt" value.headings
  | .declare _ type name value isStatic =>
    Heading.above
      ("Declare " ++ (if isStatic then "static " else "") ++ type.outlineText ++ " " ++ name.outlineText)
      value.headings
  | .block _ body => Heading.above "Block" (headingsOfStmts body)
  | .choice _ condition whenTrue whenFalse =>
    Heading.above "If" (condition.headings ++ (Heading.above "Then:" (headingsOfStmts whenTrue) ++
      if whenFalse.isEmpty then [] else Heading.above "Else:" (headingsOfStmts whenFalse)))
  | .loop _ body condition =>
    Heading.above "DoWhile" (headingsOfStmts body ++ Heading.above "While:" condition.headings)
  | .placeholder _ _ => []

def headingsOfStmts : List Stmt → List Heading
  | [] => []
  | s :: ss => s.headings ++ headingsOfStmts ss

end

def Body.headings : Body → List Heading
  | .statement _ value => Heading.above "Body (statement)" value.headings
  | .expression _ value | .both _ _ value => Heading.above "Body (expression)" value.headings

def Node.headings : Node → List Heading
  | .ident _ | .type _ | .signature _ => []
  | .expr value => value.headings
  | .stmt value => value.headings
  | .operand (.mk _ _ _ value) => value.headings
  | .body value => value.headings

/-- The action writes the headings, each as many levels below the present one as its depth tells, and comes back to the
    present level. -/
def Writes (action : StateM Outline Unit) (headings : List Heading) : Prop :=
  ∀ outline, action.run outline =
    ((), ⟨outline.entries ++ headings.map (Heading.written outline.level), outline.level⟩)

namespace Writes

variable {action first second : StateM Outline Unit} {headings hs ks : List Heading}

theorem nothing : Writes (pure ()) [] := by
  intro outline
  rw [List.map_nil, List.append_nil]
  rfl

theorem entry (text : String) : Writes (entry text) [⟨0, text⟩] :=
  fun _ => rfl

theorem followed (h : Writes first hs) (h' : Writes second ks) : Writes (first >>= fun _ => second) (hs ++ ks) := by
  intro outline
  rw [StateT.run_bind, h outline, List.map_append, ← List.append_assoc]
  exact h' _

theorem indented (h : Writes action headings) :
    Writes (indent >>= fun _ => action >>= fun _ => dedent) (headings.map (Heading.deeper 1)) := by
  intro outline
  rw [Heading.map_written_deeper, StateT.run_bind]
  -- the level has been raised
  change (action >>= fun _ => dedent).run ⟨outline.entries, outline.level + 1⟩ = _
  rw [StateT.run_bind, h ⟨outline.entries, outline.level + 1⟩]
  rfl

theorem heading (text : String) (inner : Writes action headings) :
    Writes (heading text action) (Heading.above text headings) :=
  (Writes.entry text).followed inner.indented

theorem heading_indented (text : String) (inner : Writes first hs) (more : Writes second ks) :
    Writes (Outline.heading text first >>= fun _ => indent >>= fun _ => second >>= fun _ => dedent)
      (Heading.above text (hs ++ ks)) := by
  rw [Heading.above, List.map_append, ← List.cons_append]
  exact (inner.heading text).followed more.indented

end Writes

mutual

theorem Expr.writes : (e : Expr) → Writes e.visit e.headings
  | .name _ _ | .number _ _ | .string _ _ | .character _ _ | .stringify _ _ | .assembly _ _ _ _ _ _ => .entry _
  | .call _ _ inner | .concat _ inner => .heading _ (exprs_write inner)
  | .cast _ _ operand | .field _ operand _ _ | .unary _ _ _ operand | .addressOf _ operand =>
    .heading _ operand.writes
  | .binary _ _ left right | .assign _ _ left right => .heading _ (left.writes.followed right.writes)
  | .ternary _ condition whenTrue whenFalse =>
    .heading _ (condition.writes.followed (whenTrue.writes.followed whenFalse.writes))
  | .placeholder _ _ => .nothing

theorem exprs_write : (es : List Expr) → Writes (visitExprs es) (headingsOfExprs es)
  | [] => .nothing
  | e :: es => e.writes.followed (exprs_write es)

end

mutual

theorem Stmt.writes : (s : Stmt) → Writes s.visit s.headings
  | .eval _ value | .declare _ _ _ value _ => .heading _ value.writes
  | .block _ body => .heading _ (stmts_write body)
  | .choice _ condition whenTrue whenFalse => by
    have thenBranch := (stmts_write whenTrue).heading "Then:"
    have elseBranch := (stmts_write whenFalse).heading "Else:"
    rw [Stmt.visit, Stmt.headings]
    cases whenFalse.isEmpty with
    | true =>
      rw [if_pos rfl, if_pos rfl, List.append_nil]
      exact condition.writes.heading_indented "If" thenBranch
    | false =>
      have branches := condition.writes.heading_indented "If" (thenBranch.followed elseBranch)
      rwa [bind_assoc] at branches
  | .loop _ body condition => (stmts_write body).heading_indented "DoWhile" (condition.writes.heading "While:")
  | .placeholder _ _ => .nothing

theorem stmts_write : (ss : List Stmt) → Writes (visitStmts ss) (headingsOfStmts ss)
  | [] => .nothing
  | s :: ss => s.writes.followed (stmts_write ss)

end

theorem Body.writes : (body : Body) → Writes body.visit body.headings
  | .statement _ value => value.writes.heading _
  | .expression _ value | .both _ _ value => value.writes.heading _

theorem Ident.writes : (ident : Ident) → Writes ident.visit []
  | .simple _ _ | .pasted _ _ => .nothing

theorem CType.writes : (type : CType) → Writes type.visit []
  | .named _ name _ => name.writes
  | .pointer _ pointee _ => pointee.writes

theorem Node.writes : (node : Node) → Writes node.visit node.headings
  | .ident value => value.writes
  | .type value => value.writes
  | .expr value => value.writes
  | .stmt value => value.writes
  | .operand (.mk _ _ _ value) => value.writes
  | .signature _ => .nothing
  | .body value => value.writes

def Expr.parts : Expr → List Expr
  | .call _ _ inner | .concat _ inner => inner
  | .cast _ _ operand | .field _ operand _ _ | .unary _ _ _ operand | .addressOf _ operand => [operand]
  | .binary _ _ left right | .assign _ _ left right => [left, right]
  | .ternary _ condition whenTrue whenFalse => [condition, whenTrue, whenFalse]
  | .name _ _ | .number _ _ | .string _ _ | .character _ _ | .stringify _ _ | .assembly _ _ _ _ _ _
  | .placeholder _ _ => []

def Stmt.shown : Stmt → List (Nat × Node)
  | .eval _ value | .declare _ _ _ value _ => [(1, .expr value)]
  | .block _ body => body.map fun s => (1, .stmt s)
  | .choice _ condition whenTrue whenFalse =>
    (1, .expr condition) :: (whenTrue ++ whenFalse).map fun s => (2, .stmt s)
  | .loop _ body condition => (2, .expr condition) :: body.map fun s => (1, .stmt s)
  | .placeholder _ _ => []

/-- The nodes that the outline of a node shows next, and how many levels below it. Branches and conditions that have a
    heading of their own stand below that. -/
def Node.shown : Node → List (Nat × Node)
  | .ident _ | .signature _ => []
  | .type (.named _ name _) => [(0, .ident name)]
  | .type (.pointer _ pointee _) => [(0, .type pointee)]
  | .expr value => value.parts.map fun e => (1, .expr e)
  | .stmt value => value.shown
  | .operand (.mk _ _ _ value) => [(0, .expr value)]
  | .body (.statement _ value) => [(1, .stmt value)]
  | .body (.expression _ value) | .body (.both _ _ value) => [(1, .expr value)]

inductive Node.Shows : Node → Nat → Node → Prop
  | itself (node : Node) : node.Shows 0 node
  | inside {node next inner : Node} {levels depth : Nat} (first : (levels, next) ∈ node.shown)
      (more : next.Shows depth inner) : node.Shows (levels + depth) inner

theorem infix_headingsOfExprs {e : Expr} : {es : List Expr} → e ∈ es → e.headings <:+: headingsOfExprs es
  | first :: es, member => by
    obtain rfl | member := List.mem_cons.mp member
    · exact (List.prefix_append _ _).isInfix
    · exact List.infix_append_of_infix_right (infix_headingsOfExprs member)

theorem infix_headingsOfStmts {s : Stmt} : {ss : List Stmt} → s ∈ ss → s.headings <:+: headingsOfStmts ss
  | first :: ss, member => by
    obtain rfl | member := List.mem_cons.mp member
    · exact (List.prefix_append _ _).isInfix
    · exact List.infix_append_of_infix_right (infix_headingsOfStmts member)

theorem Expr.headings_of_mem_parts {e part : Expr} (member : part ∈ e.parts) :
    ∃ text, e.headings = Heading.above text (headingsOfExprs e.parts) := by
  cases e with
  | name | number | string | character | stringify | assembly | placeholder => exact (List.not_mem_nil member).elim
  | call | concat => exact ⟨_, rfl⟩
  | cast | field | unary | addressOf | binary | assign | ternary =>
    simp only [Expr.headings, Expr.parts, headingsOfExprs, List.append_nil]
    exact ⟨_, rfl⟩

theorem Stmt.infix_of_shown {s : Stmt} {levels : Nat} {next : Node} (shown : (levels, next) ∈ s.shown) :
    next.headings.map (Heading.deeper levels) <:+: s.headings := by
  cases s with
  | eval _ value | declare _ _ _ value =>
    cases List.mem_singleton.mp shown
    exact Heading.infix_above _ List.infix_rfl
  | block _ body =>
    obtain ⟨s, member, same⟩ := List.mem_map.mp shown
    cases same
    exact Heading.infix_above _ (infix_headingsOfStmts member)
  | choice _ condition whenTrue whenFalse =>
    obtain same | shown := List.mem_cons.mp shown
    · cases same
      exact Heading.infix_above _ (List.prefix_append _ _).isInfix
    · obtain ⟨s, member, same⟩ := List.mem_map.mp shown
      cases same
      have branch : s.headings.map (Heading.deeper 1) <:+: Heading.above "Then:" (headingsOfStmts whenTrue) ++
          if whenFalse.isEmpty then [] else Heading.above "Else:" (headingsOfStmts whenFalse) := by
        obtain member | member := List.mem_append.mp member
        · exact List.infix_append_of_infix_left (Heading.infix_above _ (infix_headingsOfStmts member))
        · rw [if_neg (by simpa using List.ne_nil_of_mem member)]
          exact List.infix_append_of_infix_right (Heading.infix_above _ (infix_headingsOfStmts member))
      exact Heading.infix_above_above _ (List.infix_append_of_infix_right branch)
  | loop _ body condition =>
    obtain same | shown := List.mem_cons.mp shown
    · cases same
      exact Heading.infix_above_above _ (List.infix_append_of_infix_right (Heading.infix_above _ List.infix_rfl))
    · obtain ⟨s, member, same⟩ := List.mem_map.mp shown
      cases same
      exact Heading.infix_above _ (List.infix_append_of_infix_left (infix_headingsOfStmts member))
  | placeholder => exact (List.not_mem_nil shown).elim

theorem Node.infix_of_shown {node : Node} {levels : Nat} {next : Node} (shown : (levels, next) ∈ node.shown) :
    next.headings.map (Heading.deeper levels) <:+: node.headings := by
  cases node with
  | ident | signature => exact (List.not_mem_nil shown).elim
  | type value =>
    cases value with
    | named | pointer =>
      cases List.mem_singleton.mp shown
      exact List.infix_rfl
  | expr value =>
    obtain ⟨part, member, same⟩ := List.mem_map.mp shown
    cases same
    obtain ⟨text, written⟩ := Expr.headings_of_mem_parts member
    rw [Node.headings, Node.headings, written]
    exact Heading.infix_above text (infix_headingsOfExprs member)
  | stmt => exact Stmt.infix_of_shown shown
  | operand value =>
    cases value
    cases List.mem_singleton.mp shown
    exact Heading.infix_deeper_zero _
  | body value =>
    cases value with
    | statement | expression | both =>
      cases List.mem_singleton.mp shown
      exact Heading.infix_above _ List.infix_rfl

theorem Node.Shows.isInfix {node inner : Node} {depth : Nat} (shows : node.Shows depth inner) :
    inner.headings.map (Heading.deeper depth) <:+: node.headings := by
  induction shows with
  | itself => exact Heading.infix_deeper_zero _
  | @inside _ _ _ levels _ first _ ih =>
    rw [← Heading.map_deeper_deeper]
    exact (ih.map (Heading.deeper levels)).trans (Node.infix_of_shown first)

def Node.printed (node : Node) : List String :=
  ((Outline.print node).run .empty).2.entries

theorem Node.print_run (node : Node) (outline : Outline) :
    (Outline.print node).run outline =
      ("\n".intercalate (node.headings.map (Heading.written 0)), ⟨node.headings.map (Heading.written 0), 0⟩) := by
  rw [Outline.print, StateT.run_bind]
  -- setting the outline back has been run, whatever it was
  change (node.visit >>= fun _ => do return "\n".intercalate (← get).entries).run .empty = _
  rw [StateT.run_bind, node.writes .empty]
  rfl

theorem Node.printed_eq (node : Node) : node.printed = node.headings.map (Heading.written 0) := by
  rw [Node.printed, Node.print_run]

theorem Node.map_printed (node : Node) (level : Nat) :
    node.printed.map (outlineEntry level) = node.headings.map (Heading.written level) := by
  rw [Node.printed_eq, List.map_map]
  exact List.map_congr_left fun h _ => (h.written_eq level).symm

/-- A node appends to an outline just the entries of its own outline, behind the spaces of the level they stand at, and
    leaves the level as it is. So an outline does not depend on what was printed before it, the spaces in front of an
    entry tell its depth in the tree, and whatever a node shows inside is printed there as it is printed alone. -/
theorem outline_compositional (node : Node) (outline : Outline) :
    node.visit.run outline =
        ((), ⟨outline.entries ++ node.printed.map (outlineEntry outline.level), outline.level⟩) ∧
      (Outline.print node).run outline = (Outline.print node).run .empty ∧
      (Outline.print node).run outline = (node.outlineText, ⟨node.printed, 0⟩) ∧
      node.printed = node.headings.map (fun h => outlineEntry h.depth h.text) ∧
      ∀ depth inner, node.Shows depth inner → inner.printed.map (outlineEntry depth) <:+: node.printed := by
  refine ⟨?_, ?_, ?_, ?_, ?_⟩
  · rw [Node.map_printed]
    exact node.writes outline
  · rw [Node.print_run, Node.print_run]
  · rw [Node.outlineText, Node.print_run, Node.print_run, Node.printed_eq]
  · rw [Node.printed_eq]
    exact List.map_congr_left fun h _ => by rw [Heading.written, Nat.zero_add]
  · intro depth inner shows
    rw [Node.map_printed, Node.printed_eq, ← Nat.zero_add depth, ← Heading.map_written_deeper]
    exact shows.isInfix.map (Heading.written 0)

example (pos : Pos) :
    (Node.stmt (.choice pos (.string pos "c") [.eval pos (.string pos "x")] [])).printed =
      ["If", "  String c", "  Then:", "    ExprStmt", "      String x"] := by
  rfl

end MacroLift
