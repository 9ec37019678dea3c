import Mathlib.Algebra.Group.Nat.Defs
import MacroLift.Proofs.Batch.Translator
import MacroLift.Proofs.Grammar.Phrase
import MacroLift.Proofs.Rust.Pieces
import MacroLift.Proofs.Rust.Rendering

namespace MacroLift

structure CallSite where
  callee : Ident
  /-- How many targets of assignments and operands of steps the call stands in. -/
  doublings : Nat
  deriving Repr, DecidableEq

def doubled (sites : List CallSite) : List CallSite :=
  sites.map fun site => { site with doublings := site.doublings + 1 }

mutual

/-- The calls of an expression. Those in operands of assembly do not count. -/
def Expr.callSites : Expr → List CallSite
  | .call _ callee arguments => ⟨callee.unplaced, 0⟩ :: callSitesOfExprs arguments
  | .cast _ _ operand | .field _ operand _ _ | .addressOf _ operand => operand.callSites
  | .concat _ parts => callSitesOfExprs parts
  | .unary _ op _ operand => if op.isStep then doubled operand.callSites else operand.callSites
  | .binary _ _ left right => left.callSites ++ right.callSites
  | .assign _ _ target value => doubled target.callSites ++ value.callSites
  | .ternary _ condition whenTrue whenFalse =>
    condition.callSites ++ whenTrue.callSites ++ whenFalse.callSites
  | .name _ _ | .number _ _ | .string _ _ | .character _ _ | .stringify _ _ | .assembly _ _ _ _ _ _
  | .placeholder _ _ => []

def callSitesOfExprs : List Expr → List CallSite
  | [] => []
  | e :: es => e.callSites ++ callSitesOfExprs es

end

mutual

def Stmt.callSites : Stmt → List CallSite
  | .eval _ value | .declare _ _ _ value _ => value.callSites
  | .block _ body => callSitesOfStmts body
  | .choice _ condition whenTrue whenFalse =>
    condition.callSites ++ callSitesOfStmts whenTrue ++ callSitesOfStmts whenFalse
  | .loop _ body condition => callSitesOfStmts body ++ condition.callSites
  | .placeholder _ _ => []

def callSitesOfStmts : List Stmt → List CallSite
  | [] => []
  | s :: ss => s.callSites ++ callSitesOfStmts ss

end

def Body.callSites : Body → List CallSite
  | .expression _ value | .both _ _ value => value.callSites
  | .statement _ value => value.callSites

inductive Stretch where
  | text (text : String)
  | call (callee : Ident)
  deriving Repr, DecidableEq

def commaSeparated (parts : List (List Stretch)) : List Stretch :=
  List.intercalate [.text ", "] parts

def unaryStretches (op : UnaryOp) (side : Side) (operand : List Stretch) : List Stretch :=
  match op, side with
  | .increment, .before | .decrement, .before =>
    .text "\x7b " :: operand ++ .text " -= 1; " :: operand ++ [.text " \x7d"]
  | .increment, .after | .decrement, .after =>
    .text "\x7b let prev = " :: operand ++ .text "; " :: operand ++ [.text " -= 1; prev \x7d"]
  | .logicalNot, _ | .bitwiseNot, _ => .text "!" :: operand
  | .negate, _ => .text "-" :: operand
  | .plus, _ => operand

namespace Naming

def stretchText (naming : Naming) : Stretch → String
  | .text text => text
  | .call callee => naming.ident callee ++ "("

def stretchLine (naming : Naming) (line : List Stretch) : String :=
  String.join (line.map naming.stretchText)

end Naming

section

variable (naming : Naming)

mutual

def Expr.stretches : Expr → List Stretch
  | .call _ callee arguments =>
    .call callee.unplaced :: commaSeparated (stretchesOfArguments arguments) ++ [.text ")"]
  | .cast _ target operand =>
    if target.isVoid then .text "\x7b drop(" :: operand.stretches ++ [.text ") \x7d"]
    else .text "(" :: operand.stretches ++ [.text (" as " ++ naming.type target ++ ")")]
  | .field _ operand name _ =>
    .text "Deref(unsafe \x7b &mut *::core::ptr::addr_of_mut!((*" :: operand.stretches ++
      [.text (")." ++ naming.ident name ++ ") \x7d).convert()")]
  | .concat _ parts => .text "::core::concat!(" :: commaSeparated (stretchesOfExprs parts) ++ [.text ")"]
  | .unary _ op side operand => unaryStretches op side operand.stretches
  | .binary _ op left right =>
    .text "(" :: left.stretches ++ .text (" " ++ op.spelling ++ " ") :: right.stretches ++ [.text ")"]
  | .assign _ op target value =>
    .text "\x7b " :: target.stretches ++ .text (" " ++ op.spelling ++ " ") :: value.stretches ++
      .text "; " :: target.stretches ++ [.text " \x7d"]
  | .ternary _ condition whenTrue whenFalse =>
    .text "if " :: condition.stretches ++ .text " \x7b " :: whenTrue.stretches ++
      .text " \x7d else \x7b " :: whenFalse.stretches ++ [.text " \x7d"]
  | .addressOf _ operand => .text "::core::ptr::addr_of_mut!(" :: operand.stretches ++ [.text ")"]
  | e => [.text (e.render naming)]

def stretchesOfExprs : List Expr → List (List Stretch)
  | [] => []
  | e :: es => e.stretches :: stretchesOfExprs es

def stretchesOfArguments : List Expr → List (List Stretch)
  | [] => []
  | e :: es =>
    (if e.isConvertible then [.text (argumentText true (e.render naming))] else e.stretches) ::
      stretchesOfArguments es

end

def steppedStretches (lines : List (List Stretch)) : List (List Stretch) :=
  lines.map fun line => if (naming.stretchLine line).isEmpty then line else .text indentStep :: line

mutual

def Stmt.stretchLines : Stmt → List (List Stretch)
  | .eval _ value => [value.stretches naming ++ [.text ";"]]
  | .declare _ type name value isStatic =>
    [.text ((if isStatic then "static mut " else "let mut ") ++ naming.ident name ++ ": " ++ naming.type type ++
      " = ") :: value.stretches naming ++ [.text ";"]]
  | .block _ body => [.text "\x7b"] :: steppedStretches naming (stretchLinesOfStmts body) ++ [[.text "\x7d"]]
  | .choice _ condition whenTrue whenFalse =>
    (.text "if " :: condition.stretches naming ++ [.text " \x7b"]) ::
      steppedStretches naming (stretchLinesOfStmts whenTrue) ++
      (if whenFalse.isEmpty then []
        else [.text "\x7d else \x7b"] :: steppedStretches naming (stretchLinesOfStmts whenFalse)) ++
      [[.text "\x7d"]]
  | .loop _ body condition =>
    [.text "loop \x7b"] ::
      steppedStretches naming
        (stretchLinesOfStmts body ++
          [.text "if (" :: condition.stretches naming ++ [.text " as u8) == 0 \x7b"],
            [.text (indentStep ++ "break;")], [.text "\x7d"]]) ++
      [[.text "\x7d"]]
  | .placeholder _ _ => []

def stretchLinesOfStmts : List Stmt → List (List Stretch)
  | [] => []
  | s :: ss => s.stretchLines ++ stretchLinesOfStmts ss

end

def Body.stretchLines : Body → List (List Stretch)
  | .expression _ value | .both _ _ value => [value.stretches naming]
  | .statement _ (.block _ body) => stretchLinesOfStmts naming body
  | .statement _ value => value.stretchLines naming

end

namespace Naming

variable (naming : Naming)

@[simp] theorem stretchLine_nil : naming.stretchLine [] = "" := by
  simp [stretchLine]

@[simp] theorem stretchLine_cons (stretch : Stretch) (line : List Stretch) :
    naming.stretchLine (stretch :: line) = naming.stretchText stretch ++ naming.stretchLine line := by
  simp [stretchLine]

@[simp] theorem stretchLine_append (first second : List Stretch) :
    naming.stretchLine (first ++ second) = naming.stretchLine first ++ naming.stretchLine second := by
  simp [stretchLine, String.join_append]

@[simp] theorem stretchText_text (text : String) : naming.stretchText (.text text) = text := rfl

@[simp] theorem stretchText_call (callee : Ident) :
    naming.stretchText (.call callee) = naming.ident callee ++ "(" := rfl

@[simp] theorem stretchLine_commaSeparated (parts : List (List Stretch)) :
    naming.stretchLine (commaSeparated parts) = ", ".intercalate (parts.map naming.stretchLine) := by
  unfold commaSeparated
  induction parts with
  | nil => simp
  | cons part parts ih =>
    cases parts with
    | nil => simp
    | cons next parts => simp [List.intercalate_cons_cons, String.intercalate_cons_cons, String.append_assoc, ih]

theorem stretchLine_unaryStretches (op : UnaryOp) (side : Side) (operand : List Stretch) :
    naming.stretchLine (unaryStretches op side operand) = unaryText op side (naming.stretchLine operand) := by
  unfold unaryStretches unaryText
  cases op <;> cases side <;> simp [String.append_assoc]

theorem stretchLine_stepped (lines : List (List Stretch)) :
    (steppedStretches naming lines).map naming.stretchLine = indented (lines.map naming.stretchLine) := by
  simp only [steppedStretches, indented, List.map_map]
  refine List.map_congr_left fun line _ => ?_
  dsimp only [Function.comp]
  split <;> simp

end Naming

section

variable (naming : Naming)

mutual

theorem Expr.stretchLine_stretches : (e : Expr) → naming.stretchLine (e.stretches naming) = e.render naming
  | .call _ callee arguments => by
    unfold Expr.stretches Expr.render
    simp [stretchLine_arguments arguments, String.append_assoc]
  | .cast _ target operand => by
    unfold Expr.stretches Expr.render
    split <;> simp [operand.stretchLine_stretches, String.append_assoc]
  | .field _ operand _ _ | .addressOf _ operand => by
    unfold Expr.stretches Expr.render
    simp [operand.stretchLine_stretches, String.append_assoc]
  | .concat _ parts => by
    unfold Expr.stretches Expr.render
    simp [stretchLine_exprs parts, String.append_assoc]
  | .unary _ _ _ operand => by
    unfold Expr.stretches Expr.render
    rw [naming.stretchLine_unaryStretches, operand.stretchLine_stretches]
  | .binary _ _ left right | .assign _ _ left right => by
    unfold Expr.stretches Expr.render
    simp [left.stretchLine_stretches, right.stretchLine_stretches, String.append_assoc]
  | .ternary _ condition whenTrue whenFalse => by
    unfold Expr.stretches Expr.render
    simp [condition.stretchLine_stretches, whenTrue.stretchLine_stretches, whenFalse.stretchLine_stretches,
      String.append_assoc]
  | .name _ _ | .number _ _ | .string _ _ | .character _ _ | .stringify _ _ | .assembly _ _ _ _ _ _
  | .placeholder _ _ => by simp [Expr.stretches]

theorem stretchLine_exprs :
    (es : List Expr) → (stretchesOfExprs naming es).map naming.stretchLine = renderExprs naming es
  | [] => rfl
  | e :: es => by simp [stretchesOfExprs, renderExprs, e.stretchLine_stretches, stretchLine_exprs es]

theorem stretchLine_arguments :
    (es : List Expr) → (stretchesOfArguments naming es).map naming.stretchLine = renderArguments naming es
  | [] => rfl
  | e :: es => by
    have own : naming.stretchLine
        (if e.isConvertible then [.text (argumentText true (e.render naming))] else e.stretches naming) =
          argumentText e.isConvertible (e.render naming) := by
      cases e.isConvertible with
      | true => simp
      | false => simp [argumentText, e.stretchLine_stretches]
    simp [stretchesOfArguments, renderArguments, own, stretchLine_arguments es]

end

mutual

theorem Stmt.stretchLine_stretchLines :
    (s : Stmt) → (s.stretchLines naming).map naming.stretchLine = s.render naming
  | .eval _ value => by
    unfold Stmt.stretchLines Stmt.render
    simp [value.stretchLine_stretches]
  | .declare _ type name value isStatic => by
    unfold Stmt.stretchLines Stmt.render declarationText
    simp [value.stretchLine_stretches, String.append_assoc]
  | .block _ body => by
    unfold Stmt.stretchLines Stmt.render
    simp [naming.stretchLine_stepped, stretchLine_stmts body]
  | .choice _ condition whenTrue whenFalse => by
    unfold Stmt.stretchLines Stmt.render
    split <;>
      simp [condition.stretchLine_stretches, naming.stretchLine_stepped, stretchLine_stmts whenTrue,
        stretchLine_stmts whenFalse, String.append_assoc]
  | .loop _ body condition => by
    unfold Stmt.stretchLines Stmt.render
    simp [naming.stretchLine_stepped, stretchLine_stmts body, condition.stretchLine_stretches, String.append_assoc]
  | .placeholder _ _ => by
    unfold Stmt.stretchLines Stmt.render
    rfl

theorem stretchLine_stmts :
    (ss : List Stmt) → (stretchLinesOfStmts naming ss).map naming.stretchLine = renderStmts naming ss
  | [] => rfl
  | s :: ss => by simp [stretchLinesOfStmts, renderStmts, s.stretchLine_stretchLines, stretchLine_stmts ss]

end

theorem Body.stretchLine_stretchLines (body : Body) :
    (body.stretchLines naming).map naming.stretchLine = body.render naming := by
  cases body with
  | expression _ value | both _ _ value => simp [Body.stretchLines, Body.render, value.stretchLine_stretches]
  | statement _ value =>
    cases value with
    | block _ body => exact stretchLine_stmts naming body
    | _ => exact Stmt.stretchLine_stretchLines naming _

end

/-- How often a call is rendered that stands in so many targets and operands of steps. -/
def CallSite.times (site : CallSite) : Nat :=
  2 ^ site.doublings

def timesOf (callee : Ident) : List CallSite → Nat
  | [] => 0
  | site :: sites => (if site.callee = callee then site.times else 0) + timesOf callee sites

variable {callee : Ident} {sites : List CallSite} {site : CallSite}

@[simp] theorem timesOf_nil : timesOf callee [] = 0 := rfl

@[simp] theorem timesOf_cons :
    timesOf callee (site :: sites) = (if site.callee = callee then site.times else 0) + timesOf callee sites := rfl

@[simp] theorem timesOf_append (first second : List CallSite) :
    timesOf callee (first ++ second) = timesOf callee first + timesOf callee second := by
  induction first with
  | nil => simp
  | cons site first ih => rw [List.cons_append, timesOf_cons, timesOf_cons, ih, Nat.add_assoc]

@[simp] theorem timesOf_doubled (sites : List CallSite) :
    timesOf callee (doubled sites) = 2 * timesOf callee sites := by
  induction sites with
  | nil => rfl
  | cons site sites ih =>
    have own : (⟨site.callee, site.doublings + 1⟩ : CallSite).times = 2 * site.times := Nat.pow_succ'
    simp only [doubled, List.map_cons, timesOf_cons, own]
    rw [← doubled, ih]
    split <;> omega

theorem timesOf_eq_zero (unnamed : callee ∉ sites.map CallSite.callee) : timesOf callee sites = 0 := by
  induction sites with
  | nil => rfl
  | cons first sites ih =>
    rw [List.map_cons, List.mem_cons, not_or] at unnamed
    rw [timesOf_cons, if_neg (Ne.symm unnamed.1), ih unnamed.2]

theorem timesOf_eq_of_nodup (distinct : (sites.map CallSite.callee).Nodup) (member : site ∈ sites) :
    timesOf site.callee sites = site.times := by
  induction sites with
  | nil => cases member
  | cons first sites ih =>
    rw [List.map_cons, List.nodup_cons] at distinct
    obtain ⟨single, others⟩ := distinct
    rcases List.mem_cons.mp member with rfl | behind
    · rw [timesOf_cons, if_pos rfl, timesOf_eq_zero single, Nat.add_zero]
    · have other : first.callee ≠ site.callee := fun same => single (same ▸ List.mem_map_of_mem behind)
      rw [timesOf_cons, if_neg other, ih others behind, Nat.zero_add]

section

variable (naming : Naming)

@[simp] theorem count_commaSeparated (parts : List (List Stretch)) :
    (commaSeparated parts).count (.call callee) = parts.flatten.count (.call callee) := by
  unfold commaSeparated
  induction parts with
  | nil => rfl
  | cons part parts ih =>
    cases parts with
    | nil => simp
    | cons next parts =>
      have comma : [Stretch.text ", "].count (.call callee) = 0 := rfl
      rw [List.intercalate_cons_cons, List.count_append, List.count_append, ih, comma, Nat.add_zero, ← List.count_append,
        ← List.flatten_cons]

theorem count_unaryStretches (op : UnaryOp) (side : Side) (operand : List Stretch) :
    (unaryStretches op side operand).count (.call callee) =
      if op.isStep then 2 * operand.count (.call callee) else operand.count (.call callee) := by
  unfold unaryStretches
  cases op <;> cases side <;> simp [UnaryOp.isStep] <;> omega

theorem callSites_of_isConvertible {e : Expr} (convertible : e.isConvertible = true) : e.callSites = [] := by
  cases e with
  | name => rfl
  | _ => cases convertible

mutual

theorem Expr.count_stretches :
    (e : Expr) → (e.stretches naming).count (.call callee) = timesOf callee e.callSites
  | .call _ name arguments => by
    unfold Expr.stretches Expr.callSites
    simp [count_arguments arguments, CallSite.times, List.count_cons, Nat.add_comm]
  | .cast _ target operand => by
    unfold Expr.stretches Expr.callSites
    split <;> simp [operand.count_stretches]
  | .field _ operand _ _ | .addressOf _ operand => by
    unfold Expr.stretches Expr.callSites
    simp [operand.count_stretches]
  | .concat _ parts => by
    unfold Expr.stretches Expr.callSites
    simp [count_exprs parts]
  | .unary _ op _ operand => by
    unfold Expr.stretches Expr.callSites
    rw [count_unaryStretches, operand.count_stretches]
    split <;> simp
  | .binary _ _ left right => by
    unfold Expr.stretches Expr.callSites
    simp [left.count_stretches, right.count_stretches]
  | .assign _ _ target value => by
    unfold Expr.stretches Expr.callSites
    simp [target.count_stretches, value.count_stretches]
    omega
  | .ternary _ condition whenTrue whenFalse => by
    unfold Expr.stretches Expr.callSites
    simp [condition.count_stretches, whenTrue.count_stretches, whenFalse.count_stretches]
  | .name _ _ | .number _ _ | .string _ _ | .character _ _ | .stringify _ _ | .assembly _ _ _ _ _ _
  | .placeholder _ _ => by simp [Expr.stretches, Expr.callSites]

theorem count_exprs : (es : List Expr) →
    (stretchesOfExprs naming es).flatten.count (.call callee) = timesOf callee (callSitesOfExprs es)
  | [] => rfl
  | e :: es => by simp [stretchesOfExprs, callSitesOfExprs, e.count_stretches, count_exprs es]

theorem count_arguments : (es : List Expr) →
    (stretchesOfArguments naming es).flatten.count (.call callee) = timesOf callee (callSitesOfExprs es)
  | [] => rfl
  | e :: es => by
    have own : List.count (.call callee)
        (if e.isConvertible then [.text (argumentText true (e.render naming))] else e.stretches naming) =
          timesOf callee e.callSites := by
      cases convertible : e.isConvertible with
      | true => simp [callSites_of_isConvertible convertible]
      | false => exact e.count_stretches
    simp [stretchesOfArguments, callSitesOfExprs, own, count_arguments es]

end

theorem count_stepped (lines : List (List Stretch)) :
    (steppedStretches naming lines).flatten.count (.call callee) = lines.flatten.count (.call callee) := by
  induction lines with
  | nil => rfl
  | cons line lines ih =>
    have own : List.count (.call callee)
        (if (naming.stretchLine line).isEmpty then line else .text indentStep :: line) =
          line.count (.call callee) := by
      split <;> simp
    simp only [steppedStretches, List.map_cons, List.flatten_cons, List.count_append, own] at ih ⊢
    rw [ih]

mutual

theorem Stmt.count_stretchLines :
    (s : Stmt) → (s.stretchLines naming).flatten.count (.call callee) = timesOf callee s.callSites
  | .eval _ value | .declare _ _ _ value _ => by
    unfold Stmt.stretchLines Stmt.callSites
    simp [value.count_stretches]
  | .block _ body => by
    unfold Stmt.stretchLines Stmt.callSites
    simp [count_stepped, count_stmts body]
  | .choice _ condition whenTrue whenFalse => by
    unfold Stmt.stretchLines Stmt.callSites
    cases whenFalse with
    | nil => simp [condition.count_stretches, count_stepped, count_stmts whenTrue, callSitesOfStmts]
    | cons s ss =>
      simp [condition.count_stretches, count_stepped, count_stmts whenTrue, count_stmts (s :: ss)]
  | .loop _ body condition => by
    unfold Stmt.stretchLines Stmt.callSites
    simp [condition.count_stretches, count_stepped, count_stmts body]
  | .placeholder _ _ => by
    unfold Stmt.stretchLines Stmt.callSites
    rfl

theorem count_stmts : (ss : List Stmt) →
    (stretchLinesOfStmts naming ss).flatten.count (.call callee) = timesOf callee (callSitesOfStmts ss)
  | [] => rfl
  | s :: ss => by
    simp [stretchLinesOfStmts, callSitesOfStmts, s.count_stretchLines, count_stmts ss]

end

theorem Body.count_stretchLines (body : Body) :
    (body.stretchLines naming).flatten.count (.call callee) = timesOf callee body.callSites := by
  cases body with
  | expression _ value | both _ _ value => simp [Body.stretchLines, Body.callSites, value.count_stretches]
  | statement _ value =>
    cases value with
    | block _ body =>
      unfold Body.stretchLines Body.callSites Stmt.callSites
      exact count_stmts naming body
    | _ => exact Stmt.count_stretchLines naming _

end

/-- The item of a translated macro is made of the stretches of its body. If all its calls have different names, each
    is rendered twice for every target of an assignment and every operand of a step that it stands in, one in the
    other: once, if it stands in none. -/
theorem calls_rendered {tables : Rust.Tables} {signatureText text : String} {bodyLines : List String}
    {analysis : Analysis} (analyzed : analyze signatureText bodyLines = .ok analysis)
    (translated : translate tables signatureText bodyLines = .ok text)
    (distinct : (analysis.body.callSites.map CallSite.callee).Nodup) :
    let naming := Rust.naming tables analysis
    text = "\n".intercalate
        (Rust.itemLines tables analysis ((analysis.body.stretchLines naming).map naming.stretchLine)) ∧
      ∀ site ∈ analysis.body.callSites,
        (analysis.body.stretchLines naming).flatten.count (.call site.callee) = 2 ^ site.doublings := by
  refine ⟨?_, fun site member => ?_⟩
  · rw [text_eq_item analyzed translated, Rust.item_eq, Body.lineText_pieceLines, Body.stretchLine_stretchLines]
  · rw [Body.count_stretchLines, timesOf_eq_of_nodup distinct member, CallSite.times]

theorem calls_rendered_step :
    ∃ analysis text,
      analyze "F(x)" ["++get(x)->n + put(x)"] = .ok analysis ∧
        translate .kernel "F(x)" ["++get(x)->n + put(x)"] = .ok text ∧
        analysis.body.callSites = [⟨.simple nowhere "get", 1⟩, ⟨.simple nowhere "put", 0⟩] ∧
        ((analysis.body.stretchLines (Rust.naming .kernel analysis)).flatten.count
          (.call (.simple nowhere "get")) = 2) ∧
        ((analysis.body.stretchLines (Rust.naming .kernel analysis)).flatten.count
          (.call (.simple nowhere "put")) = 1) := by
  obtain ⟨analysis, analyzed, found⟩ : ∃ analysis, analyze "F(x)" ["++get(x)->n + put(x)"] = .ok analysis ∧
      analysis.body.callSites = [⟨.simple nowhere "get", 1⟩, ⟨.simple nowhere "put", 0⟩] :=
    exists_ok_of_map (by decide +kernel)
  obtain ⟨text, translated, -⟩ : ∃ text,
      translate .kernel "F(x)" ["++get(x)->n + put(x)"] = .ok text ∧ text.isEmpty = false :=
    exists_ok_of_map (by decide +kernel)
  have distinct : (analysis.body.callSites.map CallSite.callee).Nodup := by
    rw [found]
    decide
  have rendered := (calls_rendered analyzed translated distinct).2
  rw [found] at rendered
  exact ⟨analysis, text, analyzed, translated, found,
    rendered ⟨.simple nowhere "get", 1⟩ (by simp), rendered ⟨.simple nowhere "put", 0⟩ (by simp)⟩

/-- In `++get(x)->n` the only call is rendered twice. -/
theorem stepped_call_rendered_twice :
    ∃ analysis text,
      analyze "F(x)" ["++get(x)->n"] = .ok analysis ∧
        translate .kernel "F(x)" ["++get(x)->n"] = .ok text ∧
        (analysis.body.callSites.map CallSite.callee).Nodup ∧
        ¬∀ site ∈ analysis.body.callSites,
          (analysis.body.stretchLines (Rust.naming .kernel analysis)).flatten.count (.call site.callee) = 1 := by
  obtain ⟨analysis, analyzed, found⟩ : ∃ analysis, analyze "F(x)" ["++get(x)->n"] = .ok analysis ∧
      (analysis.body.callSites, (analysis.body.stretchLines (Rust.naming .kernel analysis)).flatten.count
        (.call (.simple nowhere "get"))) = ([⟨.simple nowhere "get", 1⟩], 2) :=
    exists_ok_of_map (by decide +kernel)
  obtain ⟨text, translated, -⟩ : ∃ text,
      translate .kernel "F(x)" ["++get(x)->n"] = .ok text ∧ text.isEmpty = false :=
    exists_ok_of_map (by decide +kernel)
  obtain ⟨sites, twice⟩ := Prod.mk.inj found
  refine ⟨analysis, text, analyzed, translated, by rw [sites]; decide, fun once => ?_⟩
  have single := once ⟨.simple nowhere "get", 1⟩ (by rw [sites]; simp)
  rw [twice] at single
  cases single

end MacroLift
