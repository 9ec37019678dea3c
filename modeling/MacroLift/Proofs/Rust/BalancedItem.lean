import MacroLift.Proofs.Grammar.Runs.Literals
import MacroLift.Proofs.Grammar.Signature
import MacroLift.Proofs.Rust.Nesting

namespace MacroLift

open Brackets (IsBalanced Turns LinesTurn)
open MacroLift.Parser

section

variable {setting : Setting} {ts rest : List Token}

theorem isBalanced_parameterNames {names : List String} (balanced : ∀ t ∈ ts, t.lexeme.IsBalanced)
    (read : parameterNames setting ts = .ok (names, rest)) : ∀ name ∈ names, IsBalanced name := by
  induction ts using parameterNames.induct generalizing names with
  | case1 =>
    cases read
    exact List.forall_mem_singleton.mpr ⟨rfl⟩
  | case2 text pos commaPos more ih =>
    rw [parameterNames] at read
    cases found : parameterNames setting more with
    | error => simp [found, Except.map] at read
    | ok result =>
      rw [found] at read
      cases read
      have others := ih (fun t member => balanced t (by simp [member])) found
      exact List.forall_mem_cons.mpr ⟨balanced ⟨.name text, pos⟩ (by simp), others⟩
  | case3 text pos more noComma =>
    rw [parameterNames.eq_3 _ _ _ _ noComma] at read
    cases read
    exact List.forall_mem_singleton.mpr (balanced ⟨.name text, pos⟩ (by simp))
  | case4 ts noDots noComma noName =>
    rw [parameterNames.eq_4 _ _ noDots noComma noName] at read
    cases read

theorem isBalanced_of_signature {sig : Signature} (balanced : ∀ t ∈ ts, t.lexeme.IsBalanced)
    (read : Parses signature setting ts sig rest) :
    IsBalanced sig.name ∧ ∀ parameter ∈ sig.parameters, IsBalanced parameter := by
  unfold signature at read
  rw [parses_place_bind] at read
  simp only [parses_bind, parses_expectAs, parses_expect, parses_peek] at read
  obtain ⟨name, _, ⟨t, rfl, named⟩, -, mid, ⟨openPos, rfl⟩, next, _, ⟨-, rfl⟩, read⟩ := read
  obtain ⟨first, behind⟩ := List.forall_mem_cons.mp balanced
  have whole : IsBalanced name := by
    cases lexeme : t.lexeme <;> rw [lexeme] at named first <;> cases named
    exact first
  split at read
  · simp only [parses_bind, parses_pure] at read
    obtain ⟨_, _, ⟨rfl, rfl⟩, _, _, -, _, _, -, rfl, -⟩ := read
    exact ⟨whole, List.forall_mem_nil _⟩
  · simp only [parses_bind, parses_pure, parses_ofTokens] at read
    obtain ⟨names, _, found, _, _, -, _, _, -, rfl, -⟩ := read
    exact ⟨whole, isBalanced_parameterNames (fun t member => behind t (List.mem_cons_of_mem _ member)) found⟩

end

theorem isBalanced_of_signatureText {text file : String} {sig : Signature}
    (signed : Signature.ofText text file = .ok sig) :
    IsBalanced sig.name ∧ ∀ parameter ∈ sig.parameters, IsBalanced parameter := by
  obtain ⟨stream, rest, read, parsed⟩ := Signature.ofText_eq_ok_iff.mp signed
  exact isBalanced_of_signature (isBalanced_of_tokenize read) parsed

theorem linesTurn_body {setting : Setting} {ts : List Token} {body : Body} (h : DerivesBody setting ts body)
    (balanced : ∀ t ∈ ts, t.lexeme.IsBalanced) {naming : Naming} (named : naming.IsBalanced) :
    LinesTurn [] (body.render naming) [] := by
  cases h with
  | empty => exact .nil _
  | @statement _ s _ _ inner =>
    have lines : LinesTurn [] (renderStmts naming (branchOf s)) [] := inner.isBalanced named balanced
    cases s with
    | block => exact lines
    | _ => exact linesTurn_of_branchOf lines
  | expression _ inner =>
    have text : IsBalanced _ := inner.isBalanced named balanced
    exact text.line

namespace Rust

structure Tables.AreBalanced (tables : Tables) : Prop where
  parameterType {macroName parameter type : String} :
    tables.parameterType? macroName parameter = some type → IsBalanced type
  returnType {macroName type : String} : tables.returnType? macroName = some type → IsBalanced type
  value {name text : String} : tables.valueNames.lookup name = some text → IsBalanced text

variable {tables : Tables} {analysis : Analysis} {parameter type : String}

theorem isBalanced_of_known {type? : Option String} (balanced : ∀ type, type? = some type → IsBalanced type)
    (found : known type? = some type) : IsBalanced type :=
  balanced type (Option.filter_eq_some_iff.mp found).1

theorem isBalanced_bindingName (balanced : IsBalanced parameter) : IsBalanced (bindingName parameter) := by
  unfold bindingName
  split
  · exact ⟨rfl⟩
  · exact balanced

theorem isBalanced_capture (balanced : IsBalanced parameter) (usage : Usage) :
    IsBalanced (capture parameter usage) := by
  have mark : IsBalanced "$" := ⟨rfl⟩
  have bound := mark.append (isBalanced_bindingName balanced)
  unfold capture
  split
  · exact ⟨rfl⟩
  · split
    · exact bound.append ⟨rfl⟩
    · exact bound.append ⟨rfl⟩

structure NamesBalanced (analysis : Analysis) : Prop where
  name : IsBalanced analysis.name
  parameter : ∀ parameter ∈ analysis.parameters, IsBalanced parameter.1

theorem turns_functionHead (entries : tables.AreBalanced) (names : NamesBalanced analysis) :
    Turns [] (functionHead tables analysis) ['\x7d'] := by
  have word : IsBalanced "pub unsafe extern \"C\" fn " := ⟨rfl⟩
  have opened : Turns [] "(" [')'] := ⟨rfl⟩
  have closed : Turns [')'] ")" [] := ⟨rfl⟩
  have brace : Turns [] " \x7b" ['\x7d'] := ⟨rfl⟩
  have parameters : ∀ text ∈ analysis.parameters.map fun parameter =>
      "mut " ++ parameter.1 ++ ": " ++ (known (tables.parameterType? analysis.name parameter.1)).getD anyType,
      IsBalanced text := by
    refine List.forall_mem_map.mpr fun parameter member => ?_
    have front : IsBalanced ("mut " ++ parameter.1 ++ ": ") :=
      (IsBalanced.append ⟨rfl⟩ (names.parameter parameter member)).append ⟨rfl⟩
    refine front.append ?_
    cases found : known (tables.parameterType? analysis.name parameter.1) with
    | none => exact ⟨rfl⟩
    | some type => exact isBalanced_of_known (fun _ => entries.parameterType) found
  have result : IsBalanced (((known (tables.returnType? analysis.name)).map fun type => " -> " ++ type).getD "") := by
    cases found : known (tables.returnType? analysis.name) with
    | none => exact ⟨rfl⟩
    | some type => exact IsBalanced.append ⟨rfl⟩ (isBalanced_of_known (fun _ => entries.returnType) found)
  unfold functionHead
  exact ((((Turns.append (word.append names.name) opened).over (isBalanced_separated parameters)).append closed).over
    result).append brace

theorem linesTurn_function (entries : tables.AreBalanced) (names : NamesBalanced analysis)
    (body : ∀ naming : Naming, naming.IsBalanced → LinesTurn [] (analysis.body.render naming) []) :
    LinesTurn [] (functionLines tables analysis) [] := by
  have inner := body ⟨[], tables.valueNames⟩ fun _ _ => entries.value
  have last : Turns ['\x7d'] "\x7d" [] := ⟨rfl⟩
  have item := LinesTurn.block (turns_functionHead entries names) inner last
  unfold functionLines
  exact .cons (⟨rfl⟩ : Turns [] _ []) (.cons (⟨rfl⟩ : Turns [] _ []) item)

theorem linesTurn_pattern (entries : tables.AreBalanced) (names : NamesBalanced analysis)
    (body : ∀ naming : Naming, naming.IsBalanced → LinesTurn [] (analysis.body.render naming) []) :
    LinesTurn [] (patternLines tables analysis) [] := by
  have word : IsBalanced "macro_rules! " := ⟨rfl⟩
  have brace : Turns [] " \x7b" ['\x7d'] := ⟨rfl⟩
  have opened : Turns ['\x7d'] (indentStep ++ "(") [')', '\x7d'] := ⟨rfl⟩
  have closed : Turns [')', '\x7d'] ") => \x7b" ['\x7d', '\x7d'] := ⟨rfl⟩
  have last : Turns ['\x7d', '\x7d'] (indentStep ++ "\x7d;") ['\x7d'] := ⟨rfl⟩
  have captures : ∀ text ∈ analysis.parameters.map fun parameter => capture parameter.1 parameter.2,
      IsBalanced text :=
    List.forall_mem_map.mpr fun parameter member => isBalanced_capture (names.parameter parameter member) _
  have inner := body ⟨analysis.parameters.map fun parameter => bindingName parameter.1, tables.valueNames⟩
    fun _ _ => entries.value
  have head : LinesTurn [] ["macro_rules! " ++ analysis.name ++ " \x7b",
      indentStep ++ "(" ++ ", ".intercalate (analysis.parameters.map fun parameter =>
        capture parameter.1 parameter.2) ++ ") => \x7b"] ['\x7d', '\x7d'] :=
    .cons (Turns.append (word.append names.name) brace)
      ((opened.over (isBalanced_separated captures)).append closed).line
  unfold patternLines
  exact (head.append (inner.indented.indented.inside ['\x7d', '\x7d'])).append (.cons last (Turns.line ⟨rfl⟩))

theorem kernel_areBalanced : Tables.kernel.AreBalanced where
  parameterType {macroName parameter type} found := by
    have rows : ∀ row ∈ parameterTypes, IsBalanced row.2 := by decide +kernel
    have plain : ∀ row ∈ plainParameterTypes, IsBalanced row.2 := by decide +kernel
    change parameterType? macroName parameter = some type at found
    unfold parameterType? at found
    split at found
    · rename_i listed
      cases found
      obtain ⟨front, behind, same, -⟩ := List.lookup_eq_some_iff.mp listed
      exact rows (parameter, type) (by rw [same]; simp)
    · split at found
      · obtain ⟨row, listed, rfl⟩ := Option.map_eq_some_iff.mp found
        exact plain row (List.mem_of_find?_eq_some listed)
      · cases found
  returnType {macroName type} found := by
    change returnType? macroName = some type at found
    unfold returnType? at found
    repeat' split at found
    all_goals
      cases found
    all_goals exact ⟨rfl⟩
  value {name text} found := by
    have rows : ∀ row ∈ Tables.kernel.valueNames, IsBalanced row.2 := by decide +kernel
    obtain ⟨front, behind, same, -⟩ := List.lookup_eq_some_iff.mp found
    exact rows (name, text) (by rw [same]; simp)

end Rust

/-- With the tables of the kernel, or any others whose entries are balanced, every macro that is translated becomes a
    balanced item: outside literals each closing bracket closes the last open one, none stays open, and neither does
    a literal. -/
theorem translate_balanced :
    Rust.Tables.kernel.AreBalanced ∧
      ∀ (tables : Rust.Tables) (signatureText : String) (bodyLines : List String) (text : String),
        tables.AreBalanced → translate tables signatureText bodyLines = .ok text → IsBalanced text := by
  refine ⟨Rust.kernel_areBalanced, fun tables signatureText bodyLines text entries translated => ?_⟩
  obtain ⟨analysis, analyzed, -, rfl⟩ := translate_eq_ok_iff.mp translated
  obtain ⟨sig, stream, body, signed, read, parsed, rfl⟩ := analyze_eq_ok_iff.mp analyzed
  obtain ⟨name, parameters⟩ := isBalanced_of_signatureText signed
  have names : Rust.NamesBalanced (.of sig.name sig.parameters body) :=
    ⟨name, List.forall_mem_map.mpr parameters⟩
  have lines (naming : Naming) (named : naming.IsBalanced) : LinesTurn [] (body.render naming) [] :=
    linesTurn_body (readsBody_of_body parsed).derives (isBalanced_of_tokenize read) named
  unfold Rust.item
  split
  · exact (Rust.linesTurn_pattern entries names lines).intercalate
  · exact (Rust.linesTurn_function entries names lines).intercalate

theorem translate_balanced_literal :
    ∃ text,
      translate .kernel "F(x)" ["do \x7b g(\")\x7d\", \x27)\x27, x->y); \x7d while (x);"] = .ok text ∧
        IsBalanced text := by
  obtain ⟨text, translated, -⟩ : ∃ text,
      translate .kernel "F(x)" ["do \x7b g(\")\x7d\", \x27)\x27, x->y); \x7d while (x);"] = .ok text ∧
        text.isEmpty = false :=
    exists_ok_of_map (by decide +kernel)
  exact ⟨text, translated, translate_balanced.2 .kernel _ _ text translate_balanced.1 translated⟩

end MacroLift
