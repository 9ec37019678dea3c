import MacroLift.Proofs.Batch.Result
import MacroLift.Proofs.Batch.Translator
import MacroLift.Proofs.Header.Names
import MacroLift.Proofs.Rust.DefinedName

namespace MacroLift.Batch

open Header (Definition)

variable {options : Options} {tables : Rust.Tables} {text file item : String} {d : Definition} {result : BatchOutcome}
  {ds : List Definition}

theorem eq_outcome_of_ok (returned : (translateAll options tables ds).result = .ok result) :
    result = outcome options tables ds := by
  cases result_eq_iff.mp returned
  rfl

theorem name_of_signature (member : d ∈ Header.definitions text file) {signature : Signature} {signatureFile : String}
    (signed : Signature.ofText d.signatureText signatureFile = .ok signature) :
    signature.name = d.name ∧ ∀ c ∈ d.name.toList, Lexeme.isNameChar c = true := by
  have whole : d.signatureText.toList = d.name.toList ++ '(' :: (d.parametersText.toList ++ [')']) := by
    simp [Definition.signatureText]
  obtain ⟨same, letters⟩ := (Header.isName_of_mem member).eq_of_signature whole signed
  exact ⟨String.toList_injective same, letters⟩

theorem definedName?_of_translate (member : d ∈ Header.definitions text file)
    (translated : translate tables d.signatureText d.bodyLines = .ok item) :
    Rust.definedName? item = some d.name := by
  obtain ⟨analysis, analyzed, -, rfl⟩ := translate_eq_ok_iff.mp translated
  obtain ⟨signature, stream, body, signed, -, -, rfl⟩ := analyze_eq_ok_iff.mp analyzed
  obtain ⟨same, letters⟩ := name_of_signature member signed
  rw [Rust.definedName?_item tables (by rwa [← same] at letters)]
  exact congrArg some same

theorem nodup_translations (ds : List Definition) : ((translations options tables ds).map Prod.fst).Nodup :=
  (nodup_names ds).of_append_left

theorem exists_tried_of_mem {p : String × String} (member : p ∈ translations options tables ds) :
    ∃ d ∈ tried options ds, d.name = p.1 ∧ translate tables d.signatureText d.bodyLines = .ok p.2 := by
  obtain ⟨d, isTried, found⟩ := List.mem_filterMap.mp member
  unfold translation? at found
  split at found <;> cases found
  exact ⟨d, isTried, rfl, ‹_›⟩

/-- Each name of a header is defined once, under its own name. Whenever the definitions of a header are translated, the
    names in the result are distinct, and the items of its output define them, one by one in order. Each item is that of
    a definition which is the first with its name, and the name found in the header is the one that its signature is
    read with. -/
theorem names_defined (returned : (translateAll options tables (Header.definitions text file)).result = .ok result) :
    result.translated.Nodup ∧
      ∃ items, result.output = outputText items ∧
        List.Forall₂ (fun name item => Rust.definedName? item = some name ∧
          ∃ d ∈ tried options (Header.definitions text file), d.name = name ∧
            translate tables d.signatureText d.bodyLines = .ok item ∧
            ∃ signature, Signature.ofText d.signatureText (signatureFile d.signatureText) = .ok signature ∧
              signature.name = name)
          result.translated items := by
  obtain rfl := eq_outcome_of_ok returned
  refine ⟨nodup_translations _, (translations options tables (Header.definitions text file)).map Prod.snd,
    (outputText_map _).symm, ?_⟩
  rw [outcome, List.forall₂_map_left_iff, List.forall₂_map_right_iff, List.forall₂_same]
  intro p member
  obtain ⟨d, isTried, named, translated⟩ := exists_tried_of_mem member
  have inHeader : d ∈ Header.definitions text file := (tried_sublist _).subset isTried
  obtain ⟨analysis, analyzed, -, -⟩ := translate_eq_ok_iff.mp translated
  obtain ⟨signature, stream, body, signed, -, -, -⟩ := analyze_eq_ok_iff.mp analyzed
  rw [← named]
  exact ⟨definedName?_of_translate inHeader translated, d, isTried, rfl, translated, signature, signed,
    (name_of_signature inHeader signed).1⟩

theorem names_defined_repeated :
    ∃ result, (translateAll .default .kernel
        (Header.definitions "#define INC(x) x + 1\n#define PASS(x, y) f(x, y)\n#define INC(x) x" "inc.h")).result =
          .ok result ∧
      result.translated = ["INC", "PASS"] ∧
      ∃ items, result.output = outputText items ∧
        List.Forall₂ (fun name item => Rust.definedName? item = some name) ["INC", "PASS"] items := by
  have run : (translateAll .default .kernel
      (Header.definitions "#define INC(x) x + 1\n#define PASS(x, y) f(x, y)\n#define INC(x) x" "inc.h")).result.toOption.map
        BatchOutcome.translated = some ["INC", "PASS"] := by
    decide +kernel
  obtain ⟨result, returned, translated⟩ := exists_ok_of_map run
  obtain ⟨-, items, output, defined⟩ := names_defined returned
  rw [translated] at defined
  exact ⟨result, returned, translated, items, output, defined.imp fun _ _ both => both.1⟩

end MacroLift.Batch
