import MacroLift.Proofs.Batch.Names
import MacroLift.Proofs.Text.NamePattern

namespace MacroLift.Batch

open Header (Definition)

variable {options : Options} {tables : Rust.Tables} {before ds : List Definition} {d : Definition} {names : List String}

def leavingOut (options : Options) (names : List String) : Options :=
  { options with skipPatterns := options.skipPatterns ++ names }

def goingOn (options : Options) : Options :=
  { options with keepGoing := true }

theorem isPlainPattern_of_isName {name : List Char} (isName : Header.IsName name) : Text.IsPlainPattern name := by
  obtain ⟨-, word⟩ := isName
  intro c member
  have isWord := word c member
  refine ⟨?_, ?_, ?_⟩ <;> (rintro rfl; cases isWord)

theorem skips_leavingOut (plain : ∀ name ∈ names, Text.IsPlainPattern name.toList) (name : String) :
    (leavingOut options names).skips name = (options.skips name || names.contains name) := by
  have same : names.any (Text.matchesPattern name) = names.contains name := by
    rw [Bool.eq_iff_iff, List.any_eq_true, List.contains_iff_mem]
    constructor
    · rintro ⟨pattern, member, stands⟩
      rwa [(Text.matchesPattern_of_plain (plain pattern member)).mp stands]
    · exact fun member => ⟨name, member, (Text.matchesPattern_of_plain (plain name member)).mpr rfl⟩
  rw [leavingOut, Options.skips, Options.skips, List.any_append, same]
  ac_rfl

theorem isTried_leavingOut (plain : ∀ name ∈ names, Text.IsPlainPattern name.toList) (before : List Definition)
    (d : Definition) :
    isTried (leavingOut options names) before d = (!names.contains d.name && isTried options before d) := by
  rw [isTried, skips_leavingOut plain, isTried, Bool.not_or]
  ac_rfl

theorem tried_leavingOut (plain : ∀ name ∈ names, Text.IsPlainPattern name.toList) (ds : List Definition) :
    tried (leavingOut options names) ds = (tried options ds).filter fun d => !names.contains d.name := by
  rw [tried, tried, List.filter_map, List.filter_filter]
  simp only [isTried_leavingOut plain, Function.comp_def]

theorem eq_of_tried {e : Definition} (first : d ∈ tried options ds) (second : e ∈ tried options ds)
    (same : d.name = e.name) : d = e :=
  List.inj_on_of_nodup_map (nodup_tried ds) first second same

theorem name_mem_failures_iff (isTried : d ∈ tried options ds) :
    d.name ∈ (failures options tables ds).map Prod.fst ↔ ∃ diagnostic, attempt tables d = .error diagnostic := by
  constructor
  · intro named
    obtain ⟨p, member, same⟩ := List.mem_map.mp named
    obtain ⟨e, tried, found⟩ := List.mem_filterMap.mp member
    obtain rfl : d = e := eq_of_tried isTried tried (same.symm.trans (fst_of_failure? found))
    unfold failure? at found
    split at found
    · exact ⟨_, ‹_›⟩
    · cases found
  · rintro ⟨diagnostic, failed⟩
    have found : failure? tables d = some (d.name, diagnostic) := by rw [failure?, failed]
    exact List.mem_map.mpr ⟨_, List.mem_filterMap.mpr ⟨d, isTried, found⟩, rfl⟩

section

variable (plain : ∀ name ∈ (failures options tables ds).map Prod.fst, Text.IsPlainPattern name.toList)

include plain

theorem translations_leavingOut :
    translations (leavingOut options ((failures options tables ds).map Prod.fst)) tables ds =
      translations options tables ds := by
  rw [translations, tried_leavingOut plain, List.filterMap_filter, translations]
  refine List.filterMap_congr fun d isTried => ?_
  by_cases named : d.name ∈ (failures options tables ds).map Prod.fst
  · obtain ⟨diagnostic, failed⟩ := (name_mem_failures_iff isTried).mp named
    rw [translation?, failed, ite_self]
  · rw [if_pos (by simpa using named)]

theorem failures_leavingOut :
    failures (leavingOut options ((failures options tables ds).map Prod.fst)) tables ds = [] := by
  rw [failures, tried_leavingOut plain, List.filterMap_eq_nil_iff]
  intro d member
  obtain ⟨isTried, other⟩ := List.mem_filter.mp member
  cases result : attempt tables d with
  | ok | endless => rw [failure?, result]
  | error diagnostic =>
    have named : d.name ∈ (failures options tables ds).map Prod.fst :=
      (name_mem_failures_iff isTried).mpr ⟨diagnostic, result⟩
    simp [named] at other

end

/-- A batch that reports fewer failures than it may have has gone through all definitions. -/
theorem whole_of_raised {report : String}
    (raised : (translateAll options tables ds).result = .error (.batch report names))
    (few : (names.length : Int) < options.maxFailures) :
    Ends options tables ds ∧ names = (failures options tables ds).map Prod.fst := by
  cases result_eq_iff.mp raised with
  | @failed processed rest stops stopped ends nonempty =>
    obtain rfl : rest = [] := by
      by_contra more
      have full := stopped.full more
      rw [List.length_map] at few
      omega
    have whole : ds = processed := stopped.whole.trans (List.append_nil processed)
    rw [whole]
    exact ⟨ends, rfl⟩

/-- Leaving out what has failed works, and it comes to the same as keeping going. Where a batch of scanned definitions
    reports fewer failures than it may have, the batch without their names reports none, and its output and its
    translated names are those of the batch that keeps going. -/
theorem leavingOut_failed {report : String} (scanned : ∀ d ∈ ds, ∃ text file, d ∈ Header.definitions text file)
    (raised : (translateAll options tables ds).result = .error (.batch report names))
    (few : (names.length : Int) < options.maxFailures) :
    ∃ again going, (translateAll (leavingOut options names) tables ds).result = .ok again ∧
      (translateAll (goingOn options) tables ds).result = .ok going ∧
      again.output = going.output ∧ again.translated = going.translated := by
  obtain ⟨ends, rfl⟩ := whole_of_raised raised few
  have plain : ∀ name ∈ (failures options tables ds).map Prod.fst, Text.IsPlainPattern name.toList := by
    intro name member
    obtain ⟨d, among, rfl⟩ := List.mem_map.mp ((names_sublist (fun _ _ => fst_of_failure?) ds).subset member)
    obtain ⟨text, file, inHeader⟩ := scanned d among
    exact isPlainPattern_of_isName (Header.isName_of_mem inHeader)
  have endsAgain : Ends (leavingOut options ((failures options tables ds).map Prod.fst)) tables ds := by
    intro d member
    rw [tried_leavingOut plain] at member
    exact ends d (List.mem_of_mem_filter member)
  refine ⟨_, _, result_eq_outcome endsAgain (.inr (failures_leavingOut plain)), result_eq_outcome ends (.inl rfl), ?_, ?_⟩
  · rw [outcome, outcome, translations_leavingOut plain]
    rfl
  · rw [outcome, outcome, translations_leavingOut plain]
    rfl

theorem leavingOut_failed_mask :
    ∃ ds report again going,
      ds = Header.definitions "#define INC(x) x + 1\n#define MASK(x) x & 1\n#define MASK(x) x" "m.h" ∧
      (translateAll .default .kernel ds).result = .error (.batch report ["MASK"]) ∧
      (translateAll (leavingOut .default ["MASK"]) .kernel ds).result = .ok again ∧
      (translateAll (goingOn .default) .kernel ds).result = .ok going ∧
      again.output = going.output ∧ again.translated = going.translated := by
  let ds := Header.definitions "#define INC(x) x + 1\n#define MASK(x) x & 1\n#define MASK(x) x" "m.h"
  let report := "<macro MASK>:1:3: error: unsupported construct: bitwise operator '&'\n    x & 1\n      ^\n" ++
    "hint: exclude this macro with the name denylist\n\n" ++
    "m.h:3:1: warning: duplicate definition of 'MASK' ignored\n\n1 error, 1 warning"
  have raised : (translateAll .default .kernel ds).result = .error (.batch report ["MASK"]) := by decide +kernel
  obtain ⟨again, going, first, second, same⟩ := leavingOut_failed (fun d member => ⟨_, _, member⟩) raised (by decide)
  exact ⟨ds, report, again, going, rfl, raised, first, second, same⟩

end MacroLift.Batch
