import MacroLift.CommandLine.Run
import MacroLift.Proofs.Batch.FirstFailure

namespace MacroLift.CommandLine

def Outcome.WritesInSuccess (outcome : Outcome) : Prop :=
  outcome.exitCode ≠ some 0 → outcome.written = none

variable {reader : ArgumentReader} {disk : Disk} {arguments : List String} {request : TranslateRequest}

theorem writesInSuccess_delivered (output : Option String) (text stderr : String) (notice : String → String)
    (stage : Option String) : (delivered disk output text stderr notice stage).WritesInSuccess := by
  unfold delivered
  cases output with
  | none => exact fun _ => rfl
  | some path =>
    dsimp only
    split
    · exact fun _ => rfl
    · exact fun failed => absurd rfl failed

theorem writesInSuccess_runTranslate (disk : Disk) (request : TranslateRequest) :
    (runTranslate disk request).WritesInSuccess := by
  unfold runTranslate
  dsimp only
  split
  · exact fun _ => rfl
  · split
    · unfold runShowTrees
      dsimp only
      split <;> exact fun _ => rfl
    · unfold runTranslateAll
      dsimp only
      split
      · exact fun _ => rfl
      · exact writesInSuccess_delivered _ _ _ _ _
      · exact fun _ => rfl

theorem Command.writesInSuccess_run (disk : Disk) (command : Command) : (command.run disk).WritesInSuccess := by
  cases command with
  | version => exact fun _ => rfl
  | help => exact fun _ => rfl
  | translate request => exact writesInSuccess_runTranslate disk request
  | single signature body verbose =>
    show (runSingle signature body verbose).WritesInSuccess
    unfold runSingle
    dsimp only
    split <;> exact fun _ => rfl
  | constants output => exact writesInSuccess_delivered _ _ _ _ _

theorem writesInSuccess_runArguments (reader : ArgumentReader) (disk : Disk) (arguments : List String) :
    (runArguments reader disk arguments).WritesInSuccess := by
  unfold runArguments
  split
  · exact fun _ => rfl
  · exact Command.writesInSuccess_run _ _

def definitionsOf (paths texts : List String) : List Header.Definition :=
  (List.zipWith (fun path text => Header.definitions text (Disk.shownPath path)) paths texts).flatten

abbrev Spells (disk : Disk) (paths texts : List String) : Prop :=
  List.Forall₂ (fun path text => headerText disk path = .ok text) paths texts

variable {paths texts : List String}

theorem readHeaders_of_spells (spells : Spells disk paths texts) :
    (readHeaders disk paths).result = .ok (definitionsOf paths texts) := by
  induction spells with
  | nil => rfl
  | cons head _ ih =>
    rw [readHeaders]
    dsimp only
    rw [head, ih]
    rfl

/-- Arguments that are read as a request to translate headers which can be read, without showing their trees, into a
    file that can be written if one is named. -/
structure Asks (reader : ArgumentReader) (disk : Disk) (arguments : List String) (request : TranslateRequest)
    (texts : List String) : Prop where
  read : reader disk arguments = some (.translate request)
  noTrees : request.showTrees = false
  spells : Spells disk request.headers texts
  writable : ∀ path ∈ request.output, disk.writeFault? (Disk.shownPath path) = none

theorem Asks.runArguments (asks : Asks reader disk arguments request texts) : ∃ journal,
    runArguments reader disk arguments = runTranslateAll disk request journal (definitionsOf request.headers texts) := by
  refine ⟨(readHeaders disk request.headers).journal, ?_⟩
  rw [CommandLine.runArguments, asks.read]
  show runTranslate disk request = _
  unfold runTranslate
  dsimp only
  rw [readHeaders_of_spells asks.spells, asks.noTrees]
  rfl

variable {journal : List JournalLine} {ds : List Header.Definition}

theorem exitCode_of_problem {problem : Problem}
    (failed : (translateAll request.options .kernel ds).result = .error problem) :
    (runTranslateAll disk request journal ds).exitCode = some 1 := by
  unfold runTranslateAll
  dsimp only
  rw [failed]
  rfl

theorem exitCode_of_endless (endless : (translateAll request.options .kernel ds).result = .endless) :
    (runTranslateAll disk request journal ds).exitCode = none := by
  unfold runTranslateAll
  dsimp only
  rw [endless]
  rfl

theorem runTranslateAll_of_ok {done : BatchOutcome}
    (writable : ∀ path ∈ request.output, disk.writeFault? (Disk.shownPath path) = none)
    (fine : (translateAll request.options .kernel ds).result = .ok done) :
    (runTranslateAll disk request journal ds).exitCode = some 0 ∧
      ∀ path ∈ request.output,
        (runTranslateAll disk request journal ds).written = some (Disk.shownPath path, done.output) := by
  unfold runTranslateAll
  dsimp only
  rw [fine]
  dsimp only [delivered]
  cases output : request.output with
  | none => exact ⟨rfl, nofun⟩
  | some path =>
    dsimp only
    rw [writable path output]
    exact ⟨rfl, fun _ named => Option.some.inj named ▸ rfl⟩

/-- The translate command does all or nothing, whatever reads its arguments. A command that does not end in success
    writes no file. If the headers can be read and the output can be written, it exits with code 1 exactly if it is not
    to keep going and the first definition of some name that is not left out cannot be translated, unless the batch comes
    to no end: then, and only then, it never exits. Else it exits with code 0, and an output file holds what the
    definitions of all headers come to. -/
theorem runArguments_translate (reader : ArgumentReader) (disk : Disk) (arguments : List String) :
    ((runArguments reader disk arguments).exitCode ≠ some 0 → (runArguments reader disk arguments).written = none) ∧
    ∀ request texts, Asks reader disk arguments request texts →
      let outcome := runArguments reader disk arguments
      let ds := definitionsOf request.headers texts
      (outcome.exitCode = some 1 ↔ request.keepGoing = false ∧ Batch.FirstFails request.options .kernel ds ∧
        ¬ Batch.ComesTo request.options .kernel ds .endless) ∧
      (outcome.exitCode = none ↔ Batch.ComesTo request.options .kernel ds .endless) ∧
      (∀ code, outcome.exitCode = some code → code = 0 ∨ code = 1) ∧
      (outcome.exitCode = some 0 → ∀ path ∈ request.output, ∃ done,
        (translateAll request.options .kernel ds).result = .ok done ∧
          outcome.written = some (Disk.shownPath path, done.output)) := by
  refine ⟨writesInSuccess_runArguments reader disk arguments, fun request texts asks => ?_⟩
  intro outcome ds
  obtain ⟨journal, run⟩ := asks.runArguments
  have same : outcome = runTranslateAll disk request journal ds := run
  have fails : (∃ problem, (translateAll request.options .kernel ds).result = .error problem) ↔
      request.keepGoing = false ∧ Batch.FirstFails request.options .kernel ds ∧
        (translateAll request.options .kernel ds).result ≠ .endless := Batch.exists_problem_iff
  rw [ne_eq, Batch.result_eq_iff] at fails
  rw [← fails, ← Batch.result_eq_iff]
  cases result : (translateAll request.options .kernel ds).result with
  | error problem =>
    have code : outcome.exitCode = some 1 := same ▸ exitCode_of_problem result
    simp [code]
  | endless =>
    have code : outcome.exitCode = none := same ▸ exitCode_of_endless result
    simp [code]
  | ok done =>
    have ends : outcome.exitCode = some 0 ∧
        ∀ path ∈ request.output, outcome.written = some (Disk.shownPath path, done.output) :=
      same ▸ runTranslateAll_of_ok asks.writable result
    simpa [ends.1] using ends.2

theorem runArguments_translate_bitwise :
    let disk := Disk.ofFiles
      [("inc.h", "#define INC(x) x + 1".toByteArray.data.toList),
       ("mask.h", "#define INC(x) x +\n#define MASK(x) x & 1".toByteArray.data.toList)]
    let failing := runArguments Command.ofUsableArguments? disk ["translate", "inc.h", "-o", "out.rs", "mask.h"]
    let fine := runArguments Command.ofUsableArguments? disk
      ["translate", "--skip=MASK", "inc.h", "-o", "out.rs", "mask.h"]
    failing.exitCode = some 1 ∧ failing.written = none ∧ fine.exitCode = some 0 ∧
      ∃ text, fine.written = some ("out.rs", text) := by
  intro disk failing fine
  let texts : List String := ["#define INC(x) x + 1", "#define INC(x) x +\n#define MASK(x) x & 1"]
  have spells : Spells disk ["inc.h", "mask.h"] texts := .cons (by decide +kernel) (.cons (by decide +kernel) .nil)
  have writable : ∀ path ∈ some "out.rs", disk.writeFault? (Disk.shownPath path) = none := by decide +kernel
  let request : TranslateRequest := ⟨["inc.h", "mask.h"], some "out.rs", true, [], false, false, false⟩
  let sparing : TranslateRequest := { request with skipPatterns := ["MASK"] }
  have asks : Asks Command.ofUsableArguments? disk ["translate", "inc.h", "-o", "out.rs", "mask.h"] request texts :=
    ⟨by decide +kernel, rfl, spells, writable⟩
  have asksSparing : Asks Command.ofUsableArguments? disk
      ["translate", "--skip=MASK", "inc.h", "-o", "out.rs", "mask.h"] sparing texts :=
    ⟨by decide +kernel, rfl, spells, writable⟩
  have ⟨safe, ends⟩ := runArguments_translate Command.ofUsableArguments? disk
    ["translate", "inc.h", "-o", "out.rs", "mask.h"]
  have ⟨_, endsSparing⟩ := runArguments_translate Command.ofUsableArguments? disk
    ["translate", "--skip=MASK", "inc.h", "-o", "out.rs", "mask.h"]
  have comesToEnd : (translateAll request.options .kernel (definitionsOf request.headers texts)).result ≠ .endless := by
    decide +kernel
  have comesToEndSparing : (translateAll sparing.options .kernel (definitionsOf sparing.headers texts)).result ≠
      .endless := by
    decide +kernel
  have code : failing.exitCode = some 1 :=
    (ends request _ asks).1.mpr ⟨rfl, Batch.firstFails_iff.mpr (by decide +kernel),
      fun endless => comesToEnd (Batch.result_eq_iff.mpr endless)⟩
  obtain ⟨fails, stays, codes, writes⟩ := endsSparing sparing _ asksSparing
  have success : fine.exitCode = some 0 := by
    cases exits : fine.exitCode with
    | none => exact absurd (Batch.result_eq_iff.mpr (stays.mp exits)) comesToEndSparing
    | some code =>
      rcases codes code exits with rfl | rfl
      · rfl
      · exact absurd (fails.mp exits).2.1 fun failed => Batch.firstFails_iff.mp failed (by decide +kernel)
  obtain ⟨done, -, written⟩ := writes success "out.rs" rfl
  exact ⟨code, safe (by rw [code]; decide), success, done.output, written⟩

/-- The first of two macros cannot be translated, and yet the command does not exit with code 1: the second is a
    superscript, and the command never exits. -/
theorem superscript_never_exits :
    let disk := Disk.ofFiles [("inc.h", "#define ADD(x) x +\n#define SQUARE(x) ²".toByteArray.data.toList)]
    let request : TranslateRequest := ⟨["inc.h"], none, true, [], false, false, false⟩
    Asks Command.ofUsableArguments? disk ["translate", "inc.h"] request ["#define ADD(x) x +\n#define SQUARE(x) ²"] ∧
      Batch.FirstFails request.options .kernel
        (definitionsOf request.headers ["#define ADD(x) x +\n#define SQUARE(x) ²"]) ∧
      (runArguments Command.ofUsableArguments? disk ["translate", "inc.h"]).exitCode = none := by
  refine ⟨⟨by decide +kernel, rfl, .cons (by decide +kernel) .nil, nofun⟩, ?_, by decide +kernel⟩
  exact Batch.firstFails_iff.mpr (by decide +kernel)

end MacroLift.CommandLine
