import MacroLift.CommandLine.Run
import MacroLift.Proofs.Batch.Result
import MacroLift.Proofs.Batch.Failures

namespace MacroLift.CommandLine

open Batch (State Accounts)
open Header (Definition)

variable {options : Options} {tables : Rust.Tables} {state : State} {trees : TreeState} {d : Definition}
  {done ds : List Definition}

def TreeState.book (options : Options) (trees : TreeState) (d : Definition) : TreeState :=
  if options.skips d.name then trees
  else
    match analyze d.signatureText d.bodyLines with
    | .ok analysis =>
      { trees with
        stdout := trees.stdout ++ treeText analysis
        journal := trees.journal ++ analysisJournal d.signatureText d.bodyLines }
    | .error diagnostic =>
      { trees with failed := trees.failed ++ [d.name], log := trees.log.add (.single diagnostic) }
    | .endless => { trees with stuck := true }

def TreeState.isDone (trees : TreeState) : Bool :=
  trees.log.isFull || trees.stuck

theorem showTrees_cons (room : trees.isDone = false) : showTrees options trees (d :: ds) =
    if (trees.book options d).isDone then trees.book options d
    else showTrees options (trees.book options d) ds := by
  have notStuck : trees.stuck = false := (Bool.or_eq_false_iff.mp room).2
  rw [showTrees, TreeState.book]
  cases options.skips d.name with
  | true => simp [room]
  | false =>
    cases analyze d.signatureText d.bodyLines with
    | ok analysis =>
      unfold TreeState.isDone at room ⊢
      simp [room]
    | error diagnostic => simp [TreeState.isDone, notStuck]
    | endless => simp [TreeState.isDone]

structure Alike (state : State) (trees : TreeState) : Prop where
  failed : trees.failed = state.failed
  log : trees.log = state.log
  stuck : trees.stuck = state.stuck

theorem Alike.isDone (alike : Alike state trees) : trees.isDone = state.isDone := by
  rw [TreeState.isDone, alike.log, alike.stuck, State.isDone]

theorem Alike.book (alike : Alike state trees) (accounts : Accounts options tables done state)
    (stops : options.keepGoing = false) (new : Batch.hasName done d.name = false) :
    Alike (state.book options d (Batch.verdict options tables state.seen d)) (trees.book options d) := by
  unfold Batch.verdict TreeState.book
  cases skip : options.skips d.name with
  | true => exact ⟨alike.failed, alike.log, alike.stuck⟩
  | false =>
    have unseen : state.seen.contains d.name = false := (accounts.seen d.name skip).trans new
    rw [unseen, translate_eq_map]
    cases analyze d.signatureText d.bodyLines with
    | ok analysis => exact ⟨alike.failed, alike.log, alike.stuck⟩
    | error diagnostic =>
      show Alike (state.fail options d diagnostic) _
      rw [State.fail, stops, if_neg Bool.false_ne_true]
      refine ⟨?_, ?_, alike.stuck⟩
      · exact congrArg (· ++ [d.name]) alike.failed
      · exact congrArg (ProblemLog.add · (.single diagnostic)) alike.log
    | endless => exact ⟨alike.failed, alike.log, rfl⟩

theorem hasName_of_distinct (distinct : ((done ++ d :: ds).map Definition.name).Nodup) :
    Batch.hasName done d.name = false := by
  rw [List.map_append, List.map_cons] at distinct
  rw [Batch.hasName, List.any_eq_false]
  intro e member same
  have apart := List.disjoint_of_nodup_append distinct (List.mem_map_of_mem member)
  rw [beq_iff_eq] at same
  exact apart (same ▸ List.mem_cons_self)

theorem Alike.run (alike : Alike state trees) (accounts : Accounts options tables done state)
    (room : state.isDone = false) (stops : options.keepGoing = false)
    (distinct : ((done ++ ds).map Definition.name).Nodup) :
    Alike (Batch.proceed options tables state ds) (showTrees options trees ds) := by
  induction ds generalizing done state trees with
  | nil => exact alike
  | cons d ds ih =>
    have new : Batch.hasName done d.name = false := hasName_of_distinct distinct
    have next := alike.book accounts stops new
    rw [showTrees_cons (alike.isDone.trans room), Batch.proceed, next.isDone]
    split
    · exact next
    · rename_i more
      rw [← List.singleton_append, ← List.append_assoc] at distinct
      exact ih next (accounts.book d) (eq_false_of_ne_true more) distinct

/-- Showing trees fails where translating fails. For definitions with distinct names and a batch that does not keep
    going, the two come to the same verdict: both succeed, both end with the same report on the same macros, or both
    come to no end. -/
theorem verdict_showTrees (tables : Rust.Tables) (stops : options.keepGoing = false)
    (distinct : (ds.map Definition.name).Nodup) (stdout : String) (journal : List JournalLine) :
    let trees := showTrees options ⟨stdout, [], .empty options.maxFailures, journal, false⟩ ds
    trees.verdict = (translateAll options tables ds).result.map (fun _ => ()) ∧
      ∀ report names, trees.verdict = .error (.batch report names) ↔
        (translateAll options tables ds).result = .error (.batch report names) := by
  intro trees
  have start : Alike (.start options) ⟨stdout, [], .empty options.maxFailures, journal, false⟩ := ⟨rfl, rfl, rfl⟩
  have accounts : Accounts options tables [] (.start options) := .start options tables
  have room : (State.start options).isDone = false := by
    have isFull : Batch.isFull options tables [] = false := Batch.isFull_eq_false_iff.mpr (.inr options.maxFailures_pos)
    rw [accounts.isDone, Batch.isDone_eq_false_iff]
    exact ⟨isFull, nofun⟩
  -- showing and translating go through the definitions side by side
  have alike : Alike _ trees := start.run accounts room stops distinct
  have same : trees.verdict = (translateAll options tables ds).result.map fun _ => () := by
    rw [TreeState.verdict, alike.log, alike.failed, alike.stuck]
    unfold translateAll
    dsimp only
    split
    · rfl
    · split
      · rename_i failed
        rw [failed]
        rfl
      · rename_i fine
        rw [fine]
        rfl
  refine ⟨same, fun report names => ?_⟩
  rw [same]
  cases (translateAll options tables ds).result with
  | ok | endless => exact ⟨nofun, nofun⟩
  | error problem => rw [Attempt.map, Attempt.error.injEq, Attempt.error.injEq]

theorem verdict_showTrees_bitwise :
    let options : Options := ⟨true, ["A*"], false, 1, by decide⟩
    let ds : List Definition :=
      [⟨"INC", "x", ["x + 1"], none⟩, ⟨"ADD", "x", ["x +"], none⟩, ⟨"MASK", "x", ["x & 1"], none⟩]
    let trees := showTrees options ⟨"", [], .empty options.maxFailures, [], false⟩ ds
    ∃ report, trees.verdict = .error (.batch report ["MASK"]) ∧
      (translateAll options .kernel ds).result = .error (.batch report ["MASK"]) := by
  intro options ds trees
  let report := "<macro MASK>:1:3: error: unsupported construct: bitwise operator '&'\n    x & 1\n      ^\n" ++
    "hint: exclude this macro with the name denylist\n\n\n1 error, 0 warnings"
  have stops : options.keepGoing = false := rfl
  have distinct : (ds.map Definition.name).Nodup := by decide
  have fails : (translateAll options .kernel ds).result = .error (.batch report ["MASK"]) := by decide +kernel
  exact ⟨report, ((verdict_showTrees .kernel stops distinct "" []).2 report ["MASK"]).mpr fails, fails⟩

end MacroLift.CommandLine
