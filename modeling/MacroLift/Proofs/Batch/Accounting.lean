import Mathlib.Data.List.Basic
import Mathlib.Data.List.Induction
import Mathlib.Data.List.Nodup
import MacroLift.Batch.Run

namespace MacroLift.Batch

open Header (Definition)

section Accounts

variable (options : Options) (tables : Rust.Tables)

def placed (before : List Definition) : List Definition → List (List Definition × Definition)
  | [] => []
  | d :: rest => (before, d) :: placed (before ++ [d]) rest

def hasName (ds : List Definition) (name : String) : Bool :=
  ds.any fun d => d.name == name

/-- Whether a definition is tried: its name is not left out, and none in front of it has that name. -/
def isTried (before : List Definition) (d : Definition) : Bool :=
  !options.skips d.name && !hasName before d.name

def tried (ds : List Definition) : List Definition :=
  ((placed [] ds).filter fun p => isTried options p.1 p.2).map Prod.snd

def attempt (d : Definition) : Attempt Diagnostic String :=
  translate tables d.signatureText d.bodyLines

def translation? (d : Definition) : Option (String × String) :=
  match attempt tables d with
  | .ok item => some (d.name, item)
  | _ => none

def failure? (d : Definition) : Option (String × Diagnostic) :=
  match attempt tables d with
  | .error diagnostic => some (d.name, diagnostic)
  | _ => none

def translations (ds : List Definition) : List (String × String) :=
  (tried options ds).filterMap (translation? tables)

def failures (ds : List Definition) : List (String × Diagnostic) :=
  (tried options ds).filterMap (failure? tables)

def isStuck (ds : List Definition) : Bool :=
  (tried options ds).any fun d => (attempt tables d).isEndless

def skips (ds : List Definition) : List String :=
  (ds.filter fun d => options.skips d.name).map Definition.name

/-- The warning on a definition: that its name has been seen, or that it fails and the batch keeps going. -/
def warning? (before : List Definition) (d : Definition) : Option String :=
  if options.skips d.name then none
  else if hasName before d.name then
    some (ProblemLog.warningText ("duplicate definition of '" ++ d.name ++ "' ignored") d.location)
  else
    match attempt tables d with
    | .error diagnostic =>
      if options.keepGoing then
        some (ProblemLog.warningText ("'" ++ d.name ++ "' not translated: " ++ diagnostic.cause.message) d.location)
      else none
    | _ => none

def warnings (ds : List Definition) : List String :=
  (placed [] ds).filterMap fun p => warning? options tables p.1 p.2

def problems (ds : List Definition) : List Problem :=
  if options.keepGoing then [] else (failures options tables ds).map fun failure => .single failure.2

/-- What definitions come to if the batch goes through all of them: the items with an empty line between them and a
    newline at the end, or nothing. -/
def outcome (ds : List Definition) : BatchOutcome where
  output :=
    if translations options tables ds = [] then ""
    else "\n\n".intercalate ((translations options tables ds).map Prod.snd) ++ "\n"
  translated := (translations options tables ds).map Prod.fst
  skipped := skips options ds
  failed := (failures options tables ds).map Prod.fst
  warnings := warnings options tables ds

def problem (ds : List Definition) : Problem :=
  .batch (ProblemLog.report ⟨options.maxFailures, problems options tables ds, warnings options tables ds⟩)
    ((failures options tables ds).map Prod.fst)

end Accounts

variable {options : Options} {tables : Rust.Tables} {before done ds : List Definition} {d : Definition}

theorem placed_append_singleton (before ds : List Definition) (d : Definition) :
    placed before (ds ++ [d]) = placed before ds ++ [(before ++ ds, d)] := by
  induction ds generalizing before with
  | nil => rw [List.append_nil]; rfl
  | cons e ds ih => rw [List.cons_append, placed, ih, placed, List.cons_append, List.append_assoc]; rfl

theorem map_snd_placed (before ds : List Definition) : (placed before ds).map Prod.snd = ds := by
  induction ds generalizing before with
  | nil => rfl
  | cons d ds ih => rw [placed, List.map_cons, ih]

theorem tried_of_isTried (first : isTried options done d = true) :
    tried options (done ++ [d]) = tried options done ++ [d] := by
  rw [tried, placed_append_singleton, List.filter_append, List.map_append, List.nil_append, List.filter_singleton, first]
  rfl

theorem tried_of_not_isTried (untried : isTried options done d = false) :
    tried options (done ++ [d]) = tried options done := by
  rw [tried, placed_append_singleton, List.filter_append, List.nil_append, List.filter_singleton, untried]
  exact congrArg (List.map Prod.snd) (List.append_nil _)

theorem translations_of_not_isTried (untried : isTried options done d = false) :
    translations options tables (done ++ [d]) = translations options tables done := by
  rw [translations, tried_of_not_isTried untried, translations]

theorem failures_of_not_isTried (untried : isTried options done d = false) :
    failures options tables (done ++ [d]) = failures options tables done := by
  rw [failures, tried_of_not_isTried untried, failures]

theorem translations_of_isTried (first : isTried options done d = true) :
    translations options tables (done ++ [d]) = translations options tables done ++ (translation? tables d).toList := by
  rw [translations, tried_of_isTried first, List.filterMap_append, translations]
  cases found : translation? tables d <;> simp [found]

theorem failures_of_isTried (first : isTried options done d = true) :
    failures options tables (done ++ [d]) = failures options tables done ++ (failure? tables d).toList := by
  rw [failures, tried_of_isTried first, List.filterMap_append, failures]
  cases found : failure? tables d <;> simp [found]

theorem isStuck_of_not_isTried (untried : isTried options done d = false) :
    isStuck options tables (done ++ [d]) = isStuck options tables done := by
  rw [isStuck, tried_of_not_isTried untried, isStuck]

theorem isStuck_of_isTried (first : isTried options done d = true) :
    isStuck options tables (done ++ [d]) = (isStuck options tables done || (attempt tables d).isEndless) := by
  rw [isStuck, tried_of_isTried first, List.any_append, List.any_cons, List.any_nil, Bool.or_false, isStuck]

theorem skips_append_singleton (done : List Definition) (d : Definition) :
    skips options (done ++ [d]) = skips options done ++ if options.skips d.name then [d.name] else [] := by
  rw [skips, List.filter_append, List.map_append, List.filter_singleton]
  cases skip : options.skips d.name <;> rfl

theorem warnings_append_singleton (done : List Definition) (d : Definition) :
    warnings options tables (done ++ [d]) = warnings options tables done ++ (warning? options tables done d).toList := by
  rw [warnings, placed_append_singleton, List.filterMap_append, warnings, List.nil_append]
  cases found : warning? options tables done d <;> simp [found]

/-- The state of a batch that has gone through the definitions `done`. -/
structure Accounts (options : Options) (tables : Rust.Tables) (done : List Definition) (state : State) : Prop where
  items : state.items = (translations options tables done).map Prod.snd
  translated : state.translated = (translations options tables done).map Prod.fst
  skipped : state.skipped = skips options done
  failed : state.failed = (failures options tables done).map Prod.fst
  log : state.log = ⟨options.maxFailures, problems options tables done, warnings options tables done⟩
  stuck : state.stuck = isStuck options tables done
  seen : ∀ name, options.skips name = false → state.seen.contains name = hasName done name

theorem Accounts.start (options : Options) (tables : Rust.Tables) : Accounts options tables [] (.start options) where
  items := rfl
  translated := rfl
  skipped := rfl
  failed := rfl
  log := by
    rw [problems]
    split <;> rfl
  stuck := rfl
  seen _ _ := rfl

variable {state : State} {diagnostic : Diagnostic}

theorem hasName_append_singleton (done : List Definition) (d : Definition) (name : String) :
    hasName (done ++ [d]) name = (hasName done name || d.name == name) := by
  rw [hasName, List.any_append, List.any_cons, List.any_nil, Bool.or_false, hasName]

theorem problems_of_isTried (first : isTried options done d = true) :
    problems options tables (done ++ [d]) = problems options tables done ++
      if options.keepGoing then [] else (failure? tables d).toList.map fun failure => .single failure.2 := by
  rw [problems, failures_of_isTried first, problems]
  cases options.keepGoing with
  | true => rfl
  | false => exact List.map_append

theorem Accounts.pass (h : Accounts options tables done state) (untried : isTried options done d = false) :
    Accounts options tables (done ++ [d]) { state with
      skipped := state.skipped ++ if options.skips d.name then [d.name] else []
      log := { state.log with warnings := state.log.warnings ++ (warning? options tables done d).toList } } where
  items := by rw [translations_of_not_isTried untried, h.items]
  translated := by rw [translations_of_not_isTried untried, h.translated]
  skipped := by rw [skips_append_singleton, h.skipped]
  failed := by rw [failures_of_not_isTried untried, h.failed]
  log := by rw [problems, failures_of_not_isTried untried, warnings_append_singleton, h.log, problems]
  stuck := by rw [isStuck_of_not_isTried untried, h.stuck]
  seen name kept := by
    rw [hasName_append_singleton, h.seen name kept]
    by_cases same : d.name = name
    · have old : hasName done name = true := by simpa [isTried, same, kept] using untried
      rw [old, Bool.true_or]
    · rw [beq_eq_false_iff_ne.mpr same, Bool.or_false]

theorem Accounts.attempted (h : Accounts options tables done state) (first : isTried options done d = true) :
    Accounts options tables (done ++ [d]) { state with
      items := state.items ++ (translation? tables d).toList.map Prod.snd
      seen := d.name :: state.seen
      translated := state.translated ++ (translation? tables d).toList.map Prod.fst
      failed := state.failed ++ (failure? tables d).toList.map Prod.fst
      log := { state.log with
        problems := state.log.problems ++
          if options.keepGoing then [] else (failure? tables d).toList.map fun failure => .single failure.2
        warnings := state.log.warnings ++ (warning? options tables done d).toList }
      stuck := state.stuck || (attempt tables d).isEndless } where
  items := by rw [translations_of_isTried first, List.map_append, h.items]
  translated := by rw [translations_of_isTried first, List.map_append, h.translated]
  skipped := by
    have kept : options.skips d.name = false := by
      rw [isTried, Bool.and_eq_true, Bool.not_eq_true'] at first
      exact first.1
    rw [skips_append_singleton, kept, h.skipped]
    exact (List.append_nil _).symm
  failed := by rw [failures_of_isTried first, List.map_append, h.failed]
  log := by rw [problems_of_isTried first, warnings_append_singleton, h.log]
  stuck := by rw [isStuck_of_isTried first, h.stuck]
  seen name kept := by
    rw [List.contains_cons, h.seen name kept, hasName_append_singleton, Bool.or_comm, Bool.beq_comm]

theorem Accounts.skip (h : Accounts options tables done state) (skip : options.skips d.name = true) :
    Accounts options tables (done ++ [d]) (state.book options d .skipped) := by
  have next := h.pass (d := d) (by rw [isTried, skip]; rfl)
  rw [warning?, if_pos skip, if_pos skip, Option.toList_none, List.append_nil] at next
  exact { next with }

theorem Accounts.repeat (h : Accounts options tables done state) (kept : options.skips d.name = false)
    (old : hasName done d.name = true) :
    Accounts options tables (done ++ [d]) (state.book options d .repeated) := by
  have next := h.pass (d := d) (by rw [isTried, kept, old]; rfl)
  rw [warning?, kept, old, if_neg Bool.false_ne_true, List.append_nil] at next
  exact { next with }

theorem Accounts.translate (h : Accounts options tables done state) (kept : options.skips d.name = false)
    (new : hasName done d.name = false) {item : String} (success : attempt tables d = .ok item) :
    Accounts options tables (done ++ [d]) (state.book options d (.translated item)) := by
  have first : isTried options done d = true := by rw [isTried, kept, new]; rfl
  have found : translation? tables d = some (d.name, item) := by rw [translation?, success]
  have noFailure : failure? tables d = none := by rw [failure?, success]
  have quiet : warning? options tables done d = none := by rw [warning?, kept, new, success]; rfl
  have next := h.attempted first
  rw [found, noFailure, quiet, success] at next
  simp only [Option.toList_none, List.map_nil, ite_self, List.append_nil, Attempt.isEndless_ok, Bool.or_false] at next
  exact { next with }

theorem Accounts.endless (h : Accounts options tables done state) (kept : options.skips d.name = false)
    (new : hasName done d.name = false) (never : attempt tables d = .endless) :
    Accounts options tables (done ++ [d]) (state.book options d .endless) := by
  have first : isTried options done d = true := by rw [isTried, kept, new]; rfl
  have noItem : translation? tables d = none := by rw [translation?, never]
  have noFailure : failure? tables d = none := by rw [failure?, never]
  have quiet : warning? options tables done d = none := by rw [warning?, kept, new, never]; rfl
  have next := h.attempted first
  rw [noItem, noFailure, quiet, never] at next
  simp only [Option.toList_none, List.map_nil, ite_self, List.append_nil, Attempt.isEndless_endless, Bool.or_true] at next
  exact { next with }

theorem Accounts.fail (h : Accounts options tables done state) (kept : options.skips d.name = false)
    (new : hasName done d.name = false) (failure : attempt tables d = .error diagnostic) :
    Accounts options tables (done ++ [d]) (state.book options d (.failed diagnostic)) := by
  have first : isTried options done d = true := by rw [isTried, kept, new]; rfl
  have noItem : translation? tables d = none := by rw [translation?, failure]
  have found : failure? tables d = some (d.name, diagnostic) := by rw [failure?, failure]
  have next := h.attempted first
  rw [noItem, found, warning?, kept, new, failure] at next
  simp only [Option.toList_none, List.map_nil, List.append_nil, Attempt.isEndless_error, Bool.or_false] at next
  unfold State.book State.fail
  cases going : options.keepGoing with
  | true =>
    simp only [going] at next
    exact { next with log := by simpa [ProblemLog.warn] using next.log }
  | false =>
    simp only [going] at next
    exact { next with log := by simpa [ProblemLog.add] using next.log }

theorem Accounts.book (h : Accounts options tables done state) (d : Definition) :
    Accounts options tables (done ++ [d]) (state.book options d (verdict options tables state.seen d)) := by
  unfold verdict
  cases kept : options.skips d.name with
  | true => exact h.skip kept
  | false =>
    rw [h.seen d.name kept]
    cases old : hasName done d.name with
    | true => exact h.repeat kept old
    | false =>
      cases result : attempt tables d with
      | ok item =>
        rw [attempt] at result
        simpa [result] using h.translate kept old result
      | error diagnostic =>
        rw [attempt] at result
        simpa [result] using h.fail kept old result
      | endless =>
        rw [attempt] at result
        simpa [result] using h.endless kept old result

def isFull (options : Options) (tables : Rust.Tables) (ds : List Definition) : Bool :=
  options.maxFailures ≤ (problems options tables ds).length

def isDone (options : Options) (tables : Rust.Tables) (ds : List Definition) : Bool :=
  isFull options tables ds || isStuck options tables ds

theorem Accounts.isDone (h : Accounts options tables done state) : state.isDone = Batch.isDone options tables done := by
  rw [State.isDone, h.log, h.stuck]
  rfl

theorem Accounts.proceed (h : Accounts options tables done state) (room : Batch.isDone options tables done = false)
    (ds : List Definition) :
    ∃ processed rest, ds = processed ++ rest ∧
      Accounts options tables (done ++ processed) (proceed options tables state ds) ∧
      (rest ≠ [] → Batch.isDone options tables (done ++ processed) = true) ∧
      ∀ front, front <+: processed → front ≠ processed → Batch.isDone options tables (done ++ front) = false := by
  -- on the definitions to come, from any state that accounts for those before them
  induction ds generalizing done state with
  | nil =>
    refine ⟨[], [], rfl, by rwa [List.append_nil], nofun, fun front within shorter => ?_⟩
    exact absurd (List.prefix_nil.mp within) shorter
  | cons d ds ih =>
    have next := h.book d
    rw [Batch.proceed, next.isDone]
    split
    case isTrue last =>
      refine ⟨[d], ds, rfl, next, fun _ => last, fun front within shorter => ?_⟩
      obtain rfl : front = [] := by
        rcases List.prefix_cons_iff.mp within with rfl | ⟨others, rfl, within'⟩
        · rfl
        · exact absurd (congrArg (d :: ·) (List.prefix_nil.mp within')) shorter
      rwa [List.append_nil]
    case isFalse more =>
      obtain ⟨processed, rest, rfl, accounts, stop, prompt⟩ := ih next (Bool.not_eq_true _ ▸ more)
      simp only [List.append_assoc, List.singleton_append] at accounts stop prompt
      refine ⟨d :: processed, rest, rfl, accounts, stop, fun front within shorter => ?_⟩
      rcases List.prefix_cons_iff.mp within with rfl | ⟨others, rfl, within'⟩
      · rwa [List.append_nil]
      · exact prompt others within' fun same => shorter (congrArg (d :: ·) same)

end MacroLift.Batch
