import Mathlib.Data.List.Infix
import MacroLift.Proofs.Batch.Accounting
import MacroLift.Proofs.Batch.Failures

namespace MacroLift.Batch

open Header (Definition)

section

variable (options : Options) (tables : Rust.Tables)

/-- Reading the definitions that are tried comes to an end for each of them. -/
def Ends (ds : List Definition) : Prop :=
  ∀ d ∈ tried options ds, attempt tables d ≠ .endless

/-- A batch that does not keep going stops behind the failure that makes as many as there may be, and nowhere else. -/
structure StopsBehind (ds processed rest : List Definition) : Prop where
  whole : ds = processed ++ rest
  bounded : ((failures options tables processed).length : Int) ≤ options.maxFailures
  full : rest ≠ [] → ((failures options tables processed).length : Int) = options.maxFailures
  prompt : ∀ front, front <+: processed → front ≠ processed →
    ((failures options tables front).length : Int) < options.maxFailures

/-- What a batch comes to. It goes through all definitions if it keeps going or nothing fails. Else it stops behind the
    failure that makes as many as there may be, and names what has failed. It comes to no end if it gets to a definition
    that is tried and read without end. -/
inductive ComesTo (ds : List Definition) : Attempt Problem BatchOutcome → Prop where
  | whole (ends : Ends options tables ds) (fine : options.keepGoing = true ∨ failures options tables ds = []) :
      ComesTo ds (.ok (outcome options tables ds))
  | failed {processed rest : List Definition} (stops : options.keepGoing = false)
      (stopped : StopsBehind options tables ds processed rest) (ends : Ends options tables processed)
      (nonempty : failures options tables processed ≠ []) : ComesTo ds (.error (problem options tables processed))
  | endless {front rest : List Definition} {d : Definition} (whole : ds = front ++ d :: rest)
      (first : isTried options front d = true) (never : attempt tables d = .endless) (ends : Ends options tables front)
      (room : options.keepGoing = true ∨ ((failures options tables front).length : Int) < options.maxFailures) :
      ComesTo ds .endless

structure GoesThrough (ds processed rest : List Definition) : Prop where
  whole : ds = processed ++ rest
  done : rest ≠ [] → isDone options tables processed = true
  prompt : ∀ front, front <+: processed → front ≠ processed → isDone options tables front = false

end

variable {options : Options} {tables : Rust.Tables} {ds front processed rest : List Definition} {d : Definition}
  {result : Attempt Problem BatchOutcome}

theorem isStuck_eq_false_iff : isStuck options tables ds = false ↔ Ends options tables ds := by
  simp only [isStuck, List.any_eq_false, Attempt.isEndless_iff, Ends, ne_eq]

theorem length_failures_append_singleton (done : List Definition) (d : Definition) :
    (failures options tables (done ++ [d])).length ≤ (failures options tables done).length + 1 := by
  cases first : isTried options done d with
  | false =>
    rw [failures_of_not_isTried first]
    exact Nat.le_succ _
  | true =>
    rw [failures_of_isTried first, List.length_append]
    exact Nat.add_le_add_left (Option.length_toList_le) _

theorem prefix_tried (done rest : List Definition) : tried options done <+: tried options (done ++ rest) := by
  induction rest using List.reverseRecOn with
  | nil => exact ⟨[], by rw [List.append_nil, List.append_nil]⟩
  | append_singleton rest d ih =>
    rw [← List.append_assoc]
    cases first : isTried options (done ++ rest) d with
    | false => rwa [tried_of_not_isTried first]
    | true =>
      rw [tried_of_isTried first]
      exact ih.trans (List.prefix_append _ _)

theorem prefix_failures (within : front <+: ds) : failures options tables front <+: failures options tables ds := by
  obtain ⟨rest, rfl⟩ := within
  exact (prefix_tried front rest).filterMap _

theorem Ends.of_prefix (ends : Ends options tables ds) (within : front <+: ds) : Ends options tables front := by
  obtain ⟨rest, rfl⟩ := within
  exact fun d member => ends d ((prefix_tried front rest).subset member)

theorem isFull_of_no_problems (none : problems options tables ds = []) : isFull options tables ds = false := by
  have pos := options.maxFailures_pos
  rw [isFull, none]
  exact decide_eq_false (Int.not_le.mpr pos)

theorem problems_eq_nil_iff :
    problems options tables ds = [] ↔ options.keepGoing = true ∨ failures options tables ds = [] := by
  rw [problems]
  cases options.keepGoing <;> simp

theorem isFull_eq_false_iff : isFull options tables ds = false ↔
    options.keepGoing = true ∨ ((failures options tables ds).length : Int) < options.maxFailures := by
  cases going : options.keepGoing with
  | true => simp [isFull_of_no_problems (problems_eq_nil_iff.mpr (.inl going))]
  | false => simp [isFull, problems, going]

theorem isDone_eq_false_iff :
    isDone options tables ds = false ↔ isFull options tables ds = false ∧ Ends options tables ds := by
  rw [isDone, Bool.or_eq_false_iff, isStuck_eq_false_iff]

theorem length_failures_le (processed : List Definition)
    (prompt : ∀ front, front <+: processed → front ≠ processed →
      ((failures options tables front).length : Int) < options.maxFailures) :
    ((failures options tables processed).length : Int) ≤ options.maxFailures := by
  rcases List.eq_nil_or_concat' processed with rfl | ⟨front, d, rfl⟩
  · exact Int.le_of_lt options.maxFailures_pos
  · have before := prompt front (List.prefix_append _ _) (by simp)
    have step : (failures options tables (front ++ [d])).length ≤ (failures options tables front).length + 1 :=
      length_failures_append_singleton front d
    omega

theorem outputText_map (results : List (String × String)) :
    outputText (results.map Prod.snd) =
      if results = [] then "" else "\n\n".intercalate (results.map Prod.snd) ++ "\n" := by
  cases results <;> rfl

theorem result_of_accounts (h : Accounts options tables processed (proceed options tables (.start options) ds)) :
    (translateAll options tables ds).result =
      if isStuck options tables processed then .endless
      else if problems options tables processed = [] then .ok (outcome options tables processed)
      else .error (problem options tables processed) := by
  unfold translateAll ProblemLog.verdict ProblemLog.hasProblems
  dsimp only
  rw [h.log, h.items, h.translated, h.skipped, h.failed, h.stuck, outputText_map]
  dsimp only
  split
  · rfl
  · cases found : problems options tables processed with
    | nil => rfl
    | cons first more =>
      rw [if_neg (List.cons_ne_nil _ _), problem, found]
      rfl

theorem exists_goesThrough (options : Options) (tables : Rust.Tables) (ds : List Definition) :
    ∃ processed rest, GoesThrough options tables ds processed rest ∧
      Accounts options tables processed (proceed options tables (.start options) ds) := by
  have room : isDone options tables [] = false :=
    isDone_eq_false_iff.mpr ⟨isFull_eq_false_iff.mpr (.inr options.maxFailures_pos), nofun⟩
  obtain ⟨processed, rest, whole, accounts, done, prompt⟩ := (Accounts.start options tables).proceed room ds
  exact ⟨processed, rest, ⟨whole, done, prompt⟩, accounts⟩

theorem GoesThrough.eq_of_prefix {processed' rest' : List Definition} (h : GoesThrough options tables ds processed rest)
    (h' : GoesThrough options tables ds processed' rest') (within : processed <+: processed') :
    processed = processed' := by
  by_contra shorter
  have goesOn := h'.prompt processed within shorter
  have last : rest = [] := by
    by_contra more
    exact Bool.false_ne_true (goesOn.symm.trans (h.done more))
  have all : processed' <+: processed := by
    have whole := h.whole
    rw [last, List.append_nil] at whole
    exact ⟨rest', h'.whole.symm.trans whole⟩
  exact shorter (within.eq_of_length_le all.length_le)

theorem result_of_goesThrough (h : GoesThrough options tables ds processed rest) :
    (translateAll options tables ds).result =
      if isStuck options tables processed then .endless
      else if problems options tables processed = [] then .ok (outcome options tables processed)
      else .error (problem options tables processed) := by
  obtain ⟨processed', rest', h', accounts⟩ := exists_goesThrough options tables ds
  have within : processed <+: ds := ⟨rest, h.whole.symm⟩
  have within' : processed' <+: ds := ⟨rest', h'.whole.symm⟩
  have same : processed = processed' := by
    rcases List.prefix_or_prefix_of_prefix within within' with shorter | shorter
    · exact h.eq_of_prefix h' shorter
    · exact (h'.eq_of_prefix h shorter).symm
  rw [same]
  exact result_of_accounts accounts

theorem result_eq_outcome (ends : Ends options tables ds)
    (fine : options.keepGoing = true ∨ failures options tables ds = []) :
    (translateAll options tables ds).result = .ok (outcome options tables ds) := by
  have through : GoesThrough options tables ds ds [] := by
    refine ⟨(List.append_nil ds).symm, fun more => absurd rfl more, fun front within _ => ?_⟩
    refine isDone_eq_false_iff.mpr ⟨isFull_of_no_problems (problems_eq_nil_iff.mpr ?_), ends.of_prefix within⟩
    refine fine.imp_right fun none => ?_
    have few : failures options tables front <+: failures options tables ds := prefix_failures within
    rwa [none, List.prefix_nil] at few
  rw [result_of_goesThrough through, isStuck_eq_false_iff.mpr ends, if_neg Bool.false_ne_true,
    if_pos (problems_eq_nil_iff.mpr fine)]

theorem result_eq_problem (stops : options.keepGoing = false) (stopped : StopsBehind options tables ds processed rest)
    (ends : Ends options tables processed) (nonempty : failures options tables processed ≠ []) :
    (translateAll options tables ds).result = .error (problem options tables processed) := by
  have through : GoesThrough options tables ds processed rest := by
    refine ⟨stopped.whole, fun more => ?_, fun front within shorter => ?_⟩
    · have full : ¬ isFull options tables processed = false := by
        rw [isFull_eq_false_iff, stops, stopped.full more]
        simp
      rw [isDone, eq_true_of_ne_false full, Bool.true_or]
    · exact isDone_eq_false_iff.mpr
        ⟨isFull_eq_false_iff.mpr (.inr (stopped.prompt front within shorter)), ends.of_prefix within⟩
  have isProblem : ¬ problems options tables processed = [] := by
    rw [problems_eq_nil_iff, stops]
    simpa using nonempty
  rw [result_of_goesThrough through, isStuck_eq_false_iff.mpr ends, if_neg Bool.false_ne_true, if_neg isProblem]

theorem result_eq_endless (whole : ds = front ++ d :: rest) (first : isTried options front d = true)
    (never : attempt tables d = .endless) (ends : Ends options tables front)
    (room : options.keepGoing = true ∨ ((failures options tables front).length : Int) < options.maxFailures) :
    (translateAll options tables ds).result = .endless := by
  have stuck : isStuck options tables (front ++ [d]) = true := by
    rw [isStuck_of_isTried first, never, Attempt.isEndless_endless, Bool.or_true]
  have through : GoesThrough options tables ds (front ++ [d]) rest := by
    refine ⟨by rw [whole, List.append_assoc, List.singleton_append], fun _ => ?_, fun before within shorter => ?_⟩
    · rw [isDone, stuck, Bool.or_true]
    · have inside : before <+: front := (List.prefix_concat_iff.mp within).resolve_left shorter
      refine isDone_eq_false_iff.mpr ⟨isFull_eq_false_iff.mpr (room.imp_right fun few => ?_), ends.of_prefix inside⟩
      have few' : failures options tables before <+: failures options tables front := prefix_failures inside
      have fewer := few'.length_le
      omega
  rw [result_of_goesThrough through, if_pos stuck]

theorem GoesThrough.comesTo_endless (through : GoesThrough options tables ds processed rest)
    (stuck : isStuck options tables processed = true) : ComesTo options tables ds .endless := by
  rcases List.eq_nil_or_concat' processed with rfl | ⟨front, d, rfl⟩
  · cases stuck
  obtain ⟨room, ends⟩ := isDone_eq_false_iff.mp (through.prompt front (List.prefix_append _ _) (by simp))
  -- the reading of what stands in front ends, so that of the last definition does not
  cases first : isTried options front d with
  | false =>
    rw [isStuck_of_not_isTried first, isStuck_eq_false_iff.mpr ends] at stuck
    cases stuck
  | true =>
    rw [isStuck_of_isTried first, isStuck_eq_false_iff.mpr ends, Bool.false_or, Attempt.isEndless_iff] at stuck
    have whole : ds = front ++ d :: rest := by rw [through.whole, List.append_assoc, List.singleton_append]
    exact .endless whole first stuck ends (isFull_eq_false_iff.mp room)

theorem GoesThrough.comesTo_problem (through : GoesThrough options tables ds processed rest)
    (ends : Ends options tables processed) (isProblem : problems options tables processed ≠ []) :
    ComesTo options tables ds (.error (problem options tables processed)) := by
  rw [ne_eq, problems_eq_nil_iff, not_or, Bool.not_eq_true] at isProblem
  obtain ⟨stops, nonempty⟩ := isProblem
  have prompt (front : List Definition) (within : front <+: processed) (shorter : front ≠ processed) :
      ((failures options tables front).length : Int) < options.maxFailures := by
    have room := (isDone_eq_false_iff.mp (through.prompt front within shorter)).1
    simpa [isFull_eq_false_iff, stops] using room
  have bounded := length_failures_le processed prompt
  refine .failed stops ⟨through.whole, bounded, fun more => ?_, prompt⟩ ends nonempty
  have last := through.done more
  rw [isDone, isStuck_eq_false_iff.mpr ends, Bool.or_false] at last
  have full : ¬ isFull options tables processed = false := by simp [last]
  rw [isFull_eq_false_iff, not_or, Int.not_lt] at full
  exact Int.le_antisymm bounded full.2

theorem GoesThrough.comesTo_outcome (through : GoesThrough options tables ds processed rest)
    (ends : Ends options tables processed) (fine : problems options tables processed = []) :
    ComesTo options tables ds (.ok (outcome options tables processed)) := by
  obtain rfl : rest = [] := by
    by_contra more
    have goesOn : isDone options tables processed = false :=
      isDone_eq_false_iff.mpr ⟨isFull_of_no_problems fine, ends⟩
    exact Bool.false_ne_true (goesOn.symm.trans (through.done more))
  have whole : ds = processed := through.whole.trans (List.append_nil processed)
  rw [← whole] at ends fine ⊢
  exact .whole ends (problems_eq_nil_iff.mp fine)

theorem result_eq_iff : (translateAll options tables ds).result = result ↔ ComesTo options tables ds result := by
  constructor
  · rintro rfl
    obtain ⟨processed, rest, through, -⟩ := exists_goesThrough options tables ds
    rw [result_of_goesThrough through]
    split
    · exact through.comesTo_endless ‹_›
    · rename_i moving
      have ends : Ends options tables processed := isStuck_eq_false_iff.mp (eq_false_of_ne_true moving)
      split
      · exact through.comesTo_outcome ends ‹_›
      · exact through.comesTo_problem ends ‹_›
  · intro comes
    cases comes with
    | whole ends fine => exact result_eq_outcome ends fine
    | failed stops stopped ends nonempty => exact result_eq_problem stops stopped ends nonempty
    | endless whole first never ends room => exact result_eq_endless whole first never ends room

theorem tried_sublist (ds : List Definition) : (tried options ds).Sublist ds := by
  have front := (List.filter_sublist (p := fun p => isTried options p.1 p.2) (l := placed [] ds)).map Prod.snd
  rwa [map_snd_placed] at front

theorem nodup_tried (ds : List Definition) : ((tried options ds).map Definition.name).Nodup := by
  induction ds using List.reverseRecOn with
  | nil => exact List.nodup_nil
  | append_singleton ds d ih =>
    cases first : isTried options ds d with
    | false => rwa [tried_of_not_isTried first]
    | true =>
      rw [tried_of_isTried first, List.map_append]
      refine List.Nodup.append ih (List.nodup_singleton _) fun name among same => ?_
      obtain ⟨other, member, rfl⟩ := List.mem_map.mp among
      have new : hasName ds d.name = false := by
        rw [isTried, Bool.and_eq_true, Bool.not_eq_true', Bool.not_eq_true'] at first
        exact first.2
      exact absurd (List.mem_singleton.mp same) (by
        simpa using List.any_eq_false.mp new other ((tried_sublist ds).subset member))

theorem names_perm (ds : List Definition) :
    ((translations options tables ds).map Prod.fst ++ (failures options tables ds).map Prod.fst).Perm
      (((tried options ds).filter fun d => !(attempt tables d).isEndless).map Definition.name) := by
  unfold translations failures
  induction tried options ds with
  | nil => exact .refl _
  | cons d ds ih =>
    cases result : attempt tables d with
    | ok item => simpa [translation?, failure?, result] using ih
    | error diagnostic =>
      simp only [List.filterMap_cons, translation?, failure?, result, List.filter_cons, Attempt.isEndless_error,
        Bool.not_false, if_true, List.map_cons]
      exact List.perm_middle.trans (ih.cons _)
    | endless => simpa [translation?, failure?, result] using ih

theorem nodup_names (ds : List Definition) :
    ((translations options tables ds).map Prod.fst ++ (failures options tables ds).map Prod.fst).Nodup :=
  (names_perm ds).nodup_iff.mpr ((nodup_tried ds).sublist (List.filter_sublist.map _))

theorem names_sublist {β : Type} {f : Definition → Option (String × β)} (named : ∀ d p, f d = some p → p.1 = d.name)
    (ds : List Definition) : (((tried options ds).filterMap f).map Prod.fst).Sublist (ds.map Definition.name) := by
  have front : (tried options ds).Sublist ds := tried_sublist ds
  refine .trans ?_ (front.map _)
  induction tried options ds with
  | nil => exact .slnil
  | cons d ds ih =>
    cases found : f d with
    | none =>
      rw [List.filterMap_cons_none found]
      exact ih.cons _
    | some p =>
      rw [List.filterMap_cons_some found, List.map_cons, named d p found]
      exact ih.cons_cons _

theorem fst_of_translation? {p : String × String} (found : translation? tables d = some p) : p.1 = d.name := by
  unfold translation? at found
  split at found <;> cases found
  rfl

theorem fst_of_failure? {p : String × Diagnostic} (found : failure? tables d = some p) : p.1 = d.name := by
  unfold failure? at found
  split at found <;> cases found
  rfl

/-- The accounts of a batch are exact. Of the definitions that it goes through it skips those that are left out by their
    names, tries the first of every other name, and lists what comes of each in order, no name twice. What it comes to
    is an outcome, a problem or no end, each exactly where `ComesTo` says so. A definition is read without end exactly
    if the reading of its signature stands still, or it has a signature and the reading of its body stands still. -/
theorem translateAll_exact (options : Options) (tables : Rust.Tables) (ds : List Definition) :
    (∀ done, ((outcome options tables done).translated ++ (outcome options tables done).failed).Nodup ∧
      (outcome options tables done).translated.Sublist (done.map Definition.name) ∧
      (outcome options tables done).failed.Sublist (done.map Definition.name)) ∧
    (∀ result, (translateAll options tables ds).result = result ↔ ComesTo options tables ds result) ∧
    ∀ d, attempt tables d = .endless ↔
      Token.NeverEnds d.signatureText 1 ∨
        (∃ signature, Signature.ofText d.signatureText (signatureFile d.signatureText) = .ok signature) ∧
          Token.NeverEnds (Text.unlines d.bodyLines) 1 := by
  refine ⟨fun done => ⟨nodup_names done, ?_, ?_⟩, fun result => result_eq_iff, fun _ => translate_eq_endless_iff⟩
  · exact names_sublist (fun _ _ => fst_of_translation?) done
  · exact names_sublist (fun _ _ => fst_of_failure?) done

theorem translateAll_exact_unfinished_sum :
    let ds : List Definition :=
      [⟨"INC", "x", ["x + 1"], none⟩, ⟨"ADD", "x", ["x +"], none⟩, ⟨"DEC", "x", ["x - 1"], none⟩]
    let going : Options := ⟨true, [], true, 1, by decide⟩
    let stopping : Options := ⟨true, [], false, 1, by decide⟩
    (translateAll going .kernel ds).result = .ok (outcome going .kernel ds) ∧
      (outcome going .kernel ds).translated = ["INC", "DEC"] ∧
      (translateAll stopping .kernel ds).result = .error (problem stopping .kernel (ds.take 2)) := by
  intro ds going stopping
  refine ⟨?_, by decide +kernel, ?_⟩
  · refine ((translateAll_exact going .kernel ds).2.1 _).mpr (.whole ?_ (.inl rfl))
    unfold Ends
    decide +kernel
  · have stopped : StopsBehind stopping .kernel ds (ds.take 2) (ds.drop 2) := by
      refine ⟨rfl, by decide +kernel, by decide +kernel, fun front within shorter => ?_⟩
      have early : ∀ front ∈ (ds.take 2).inits, front ≠ ds.take 2 → ((failures stopping .kernel front).length : Int) < 1 := by
        decide +kernel
      exact early front ((List.mem_inits front _).mpr within) shorter
    refine ((translateAll_exact stopping .kernel ds).2.1 _).mpr (.failed rfl stopped ?_ (by decide +kernel))
    unfold Ends
    decide +kernel

/-- Though it is to keep going, a batch comes to no end at a superscript, and the sum behind it is not reached. -/
theorem keepGoing_endless :
    (translateAll ⟨true, [], true, 1, by decide⟩ .kernel
      [⟨"SQUARE", "x", ["²"], none⟩, ⟨"INC", "x", ["x + 1"], none⟩]).result = .endless := by
  decide +kernel

end MacroLift.Batch
