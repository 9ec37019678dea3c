import Mathlib.Data.List.Forall2
import Mathlib.Data.List.Nodup
import MacroLift.Proofs.Usage.Table

namespace MacroLift

def Usage.rank : Usage → Nat
  | .unknown => 0
  | .expression => 1
  | .identifier => 2

variable {name : String} {uses before after : List Use} {known : Usage} {parameters : List String}

theorem Use.rank_le_raise (use : Use) (name : String) (known : Usage) : known.rank ≤ (use.raise name known).rank := by
  cases use with
  | asName other => by_cases same : name = other <;> cases known <;> simp [raise, same, Usage.rank]
  | asValue other => by_cases same : name = other <;> cases known <;> simp [raise, same, Usage.rank]
  | asCallee => exact Nat.le_refl _

theorem rank_le_raise_all (uses : List Use) (name : String) (known : Usage) :
    known.rank ≤ (uses.foldl (fun known use => use.raise name known) known).rank := by
  induction uses generalizing known with
  | nil => exact Nat.le_refl _
  | cons use uses ih => exact Nat.le_trans (use.rank_le_raise name known) (ih (use.raise name known))

def usageOf (uses : List Use) (name : String) : Usage :=
  if .asName name ∈ uses then .identifier else if .asValue name ∈ uses then .expression else .unknown

theorem raise_unknown (uses : List Use) (name : String) :
    uses.foldl (fun known use => use.raise name known) .unknown = usageOf uses name := by
  simp [raise_all, usageOf]

namespace UsageTable

theorem entries_record (table : UsageTable) (use : Use) :
    (table.record use).entries = table.entries.map fun entry => (entry.1, use.raise entry.1 entry.2) := by
  cases use with
  | asName other =>
    refine List.map_congr_left fun entry _ => ?_
    by_cases same : entry.1 = other <;> simp [Use.raise, same]
  | asValue other =>
    refine List.map_congr_left fun entry _ => ?_
    by_cases same : entry.1 = other <;> simp [Use.raise, same]
  | asCallee function =>
    have unchanged : (table.addCall function).entries = table.entries := by
      unfold addCall
      split <;> rfl
    simp [record, unchanged, Use.raise]

theorem entries_uses (table : UsageTable) (uses : List Use) :
    (uses.foldl record table).entries = table.entries.map fun entry =>
      (entry.1, uses.foldl (fun known use => use.raise entry.1 known) entry.2) := by
  induction uses generalizing table with
  | nil => simp
  | cons use uses ih =>
    rw [List.foldl_cons, ih, entries_record, List.map_map]
    rfl

def marked (parameters : List String) (uses : List Use) : UsageTable :=
  uses.foldl record (ofParameters parameters)

theorem entries_marked (parameters : List String) (uses : List Use) :
    (marked parameters uses).entries =
      (parameters.map bindingName).eraseDups.map fun name => (name, usageOf uses name) := by
  rw [marked, entries_uses, ofParameters, List.map_map]
  exact List.map_congr_left fun name _ => Prod.ext rfl (raise_unknown uses name)

theorem usage?_marked {parameter : String} (member : parameter ∈ parameters) (uses : List Use) :
    (marked parameters uses).usage? parameter = some (usageOf uses (bindingName parameter)) := by
  rw [usage?, marked, lookup_uses, lookup_ofParameters member, Option.map_some, raise_unknown]

theorem calls_marked (parameters : List String) (uses : List Use) :
    (marked parameters uses).calls = (uses.filterMap Use.callee?).eraseDups := by
  have kept : (uses.filterMap Use.callee?).removeAll [] = uses.filterMap Use.callee? :=
    List.filter_eq_self.mpr fun _ _ => rfl
  rw [marked, calls_uses]
  exact congrArg List.eraseDups kept

theorem marked_append (parameters : List String) (before after : List Use) :
    marked parameters (before ++ after) = after.foldl record (marked parameters before) :=
  List.foldl_append

/-- The same names in the same order, each with a usage that says as much or more. -/
def Rises (table later : UsageTable) : Prop :=
  List.Forall₂ (fun entry risen => entry.1 = risen.1 ∧ entry.2.rank ≤ risen.2.rank) table.entries later.entries

theorem rises_uses (table : UsageTable) (uses : List Use) : table.Rises (uses.foldl record table) := by
  rw [Rises, entries_uses, List.forall₂_map_right_iff, List.forall₂_same]
  exact fun entry _ => ⟨rfl, rank_le_raise_all uses entry.1 entry.2⟩

theorem nodup_record {table : UsageTable} (nodup : table.calls.Nodup) (use : Use) : (table.record use).calls.Nodup := by
  cases use with
  | asName | asValue => exact nodup
  | asCallee function =>
    simp only [record, addCall, List.contains_iff_mem]
    by_cases known : function ∈ table.calls
    · rwa [if_pos known]
    · rw [if_neg known]
      refine nodup.append (List.nodup_singleton function) fun other among same => ?_
      exact known (List.mem_singleton.mp same ▸ among)

theorem nodup_uses {table : UsageTable} (nodup : table.calls.Nodup) (uses : List Use) :
    (uses.foldl record table).calls.Nodup := by
  induction uses generalizing table with
  | nil => exact nodup
  | cons use uses ih => exact ih (nodup_record nodup use)

theorem calls_prefix (table : UsageTable) (uses : List Use) : table.calls <+: (uses.foldl record table).calls := by
  rw [calls_uses]
  exact List.prefix_append _ _

theorem isMarked_marked : (marked parameters uses).isMarked = true ↔ ∃ parameter ∈ parameters,
    .asName (bindingName parameter) ∈ uses ∨ .asValue (bindingName parameter) ∈ uses := by
  have known (name : String) : usageOf uses name ≠ .unknown ↔ .asName name ∈ uses ∨ .asValue name ∈ uses := by
    unfold usageOf
    by_cases asName : Use.asName name ∈ uses <;> by_cases asValue : Use.asValue name ∈ uses <;> simp [asName, asValue]
  simp only [isMarked, entries_marked, List.any_map, List.any_eq_true, List.mem_eraseDups, List.mem_map,
    Function.comp_apply, bne_iff_ne, known]
  constructor
  · rintro ⟨_, ⟨parameter, member, rfl⟩, used⟩
    exact ⟨parameter, member, used⟩
  · rintro ⟨parameter, member, used⟩
    exact ⟨_, ⟨parameter, member, rfl⟩, used⟩

/-- Marks only raise what a table holds, and in whatever order they come it holds the strongest of them for each
    parameter, and every function once, in the order of the first calls. -/
theorem marks_rise (parameters : List String) (uses : List Use) :
    (marked parameters uses).entries =
      (parameters.map bindingName).eraseDups.map (fun name =>
        (name, if .asName name ∈ uses then .identifier else if .asValue name ∈ uses then .expression else .unknown)) ∧
    (∀ parameter ∈ parameters,
      (marked parameters uses).usage? parameter = some (usageOf uses (bindingName parameter))) ∧
    (∀ before after, uses = before ++ after → (marked parameters before).Rises (marked parameters uses) ∧
      (marked parameters before).calls <+: (marked parameters uses).calls) ∧
    (∀ others, (∀ use, use ∈ others ↔ use ∈ uses) →
      (marked parameters others).entries = (marked parameters uses).entries) ∧
    (marked parameters uses).calls = (uses.filterMap Use.callee?).eraseDups ∧ (marked parameters uses).calls.Nodup ∧
    ((marked parameters uses).isMarked = true ↔ ∃ parameter ∈ parameters,
      .asName (bindingName parameter) ∈ uses ∨ .asValue (bindingName parameter) ∈ uses) := by
  refine ⟨entries_marked parameters uses, fun parameter member => usage?_marked member uses, ?_, ?_,
    calls_marked parameters uses, nodup_uses List.nodup_nil uses, isMarked_marked⟩
  · rintro before after rfl
    rw [marked_append]
    exact ⟨rises_uses _ after, calls_prefix _ after⟩
  · intro others same
    simp only [entries_marked, usageOf, same]

theorem marks_rise_pasted :
    let uses : List Use := [.asValue "a", .asCallee "f", .asName "a", .asValue variadicName, .asName "z"]
    let parameters := ["a", "b", "a", variadicMark]
    (marked parameters uses).usage? variadicMark = some .expression ∧
      (marked parameters [.asValue "a", .asCallee "f"]).Rises (marked parameters uses) ∧
      (marked parameters uses.reverse).entries =
        [("a", .identifier), ("b", .unknown), (variadicName, .expression)] := by
  intro uses parameters
  obtain ⟨entries, usage, rises, reordered, -⟩ := marks_rise parameters uses
  refine ⟨usage variadicMark (by decide), (rises [.asValue "a", .asCallee "f"] _ rfl).1, ?_⟩
  rw [reordered uses.reverse fun _ => List.mem_reverse, entries]
  decide

end UsageTable

end MacroLift
