import MacroLift.Usage.Analysis

namespace MacroLift

def Use.raise (name : String) : Use → Usage → Usage
  | .asName other, known => if name = other then .identifier else known
  | .asValue other, known => if name = other ∧ known = .unknown then .expression else known
  | .asCallee _, known => known

def Use.callee? : Use → Option String
  | .asCallee function => some function
  | _ => none

variable {name : String} {uses : List Use} {known : Usage}

theorem raise_all :
    uses.foldl (fun known use => use.raise name known) known =
      if .asName name ∈ uses ∨ known = .identifier then .identifier
      else if .asValue name ∈ uses ∨ known = .expression then .expression
      else .unknown := by
  induction uses generalizing known with
  | nil => cases known <;> simp
  | cons use uses ih =>
    rw [List.foldl_cons, ih]
    cases use with
    | asName other => by_cases same : name = other <;> cases known <;> simp [Use.raise, same]
    | asValue other => by_cases same : name = other <;> cases known <;> simp [Use.raise, same]
    | asCallee function => cases known <;> simp [Use.raise]

namespace UsageTable

theorem lookup_update (table : UsageTable) (name other : String) (change : Usage → Usage) :
    (table.update other change).entries.lookup name =
      (table.entries.lookup name).map fun known => if name = other then change known else known := by
  obtain ⟨entries, calls⟩ := table
  simp only [update]
  induction entries with
  | nil => rfl
  | cons entry entries ih =>
    obtain ⟨key, known⟩ := entry
    by_cases found : name = key
    · subst found
      by_cases same : name = other <;> simp [same]
    · have apart : (name == key) = false := beq_false_of_ne found
      by_cases same : key = other
      · subst same
        simp [List.lookup_cons, apart, ih]
      · simp [List.lookup_cons, same, apart, ih]

theorem lookup_record (table : UsageTable) (name : String) (use : Use) :
    (table.record use).entries.lookup name = (table.entries.lookup name).map (use.raise name) := by
  cases use with
  | asName other => exact table.lookup_update name other _
  | asValue other =>
    rw [record, markExpression, lookup_update]
    congr 1
    funext known
    by_cases same : name = other <;> simp [Use.raise, same]
  | asCallee function =>
    have unchanged : (table.addCall function).entries = table.entries := by
      unfold addCall
      split <;> rfl
    rw [record, unchanged]
    exact Option.map_id.symm ▸ rfl

theorem lookup_uses (table : UsageTable) (name : String) (uses : List Use) :
    (uses.foldl record table).entries.lookup name =
      (table.entries.lookup name).map fun known => uses.foldl (fun known use => use.raise name known) known := by
  induction uses generalizing table with
  | nil => simp
  | cons use uses ih =>
    rw [List.foldl_cons, ih, lookup_record, Option.map_map]
    rfl

theorem calls_uses (table : UsageTable) (uses : List Use) :
    (uses.foldl record table).calls =
      table.calls ++ ((uses.filterMap Use.callee?).removeAll table.calls).eraseDups := by
  induction uses generalizing table with
  | nil => simp
  | cons use uses ih =>
    rw [List.foldl_cons, ih]
    cases use with
    | asName | asValue => rfl
    | asCallee function =>
      simp only [record, addCall, Use.callee?, List.filterMap_cons]
      by_cases known : function ∈ table.calls
      · simp [known, List.removeAll]
      · simp [known, List.removeAll, List.eraseDups_cons, List.filter_filter, Bool.and_comm]
        rfl

theorem lookup_ofParameters {parameters : List String} {parameter : String} (member : parameter ∈ parameters) :
    (ofParameters parameters).entries.lookup (bindingName parameter) = some .unknown := by
  have listed : bindingName parameter ∈ (parameters.map bindingName).eraseDups :=
    List.mem_eraseDups.mpr (List.mem_map_of_mem member)
  unfold ofParameters
  generalize bindingName parameter = name at listed
  generalize (parameters.map bindingName).eraseDups = names at listed
  induction names with
  | nil => cases listed
  | cons other names ih =>
    by_cases same : name = other
    · simp [same]
    · have apart : (name == other) = false := beq_false_of_ne same
      simpa [List.lookup_cons, apart] using ih ((List.mem_cons.mp listed).resolve_left same)

end UsageTable

namespace Analysis

variable {parameters : List String} {parameter : String} {body : Body} {usage : Usage}

theorem usage_table (member : parameter ∈ parameters) :
    (table parameters body).usage? parameter =
      some (if .asName (bindingName parameter) ∈ body.uses then .identifier
        else if .asValue (bindingName parameter) ∈ body.uses ∨
          bindingName parameter = variadicName ∧ variadicMark ∈ parameters then .expression
        else .unknown) := by
  have start := UsageTable.lookup_ofParameters member
  unfold table UsageTable.usage?
  by_cases variadic : variadicMark ∈ parameters
  · simp only [List.contains_iff_mem, variadic, if_true, UsageTable.markExpression, UsageTable.lookup_update,
      UsageTable.lookup_uses, start, Option.map_some, raise_all]
    split <;> split <;> simp_all
  · simp [variadic, UsageTable.lookup_uses, start, raise_all]

theorem mem_parameters_iff :
    (parameter, usage) ∈ (Analysis.of name parameters body).parameters ↔
      parameter ∈ parameters ∧
        usage =
          if .asName (bindingName parameter) ∈ body.uses then .identifier
          else if .asValue (bindingName parameter) ∈ body.uses ∨
            bindingName parameter = variadicName ∧ variadicMark ∈ parameters then .expression
          else .unknown := by
  simp only [Analysis.of, List.mem_map, Prod.mk.injEq]
  constructor
  · rintro ⟨_, member, rfl, rfl⟩
    exact ⟨member, by rw [usage_table member, Option.getD_some]⟩
  · rintro ⟨member, rfl⟩
    exact ⟨parameter, member, rfl, by rw [usage_table member, Option.getD_some]⟩

theorem calls_of : (Analysis.of name parameters body).calls = (body.uses.filterMap Use.callee?).eraseDups := by
  have unmarked : (table parameters body).calls =
      (body.uses.foldl UsageTable.record (.ofParameters parameters)).calls := by
    unfold table
    split <;> rfl
  have kept (functions : List String) : functions.removeAll [] = functions :=
    List.filter_eq_self.mpr fun _ _ => rfl
  rw [Analysis.of, unmarked, UsageTable.calls_uses]
  exact congrArg List.eraseDups (kept _)

end Analysis

end MacroLift
