import MacroLift.Proofs.Batch.Result

namespace MacroLift.Batch

open Header (Definition)

variable {options : Options} {tables : Rust.Tables} {before ds : List Definition} {d : Definition}

theorem mem_placed_iff {p : List Definition × Definition} :
    p ∈ placed before ds ↔ ∃ front behind, ds = front ++ p.2 :: behind ∧ p.1 = before ++ front := by
  induction ds generalizing before with
  | nil => simp [placed]
  | cons e ds ih =>
    rw [placed, List.mem_cons, ih]
    constructor
    · rintro (rfl | ⟨front, behind, rfl, place⟩)
      · exact ⟨[], ds, rfl, (List.append_nil _).symm⟩
      · exact ⟨e :: front, behind, rfl, by rw [place, List.append_assoc, List.singleton_append]⟩
    · rintro ⟨front, behind, split, place⟩
      cases front with
      | nil =>
        obtain ⟨rfl, rfl⟩ := List.cons_eq_cons.mp split
        exact .inl (Prod.ext (place.trans (List.append_nil _)) rfl)
      | cons e' front =>
        obtain ⟨rfl, rfl⟩ := List.cons_eq_cons.mp split
        exact .inr ⟨front, behind, rfl, by rw [place, List.append_assoc, List.singleton_append]⟩

theorem mem_tried_iff : d ∈ tried options ds ↔ ∃ front behind, ds = front ++ d :: behind ∧ isTried options front d := by
  simp only [tried, List.mem_map, List.mem_filter, mem_placed_iff, List.nil_append, Prod.exists]
  constructor
  · rintro ⟨front, d, ⟨⟨front, behind, rfl, rfl⟩, first⟩, rfl⟩
    exact ⟨front, behind, rfl, first⟩
  · rintro ⟨front, behind, rfl, first⟩
    exact ⟨front, d, ⟨⟨front, behind, rfl, rfl⟩, first⟩, rfl⟩

/-- Of some name that is not left out, the first definition cannot be translated. -/
def FirstFails (options : Options) (tables : Rust.Tables) (ds : List Definition) : Prop :=
  ∃ front d behind diagnostic, ds = front ++ d :: behind ∧ options.skips d.name = false ∧
    (∀ e ∈ front, e.name ≠ d.name) ∧ translate tables d.signatureText d.bodyLines = .error diagnostic

theorem isTried_iff {front : List Definition} :
    isTried options front d = true ↔ options.skips d.name = false ∧ ∀ e ∈ front, e.name ≠ d.name := by
  simp [isTried, hasName]

theorem failure?_eq_some_iff {failure : String × Diagnostic} : failure? tables d = some failure ↔
    d.name = failure.1 ∧ translate tables d.signatureText d.bodyLines = .error failure.2 := by
  unfold failure? attempt
  cases translate tables d.signatureText d.bodyLines with
  | ok | endless => exact ⟨nofun, nofun⟩
  | error diagnostic => simp [Prod.ext_iff]

theorem firstFails_iff : FirstFails options tables ds ↔ failures options tables ds ≠ [] := by
  constructor
  · rintro ⟨front, d, behind, diagnostic, whole, kept, new, failed⟩ none
    have member : d ∈ tried options ds := mem_tried_iff.mpr ⟨front, behind, whole, isTried_iff.mpr ⟨kept, new⟩⟩
    have found : failure? tables d = some (d.name, diagnostic) := failure?_eq_some_iff.mpr ⟨rfl, failed⟩
    exact List.ne_nil_of_mem (List.mem_filterMap.mpr ⟨d, member, found⟩) none
  · intro some
    obtain ⟨failure, member⟩ := List.exists_mem_of_ne_nil _ some
    obtain ⟨d, member, found⟩ := List.mem_filterMap.mp member
    obtain ⟨front, behind, whole, first⟩ := mem_tried_iff.mp member
    obtain ⟨kept, new⟩ := isTried_iff.mp first
    exact ⟨front, d, behind, failure.2, whole, kept, new, (failure?_eq_some_iff.mp found).2⟩

theorem exists_problem_iff : (∃ problem, (translateAll options tables ds).result = .error problem) ↔
    options.keepGoing = false ∧ FirstFails options tables ds ∧ (translateAll options tables ds).result ≠ .endless := by
  rw [firstFails_iff]
  have comes : ComesTo options tables ds (translateAll options tables ds).result := result_eq_iff.mp rfl
  generalize (translateAll options tables ds).result = result at comes
  cases comes with
  | whole ends fine =>
    constructor
    · rintro ⟨problem, same⟩
      cases same
    · rintro ⟨stops, failed, -⟩
      rw [stops] at fine
      exact absurd (fine.resolve_left Bool.false_ne_true) failed
  | failed stops stopped ends nonempty =>
    have within : failures options tables _ <+: failures options tables ds := prefix_failures ⟨_, stopped.whole.symm⟩
    refine ⟨fun _ => ⟨stops, fun none => ?_, nofun⟩, fun _ => ⟨_, rfl⟩⟩
    rw [none, List.prefix_nil] at within
    exact nonempty within
  | endless =>
    constructor
    · rintro ⟨problem, same⟩
      cases same
    · rintro ⟨-, -, ends⟩
      exact absurd rfl ends

end MacroLift.Batch
