import MacroLift.Proofs.Grammar.Body

namespace MacroLift

open MacroLift.Parser

variable {setting : Setting} {ts : List Token} {e : Expr} {s : Stmt} {pos : Pos} {n : Nat}

/-- A statement begun at the first token takes the whole text. -/
def TakesStatement (setting : Setting) (ts : List Token) (s : Stmt) : Prop :=
  Parses (Nested.forTokens ts.length).statement setting ts s []

def TakesExpression (setting : Setting) (ts : List Token) (e : Expr) : Prop :=
  Parses (Nested.forTokens ts.length).expression setting ts e []

theorem parses_statement_iff_reads (enough : ts.length ≤ n) :
    Parses (Nested.forTokens n).statement setting ts s [] ↔ Reads setting.parameters .statement ts s none := by
  constructor
  · intro parsed
    obtain ⟨used, same, reading⟩ := (exactNested_forTokens setting n).statement enough parsed
    rw [List.append_nil] at same
    subst same
    exact reading
  · intro reading
    have parsed : Parses (Nested.forTokens n).statement setting (ts ++ []) s [] :=
      statement_nested reading.runs reading.derives enough rfl
    rwa [List.append_nil] at parsed

theorem parses_expression_iff_reads (enough : ts.length ≤ n) :
    Parses (Nested.forTokens n).expression setting ts e [] ↔ Reads setting.parameters (.expr 1) ts e none := by
  constructor
  · intro parsed
    obtain ⟨used, same, reading⟩ := (exactNested_forTokens setting n).expression enough parsed proper_nil
    rw [List.append_nil] at same
    subst same
    exact reading
  · intro reading
    have parsed : Parses (Nested.forTokens n).expression setting (ts ++ []) e [] :=
      reading.parses_expression enough rfl
    rwa [List.append_nil] at parsed

theorem body_eq_statement_iff (nonempty : ts ≠ []) :
    body setting ts = .ok (.statement pos s) ↔ pos = placeOf setting ts ∧ TakesStatement setting ts s := by
  rw [TakesStatement, parses_statement_iff_reads (Nat.le_refl _), body_eq_ok_iff]
  constructor
  · intro reading
    cases reading with
    | empty => exact absurd rfl nonempty
    | statement start inner => exact ⟨(placeOf_eq start).symm, inner⟩
  · rintro ⟨rfl, inner⟩
    exact .statement (startsAt_placeOf setting nonempty) inner

theorem body_eq_expression_iff (nonempty : ts ≠ []) :
    body setting ts = .ok (.expression pos e) ↔ pos = placeOf setting ts ∧ TakesExpression setting ts e := by
  rw [TakesExpression, parses_expression_iff_reads (Nat.le_refl _), body_eq_ok_iff]
  constructor
  · intro reading
    cases reading with
    | expression start inner => exact ⟨(placeOf_eq start).symm, inner⟩
  · rintro ⟨rfl, inner⟩
    exact .expression (startsAt_placeOf setting nonempty) inner

theorem body_eq_ok_iff_takes (setting : Setting) (nonempty : ts ≠ []) (b : Body) :
    body setting ts = .ok b ↔
      (∃ s, TakesStatement setting ts s ∧ b = .statement (placeOf setting ts) s) ∨
        ∃ e, TakesExpression setting ts e ∧ b = .expression (placeOf setting ts) e := by
  constructor
  · intro read
    cases readsBody_of_body read with
    | empty => exact absurd rfl nonempty
    | statement =>
      obtain ⟨rfl, taken⟩ := (body_eq_statement_iff nonempty).mp read
      exact .inl ⟨_, taken, rfl⟩
    | expression =>
      obtain ⟨rfl, taken⟩ := (body_eq_expression_iff nonempty).mp read
      exact .inr ⟨_, taken, rfl⟩
  · rintro (⟨s, taken, rfl⟩ | ⟨e, taken, rfl⟩)
    · exact (body_eq_statement_iff nonempty).mpr ⟨rfl, taken⟩
    · exact (body_eq_expression_iff nonempty).mpr ⟨rfl, taken⟩

/-- What reads as an expression fails as a statement for want of a semicolon, and for nothing else. -/
theorem TakesExpression.failsWith_statement (taken : TakesExpression setting ts e) :
    FailsWith (whole (Nested.forTokens ts.length).statement) setting ts
      ⟨.missingToken "';'", setting.stop⟩ := by
  have reading := (parses_expression_iff_reads (Nat.le_refl _)).mp taken
  have failed : FailsWith (whole (Nested.forTokens ts.length).statement) setting (ts ++ [])
      (mismatchAt setting [] (.missingToken "';'")) :=
    failsWith_statement_of_reads reading ⟨rfl, rfl, by simp⟩ (Nat.le_refl _)
  rwa [List.append_nil] at failed

/-- A body is the statement or the expression that takes its whole text. Never do both take it, and what neither
    takes is rejected. The statement that is tried first hides no expression: behind one that takes the whole text
    it fails, and not for a construct outside the grammar, which would end the search. -/
theorem alternatives_exclusive (setting : Setting) (ts : List Token) (nonempty : ts ≠ []) :
    ¬ ((∃ s, TakesStatement setting ts s) ∧ ∃ e, TakesExpression setting ts e) ∧
    (∀ b, body setting ts = .ok b ↔
      (∃ s, TakesStatement setting ts s ∧ b = .statement (placeOf setting ts) s) ∨
        ∃ e, TakesExpression setting ts e ∧ b = .expression (placeOf setting ts) e) ∧
    ((∃ failure, body setting ts = .error failure) ↔
      (¬ ∃ s, TakesStatement setting ts s) ∧ ¬ ∃ e, TakesExpression setting ts e) ∧
    ∀ e, TakesExpression setting ts e → ∃ failure,
      FailsWith (whole (Nested.forTokens ts.length).statement) setting ts failure ∧
        failure.isUnsupported = false := by
  have accepted := body_eq_ok_iff_takes setting nonempty
  refine ⟨?_, accepted, ?_, fun e taken => ⟨_, taken.failsWith_statement, rfl⟩⟩
  · rintro ⟨⟨s, asStatement⟩, e, asExpression⟩
    have first := (accepted _).mpr (.inl ⟨s, asStatement, rfl⟩)
    have second := (accepted _).mpr (.inr ⟨e, asExpression, rfl⟩)
    cases first.symm.trans second
  · constructor
    · rintro ⟨failure, failed⟩
      refine ⟨fun ⟨s, taken⟩ => ?_, fun ⟨e, taken⟩ => ?_⟩
      · cases failed.symm.trans ((accepted _).mpr (.inl ⟨s, taken, rfl⟩))
      · cases failed.symm.trans ((accepted _).mpr (.inr ⟨e, taken, rfl⟩))
    · rintro ⟨noStatement, noExpression⟩
      cases read : body setting ts with
      | error failure => exact ⟨failure, rfl⟩
      | ok b =>
        rcases (accepted b).mp read with ⟨s, taken, -⟩ | ⟨e, taken, -⟩
        · exact absurd ⟨s, taken⟩ noStatement
        · exact absurd ⟨e, taken⟩ noExpression

theorem alternatives_exclusive_product :
    (∃ e, body ⟨⟨1, 10⟩, []⟩ [⟨.name "T", ⟨1, 1⟩⟩, ⟨.punct .star, ⟨1, 3⟩⟩, ⟨.name "p", ⟨1, 5⟩⟩,
      ⟨.punct .assign, ⟨1, 7⟩⟩, ⟨.name "q", ⟨1, 9⟩⟩] = .ok (.expression ⟨1, 1⟩ e)) ∧
    ¬ ∃ s, TakesStatement ⟨⟨1, 10⟩, []⟩ [⟨.name "T", ⟨1, 1⟩⟩, ⟨.punct .star, ⟨1, 3⟩⟩, ⟨.name "p", ⟨1, 5⟩⟩,
      ⟨.punct .assign, ⟨1, 7⟩⟩, ⟨.name "q", ⟨1, 9⟩⟩] s := by
  obtain ⟨never, accepted, -⟩ := alternatives_exclusive ⟨⟨1, 10⟩, []⟩ [⟨.name "T", ⟨1, 1⟩⟩, ⟨.punct .star, ⟨1, 3⟩⟩,
    ⟨.name "p", ⟨1, 5⟩⟩, ⟨.punct .assign, ⟨1, 7⟩⟩, ⟨.name "q", ⟨1, 9⟩⟩] (by simp)
  have taken : TakesExpression ⟨⟨1, 10⟩, []⟩ [⟨.name "T", ⟨1, 1⟩⟩, ⟨.punct .star, ⟨1, 3⟩⟩, ⟨.name "p", ⟨1, 5⟩⟩,
      ⟨.punct .assign, ⟨1, 7⟩⟩, ⟨.name "q", ⟨1, 9⟩⟩] (.assign ⟨1, 1⟩ .plain (.binary ⟨1, 1⟩ .multiply
        (.name ⟨1, 1⟩ (.simple ⟨1, 1⟩ "T")) (.name ⟨1, 5⟩ (.simple ⟨1, 5⟩ "p")))
        (.name ⟨1, 9⟩ (.simple ⟨1, 9⟩ "q"))) := by rfl
  exact ⟨⟨_, (accepted _).mpr (.inr ⟨_, taken, rfl⟩)⟩, fun statement => never ⟨statement, _, taken⟩⟩

end MacroLift
