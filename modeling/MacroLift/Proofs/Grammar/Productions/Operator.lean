import MacroLift.Proofs.Grammar.Productions.Operand

namespace MacroLift.Parser

variable {setting : Setting} {nested : Nested} {ts rest : List Token} {e b : Expr}

def operatorRound {ω : Type} (op? : Lexeme → Option ω) (operand : Parser Expr) (join : Expr → ω → Expr → Expr)
    (left : Expr) : Parser (Option Expr) := do
  match ← acceptAs op? with
  | some op => do
    let right ← operand
    pure (some (join left op right))
  | none => pure none

theorem parses_operatorRound_some {ω : Type} {op? : Lexeme → Option ω} {operand : Parser Expr}
    {join : Expr → ω → Expr → Expr} {left : Expr} :
    Parses (operatorRound op? operand join left) setting ts (some b) rest ↔
      ∃ t us op right, ts = t :: us ∧ op? t.lexeme = some op ∧ Parses operand setting us right rest ∧
        b = join left op right := by
  rw [operatorRound, parses_bind]
  constructor
  · rintro ⟨found, us, first, h⟩
    cases found with
    | none => simp at h
    | some op =>
      obtain ⟨t, rfl, means⟩ := parses_acceptAs_some.mp first
      simp only [parses_bind, parses_pure, Option.some.injEq] at h
      obtain ⟨right, _, read, rfl, rfl⟩ := h
      exact ⟨t, us, op, right, rfl, means, read, rfl⟩
  · rintro ⟨t, us, op, right, rfl, means, read, rfl⟩
    refine ⟨some op, us, parses_acceptAs_some.mpr ⟨t, rfl, means⟩, ?_⟩
    simp only [parses_bind, parses_pure]
    exact ⟨right, rest, read, rfl, rfl⟩

theorem parses_operatorRound_none {ω : Type} {op? : Lexeme → Option ω} {operand : Parser Expr}
    {join : Expr → ω → Expr → Expr} {left : Expr} :
    Parses (operatorRound op? operand join left) setting ts none rest ↔
      ts = rest ∧ (ahead ts none).bind op? = none := by
  rw [operatorRound, parses_bind]
  constructor
  · rintro ⟨found, us, first, h⟩
    cases found with
    | some op => simp at h
    | none =>
      obtain ⟨-, rfl⟩ := parses_pure.mp h
      exact parses_acceptAs_none.mp first
  · rintro ⟨rfl, stop⟩
    exact ⟨none, ts, parses_acceptAs_none.mpr ⟨rfl, stop⟩, parses_pure.mpr ⟨rfl, rfl⟩⟩

def binaryOpAt? : Nat → Lexeme → Option BinaryOp
  | 3 => equalityOp?
  | 4 => relationalOp?
  | 5 => shiftOp?
  | 6 => additiveOp?
  | 7 => multiplicativeOp?
  | _ => fun _ => none

theorem binaryOpAt?_eq_some {rank : Nat} {l : Lexeme} {op : BinaryOp} :
    binaryOpAt? rank l = some op ↔ op.rank = rank ∧ l = .punct op.punct := by
  constructor
  · intro h
    unfold binaryOpAt? at h
    split at h
    · unfold equalityOp? at h
      split at h <;> cases h <;> exact ⟨rfl, rfl⟩
    · unfold relationalOp? at h
      split at h <;> cases h <;> exact ⟨rfl, rfl⟩
    · unfold shiftOp? at h
      split at h <;> cases h <;> exact ⟨rfl, rfl⟩
    · unfold additiveOp? at h
      split at h <;> cases h <;> exact ⟨rfl, rfl⟩
    · unfold multiplicativeOp? at h
      split at h <;> cases h <;> exact ⟨rfl, rfl⟩
    · cases h
  · rintro ⟨rfl, rfl⟩
    cases op <;> rfl

theorem assignOp?_eq_some {l : Lexeme} {op : AssignOp} : assignOp? l = some op ↔ l = .punct op.punct := by
  constructor
  · intro h
    unfold assignOp? at h
    split at h <;> cases h <;> rfl
  · rintro rfl
    cases op <;> rfl

def atRank (nested : Nested) : Nat → Parser Expr
  | 1 => expression nested
  | 2 => conditional nested
  | 3 => equality nested
  | 4 => relational nested
  | 5 => shift nested
  | 6 => additive nested
  | 7 => multiplicative nested
  | 8 => prefixed nested
  | 9 => postfixed nested
  | _ => primary nested

def roundAt (nested : Nested) : Nat → Expr → Parser (Option Expr)
  | 1 => operatorRound assignOp? nested.conditional fun target op value => .assign target.pos op target value
  | rank => operatorRound (binaryOpAt? rank) (atRank nested (rank + 1)) fun left op right =>
    .binary left.pos op left right

theorem roundAt_still {rank : Nat} (left : Expr) (ts rest : List Token)
    (h : Parses (roundAt nested rank left) setting ts none rest) : rest = ts := by
  unfold roundAt at h
  split at h
  · exact (parses_operatorRound_none.mp h).1.symm
  · exact (parses_operatorRound_none.mp h).1.symm

def isRepeated (rank : Nat) : Bool :=
  rank == 1 || (3 ≤ rank && rank ≤ 7)

theorem isRepeated_iff {rank : Nat} : isRepeated rank = true ↔ rank = 1 ∨ (3 ≤ rank ∧ rank ≤ 7) := by
  simp [isRepeated]

theorem leftChain_eq (op? : Lexeme → Option BinaryOp) (operand : Parser Expr) :
    leftChain op? operand =
      operand >>= repeated (operatorRound op? operand fun left op right => .binary left.pos op left right) := by
  unfold leftChain
  congr 1
  funext first
  congr 1
  funext left
  unfold operatorRound
  congr 1
  funext found
  cases found <;> rfl

theorem expression_eq (nested : Nested) :
    expression nested = conditional nested >>= repeated (roundAt nested 1) := by
  unfold expression
  congr 1
  funext first
  congr 1
  funext target
  unfold roundAt operatorRound
  congr 1
  funext found
  cases found <;> rfl

theorem atRank_eq {rank : Nat} (isRepeated : isRepeated rank = true) :
    atRank nested rank = atRank nested (rank + 1) >>= repeated (roundAt nested rank) := by
  have bounds := isRepeated_iff.mp isRepeated
  have ranks : rank = 1 ∨ rank = 3 ∨ rank = 4 ∨ rank = 5 ∨ rank = 6 ∨ rank = 7 := by omega
  rcases ranks with rfl | rfl | rfl | rfl | rfl | rfl
  · exact expression_eq nested
  all_goals exact leftChain_eq _ _

theorem parses_conditional : Parses (conditional nested) setting ts b rest ↔
    ∃ condition mid, Parses (equality nested) setting ts condition mid ∧
      ((mid = rest ∧ ahead mid none ≠ some (.punct .question) ∧ b = condition) ∨
        ∃ questionPos colonPos us vs whenTrue whenFalse, mid = ⟨.punct .question, questionPos⟩ :: us ∧
          Parses nested.conditional setting us whenTrue (⟨.punct .colon, colonPos⟩ :: vs) ∧
          Parses nested.conditional setting vs whenFalse rest ∧
          b = .ternary condition.pos condition whenTrue whenFalse) := by
  simp only [conditional, parses_bind]
  refine exists_congr fun condition => ?_
  constructor
  · rintro ⟨mid, first, found, us, mark, h⟩
    refine ⟨mid, first, ?_⟩
    rcases parses_accept.mp mark with ⟨rfl, questionPos, rfl⟩ | ⟨rfl, rfl, none⟩
    · simp only [if_true, parses_bind, parses_expect, parses_pure] at h
      obtain ⟨whenTrue, _, left, _, vs, ⟨colonPos, rfl⟩, whenFalse, _, right, rfl, rfl⟩ := h
      exact .inr ⟨questionPos, colonPos, us, vs, whenTrue, whenFalse, rfl, left, right, rfl⟩
    · rw [if_neg Bool.false_ne_true, parses_pure] at h
      exact .inl ⟨h.2, none, h.1.symm⟩
  · rintro ⟨mid, first, ⟨rfl, none, rfl⟩ | ⟨questionPos, colonPos, us, vs, whenTrue, whenFalse, rfl, left,
      right, rfl⟩⟩
    · refine ⟨mid, first, false, mid, parses_accept_false.mpr ⟨rfl, none⟩, ?_⟩
      rw [if_neg Bool.false_ne_true, parses_pure]
      exact ⟨rfl, rfl⟩
    · refine ⟨_, first, true, us, parses_accept_true.mpr ⟨questionPos, rfl⟩, ?_⟩
      simp only [if_true, parses_bind, parses_expect, parses_pure]
      exact ⟨whenTrue, _, left, (), vs, ⟨colonPos, rfl⟩, whenFalse, rest, right, rfl, rfl⟩

theorem moreArguments_eq (nested : Nested) : moreArguments nested = repeated (commaRound nested.expression) := rfl

end MacroLift.Parser
