import MacroLift.Proofs.Grammar.Reading

namespace MacroLift.Parser

variable {α β : Type} {setting : Setting} {ts rest : List Token}

/-- The parser reads a value from the front of the tokens and leaves the rest. -/
def Parses (p : Parser α) (setting : Setting) (ts : List Token) (a : α) (rest : List Token) : Prop :=
  (p setting ts).outcome = .ok (a, rest)

def Fails (p : Parser α) (setting : Setting) (ts : List Token) : Prop :=
  ∃ failure, (p setting ts).outcome = .error failure

theorem Parses.unique {p : Parser α} {a b : α} {rest' : List Token} (h : Parses p setting ts a rest)
    (h' : Parses p setting ts b rest') : a = b ∧ rest = rest' := by
  have same := h.symm.trans h'
  simpa using same

theorem Parses.not_fails {p : Parser α} {a : α} (h : Parses p setting ts a rest) : ¬ Fails p setting ts := by
  rintro ⟨failure, failed⟩
  have same := h.symm.trans failed
  cases same

theorem parses_or_fails (p : Parser α) (setting : Setting) (ts : List Token) :
    (∃ a rest, Parses p setting ts a rest) ∨ Fails p setting ts := by
  cases h : (p setting ts).outcome with
  | ok result => exact .inl ⟨result.1, result.2, h⟩
  | error failure => exact .inr ⟨failure, h⟩

theorem fails_of_not_parses {p : Parser α} (h : ∀ a rest, ¬ Parses p setting ts a rest) : Fails p setting ts := by
  rcases parses_or_fails p setting ts with ⟨a, rest, parsed⟩ | failed
  · exact absurd parsed (h a rest)
  · exact failed

@[simp] theorem parses_pure {a b : α} : Parses (pure a) setting ts b rest ↔ a = b ∧ ts = rest := by
  change Except.ok (a, ts) = Except.ok (b, rest) ↔ _
  simp

theorem outcome_bind (p : Parser α) (f : α → Parser β) :
    ((p >>= f) setting ts).outcome =
      match (p setting ts).outcome with
      | .ok (a, mid) => (f a setting mid).outcome
      | .error failure => .error failure := by
  change (Parser.bind p f setting ts).outcome = _
  unfold Parser.bind
  rcases p setting ts with ⟨failure | ⟨a, mid⟩, met⟩ <;> rfl

@[simp] theorem parses_bind {p : Parser α} {f : α → Parser β} {b : β} :
    Parses (p >>= f) setting ts b rest ↔
      ∃ a mid, Parses p setting ts a mid ∧ Parses (f a) setting mid b rest := by
  unfold Parses
  rw [outcome_bind]
  rcases (p setting ts).outcome with failure | ⟨a, mid⟩ <;> simp [and_assoc]

@[simp] theorem parses_peek {next : Option Lexeme} :
    Parses peek setting ts next rest ↔ ahead ts none = next ∧ ts = rest := by
  cases ts <;> simp [Parses, peek]

@[simp] theorem parses_place {pos : Pos} :
    Parses place setting ts pos rest ↔ placeOf setting ts = pos ∧ ts = rest := by
  simp [Parses, place]

@[simp] theorem parses_skip {u : Unit} : Parses skip setting ts u rest ↔ ts.tail = rest := by
  simp [Parses, skip]

theorem Parses.bind_iff {p : Parser α} {a : α} {mid : List Token} (h : Parses p setting ts a mid)
    {f : α → Parser β} {b : β} : Parses (p >>= f) setting ts b rest ↔ Parses (f a) setting mid b rest := by
  rw [parses_bind]
  constructor
  · rintro ⟨_, _, first, second⟩
    obtain ⟨rfl, rfl⟩ := h.unique first
    exact second
  · exact fun second => ⟨a, mid, h, second⟩

theorem parses_peek_bind {f : Option Lexeme → Parser β} {b : β} :
    Parses (peek >>= f) setting ts b rest ↔ Parses (f (ahead ts none)) setting ts b rest :=
  Parses.bind_iff (parses_peek.mpr ⟨rfl, rfl⟩)

theorem parses_place_bind {f : Pos → Parser β} {b : β} :
    Parses (place >>= f) setting ts b rest ↔ Parses (f (placeOf setting ts)) setting ts b rest :=
  Parses.bind_iff (parses_place.mpr ⟨rfl, rfl⟩)

theorem parses_skip_bind {f : Unit → Parser β} {b : β} :
    Parses (skip >>= f) setting ts b rest ↔ Parses (f ()) setting ts.tail b rest :=
  Parses.bind_iff (parses_skip.mpr rfl)

@[simp] theorem parses_failAt {cause : Cause} {pos : Pos} {a : α} :
    ¬ Parses (failAt cause pos) setting ts a rest := by
  simp [Parses, failAt]

@[simp] theorem parses_mismatch {cause : Cause} {a : α} : ¬ Parses (mismatch cause) setting ts a rest := by
  simp [Parses, mismatch]

@[simp] theorem parses_ofTokens {read : Setting → List Token → Except Failure (α × List Token)} {a : α} :
    Parses (ofTokens read) setting ts a rest ↔ read setting ts = .ok (a, rest) := Iff.rfl

theorem parses_accept {lexeme : Lexeme} {found : Bool} :
    Parses (accept lexeme) setting ts found rest ↔
      (found = true ∧ ∃ pos, ts = ⟨lexeme, pos⟩ :: rest) ∨
        (found = false ∧ ts = rest ∧ ahead ts none ≠ some lexeme) := by
  rcases ts with _ | ⟨⟨first, pos⟩, ts⟩
  · cases found <;> simp [Parses, accept]
  · by_cases same : first = lexeme
    · subst same
      cases found <;> simp [Parses, accept]
    · cases found <;> simp [Parses, accept, same]

@[simp] theorem parses_accept_true {lexeme : Lexeme} :
    Parses (accept lexeme) setting ts true rest ↔ ∃ pos, ts = ⟨lexeme, pos⟩ :: rest := by
  simp [parses_accept]

@[simp] theorem parses_accept_false {lexeme : Lexeme} :
    Parses (accept lexeme) setting ts false rest ↔ ts = rest ∧ ahead ts none ≠ some lexeme := by
  simp [parses_accept]

theorem parses_acceptAs {meaning? : Lexeme → Option α} {found : Option α} :
    Parses (acceptAs meaning?) setting ts found rest ↔
      (∃ a t, found = some a ∧ ts = t :: rest ∧ meaning? t.lexeme = some a) ∨
        (found = none ∧ ts = rest ∧ (ahead ts none).bind meaning? = none) := by
  rcases ts with _ | ⟨t, ts⟩
  · cases found <;> simp [Parses, acceptAs, eq_comm]
  · cases meaning : meaning? t.lexeme with
    | none => cases found <;> simp [Parses, acceptAs, meaning]
    | some a =>
      cases found with
      | none => simp [Parses, acceptAs, meaning]
      | some b =>
        simp only [Parses, acceptAs, meaning, ahead_cons]
        constructor
        · intro same
          cases same
          exact .inl ⟨a, t, rfl, rfl, meaning⟩
        · rintro (⟨c, u, found, same, means⟩ | ⟨absent, -⟩)
          · cases found
            cases same
            rw [means] at meaning
            cases meaning
            rfl
          · cases absent

@[simp] theorem parses_acceptAs_some {meaning? : Lexeme → Option α} {a : α} :
    Parses (acceptAs meaning?) setting ts (some a) rest ↔
      ∃ t, ts = t :: rest ∧ meaning? t.lexeme = some a := by
  simp [parses_acceptAs]

@[simp] theorem parses_acceptAs_none {meaning? : Lexeme → Option α} :
    Parses (acceptAs meaning?) setting ts none rest ↔ ts = rest ∧ (ahead ts none).bind meaning? = none := by
  simp [parses_acceptAs]

@[simp] theorem parses_expect {lexeme : Lexeme} {description : String} {u : Unit} :
    Parses (expect lexeme description) setting ts u rest ↔ ∃ pos, ts = ⟨lexeme, pos⟩ :: rest := by
  simp [expect]

@[simp] theorem parses_expectAs {meaning? : Lexeme → Option α} {description : String} {a : α} :
    Parses (expectAs meaning? description) setting ts a rest ↔
      ∃ t, ts = t :: rest ∧ meaning? t.lexeme = some a := by
  simp only [expectAs, parses_bind]
  constructor
  · rintro ⟨found, mid, first, second⟩
    cases found with
    | none => simp at second
    | some b =>
      simp only [parses_pure] at second
      obtain ⟨rfl, rfl⟩ := second
      exact parses_acceptAs_some.mp first
  · intro h
    exact ⟨some a, rest, parses_acceptAs_some.mpr h, by simp⟩

@[simp] theorem parses_attempt_some {p : Parser α} {a : α} :
    Parses (attempt p) setting ts (some a) rest ↔ Parses p setting ts a rest := by
  unfold Parses attempt
  rcases p setting ts with ⟨failure | ⟨a, mid⟩, met⟩ <;> simp

@[simp] theorem parses_attempt_none {p : Parser α} :
    Parses (attempt p) setting ts none rest ↔ ts = rest ∧ Fails p setting ts := by
  unfold Parses attempt Fails
  rcases p setting ts with ⟨failure | ⟨a, mid⟩, met⟩ <;> simp

@[simp] theorem parses_expectEnd {u : Unit} : Parses expectEnd setting ts u rest ↔ ts = [] ∧ rest = [] := by
  cases ts <;> simp [Parses, expectEnd, eq_comm]

inductive Rounds (step : α → Parser (Option α)) (setting : Setting) : α → List Token → α → List Token → Prop where
  | done (a : α) (ts : List Token) : Rounds step setting a ts a ts
  | round {a b c : α} {ts mid rest : List Token} (first : Parses (step a) setting ts (some b) mid)
      (more : Rounds step setting b mid c rest) : Rounds step setting a ts c rest

inductive Loops (step : α → Parser (Option α)) (setting : Setting) : α → List Token → α → List Token → Prop where
  | done {a : α} {ts : List Token} (stop : Parses (step a) setting ts none ts) : Loops step setting a ts a ts
  | round {a b c : α} {ts mid rest : List Token} (first : Parses (step a) setting ts (some b) mid)
      (shorter : mid.length < ts.length) (more : Loops step setting b mid c rest) : Loops step setting a ts c rest

theorem rounds_of_repeatAtMost {step : α → Parser (Option α)} {a b : α} {n : Nat}
    (still : ∀ a ts rest, Parses (step a) setting ts none rest → rest = ts)
    (h : Parses (repeatAtMost step n a) setting ts b rest) : Rounds step setting a ts b rest := by
  induction n generalizing a ts with
  | zero =>
    simp only [repeatAtMost, parses_pure] at h
    obtain ⟨rfl, rfl⟩ := h
    exact .done a ts
  | succ n ih =>
    simp only [repeatAtMost, parses_bind] at h
    obtain ⟨next, mid, first, second⟩ := h
    cases next with
    | none =>
      simp only [parses_pure] at second
      obtain ⟨rfl, rfl⟩ := second
      rw [still _ _ _ first]
      exact .done a ts
    | some c => exact .round first (ih second)

theorem rounds_of_repeated {step : α → Parser (Option α)} {a b : α}
    (still : ∀ a ts rest, Parses (step a) setting ts none rest → rest = ts)
    (h : Parses (repeated step a) setting ts b rest) : Rounds step setting a ts b rest :=
  rounds_of_repeatAtMost still h

theorem Loops.repeatAtMost {step : α → Parser (Option α)} {a b : α} (h : Loops step setting a ts b rest) {n : Nat}
    (enough : ts.length ≤ n) : Parses (repeatAtMost step n a) setting ts b rest := by
  induction h generalizing n with
  | done stop =>
    cases n with
    | zero => simp [Parser.repeatAtMost]
    | succ n =>
      simp only [Parser.repeatAtMost, parses_bind]
      exact ⟨none, _, stop, by simp⟩
  | @round a b c ts mid rest first shorter _ ih =>
    cases n with
    | zero => omega
    | succ n =>
      simp only [Parser.repeatAtMost, parses_bind]
      exact ⟨some b, mid, first, ih (by omega)⟩

theorem Loops.repeated {step : α → Parser (Option α)} {a b : α} (h : Loops step setting a ts b rest) :
    Parses (Parser.repeated step a) setting ts b rest :=
  h.repeatAtMost (Nat.le_refl _)

theorem Rounds.extend {step : α → Parser (Option α)} {a b : α} {used : List Token}
    (h : Rounds step setting a ts b rest) (holds : List Token → α → Prop) (start : holds used a)
    (grow : ∀ a b used ts rest, holds used a → Parses (step a) setting ts (some b) rest →
      ∃ more, ts = more ++ rest ∧ holds (used ++ more) b) :
    ∃ more, ts = more ++ rest ∧ holds (used ++ more) b := by
  induction h generalizing used with
  | done => exact ⟨[], rfl, by simpa using start⟩
  | round first _ ih =>
    obtain ⟨more, rfl, next⟩ := grow _ _ _ _ _ start first
    obtain ⟨behind, rfl, last⟩ := ih next
    exact ⟨more ++ behind, by simp, by simpa using last⟩

end MacroLift.Parser
