import MacroLift.Proofs.Grammar.Faults

namespace MacroLift

variable {α β : Type} {setting : Setting} {failure : Failure}

theorem Failure.isUnsupported_cause (failure : Failure) : failure.isUnsupported = failure.cause.isUnsupported := by
  cases failure with | mk cause _ => cases cause <;> rfl

/-- A failure as it is raised inside so many alternatives. -/
def Failure.raised (depth : Nat) (failure : Failure) : Failure :=
  if failure.isUnsupported && 0 < depth then ⟨.stated .syntactic failure.cause.message none, failure.pos⟩ else failure

def Failure.notes (depth : Nat) (failure : Failure) : List Failure :=
  if failure.isUnsupported && 0 < depth then [failure] else []

structure Noted (noted : List Failure) (met : Option Failure) : Prop where
  furthest : furthestOf noted = met
  foreign : ∀ construct ∈ noted, construct.isUnsupported = true

theorem noted_nil : Noted [] none :=
  ⟨rfl, nofun⟩

theorem Noted.append {noted noted' : List Failure} {met met' : Option Failure} (first : Noted noted met)
    (second : Noted noted' met') : Noted (noted ++ noted') (furthestMet met met') where
  furthest := by rw [furthestOf_append, first.furthest, second.furthest]
  foreign := List.forall_mem_append.mpr ⟨first.foreign, second.foreign⟩

theorem noted_notes (failure : Failure) (depth : Nat) :
    Noted (failure.notes (depth + 1)) (if failure.isUnsupported then some failure else none) := by
  unfold Failure.notes
  cases found : failure.isUnsupported with
  | false => exact noted_nil
  | true => exact ⟨rfl, List.forall_mem_singleton.mpr found⟩

namespace Session

variable {s : Session}

def later (s : Session) (noted : List Failure) (rest : List Token) : Session :=
  ⟨rest, s.depth, furthestMet s.record (furthestOf noted), s.noted ++ noted⟩

theorem later_later (s : Session) (noted noted' : List Failure) (rest rest' : List Token) :
    (s.later noted rest).later noted' rest' = s.later (noted ++ noted') rest' := by
  rw [later, later, later, furthestOf_append, furthestMet_assoc, List.append_assoc]

theorem later_nil (s : Session) (rest : List Token) : s.later [] rest = { s with rest } := by
  rw [later, furthestOf, furthestMet_none, List.append_nil]

theorem fail_eq (failure : Failure) (stray : List Token) (s : Session) :
    (fail failure stray s : Except Failure α × Session) =
      (.error (failure.raised s.depth), s.later (failure.notes s.depth) stray) := by
  unfold fail Failure.raised Failure.notes
  split
  · rfl
  · rw [later_nil]

/-- What a reply comes to on a session. -/
inductive Carries (s : Session) : Reply α → Except Failure α × Session → Prop
  | ok {a : α} {rest : List Token} {noted : List Failure} {met : Option Failure} (record : Noted noted met) :
      s.Carries ⟨.ok (a, rest), met⟩ (.ok a, s.later noted rest)
  | error {failure : Failure} {noted : List Failure} {met : Option Failure} (rest : List Token)
      (record : Noted noted met) :
      s.Carries ⟨.error failure, met⟩ (.error (failure.raised s.depth), s.later (noted ++ failure.notes s.depth) rest)

theorem Carries.still (s : Session) (a : α) (rest : List Token) :
    s.Carries ⟨.ok (a, rest), none⟩ (.ok a, { s with rest }) := by
  rw [← later_nil]
  exact .ok noted_nil

variable {reply : Reply α} {p : Parser α} {run : Run α}

theorem carries_reading (read : Setting → List Token → Except Failure (α × List Token))
    (stray : List Token → List Token) (s : Session) :
    s.Carries (Parser.ofTokens read setting s.rest) (reading (read setting) stray s) := by
  unfold Parser.ofTokens reading
  cases read setting s.rest with
  | ok found => exact .still s found.1 found.2
  | error failure =>
    dsimp only
    rw [fail_eq]
    exact .error (stray s.rest) noted_nil

theorem carries_andThen {f : α → Parser β} {next : α → Run β}
    (first : s.Carries (p setting s.rest) (run s))
    (behind : ∀ a s', Carries s' (f a setting s'.rest) (next a s')) :
    s.Carries ((p >>= f) setting s.rest) (andThen run next s) := by
  change s.Carries (Parser.bind p f setting s.rest) _
  unfold Parser.bind andThen
  generalize p setting s.rest = reply at first ⊢
  generalize run s = result at first ⊢
  cases first with
  | error rest record => exact .error rest record
  | @ok a rest noted _ record =>
    have second := behind a (s.later noted rest)
    dsimp only
    change Carries _ (f a setting rest) _ at second
    generalize f a setting rest = reply' at second ⊢
    generalize next a (s.later noted rest) = result' at second ⊢
    cases second with
    | ok record' =>
      rw [later_later]
      exact .ok (record.append record')
    | error rest' record' =>
      rw [later_later, ← List.append_assoc]
      exact .error rest' (record.append record')

theorem raised_isSyntactic (inGrammar : failure.InGrammar) (depth : Nat) :
    (failure.raised (depth + 1)).cause.isSyntactic = true := by
  unfold Failure.raised
  split
  · rfl
  · rename_i plain
    rcases inGrammar with isSyntactic | isUnsupported
    · exact isSyntactic
    · rw [failure.isUnsupported_cause, isUnsupported] at plain
      exact absurd (by simp) plain

theorem carries_attempting (inGrammar : ∀ {failure}, (p setting s.rest).outcome = .error failure → failure.InGrammar)
    (tried : Carries { s with depth := s.depth + 1 } (p setting s.rest) (run { s with depth := s.depth + 1 })) :
    s.Carries (Parser.attempt p setting s.rest) (attempting run s) := by
  unfold Parser.attempt attempting
  generalize p setting s.rest = reply at inGrammar tried ⊢
  generalize run { s with depth := s.depth + 1 } = result at tried ⊢
  cases tried with
  | ok record => exact .ok record
  | @error failure _ _ rest record =>
    dsimp only
    rw [if_pos (raised_isSyntactic (inGrammar rfl) s.depth)]
    exact .ok (record.append (noted_notes failure s.depth))

theorem carries_repeating {step : α → Parser (Option α)} {next : α → Run (Option α)}
    (each : ∀ a s, Carries s (step a setting s.rest) (next a s)) (n : Nat) (a : α) (s : Session) :
    s.Carries (Parser.repeatAtMost step n a setting s.rest) (repeating next n a s) := by
  induction n generalizing a s with
  | zero => exact .still s a s.rest
  | succ n ih =>
    refine carries_andThen (each a s) fun more s' => ?_
    cases more with
    | some b => exact ih b s'
    | none => exact .still s' a s'.rest

theorem Carries.outcome {result : Except Failure α × Session} (h : s.Carries reply result) :
    result.1 = (reply.outcome.map Prod.fst).mapError (Failure.raised s.depth) := by
  cases h <;> rfl

theorem Carries.depth {result : Except Failure α × Session} (h : s.Carries reply result) :
    result.2.depth = s.depth := by
  cases h <;> rfl

end Session

open Session

/-- Steps do to a session what their parser replies. Induction on the steps; the alternatives inside one are tried one
    level deeper. -/
theorem Steps.carries (setting : Setting) :
    {α : Type} → (steps : Steps α) → (s : Session) → s.Carries (steps.parser setting s.rest) (steps.run setting s)
  | _, .read reader stray _, s => carries_reading reader (stray setting) s
  | _, .bind first next, s => carries_andThen (first.carries setting s) fun a => (next a).carries setting
  | _, .attempt production, s =>
    carries_attempting (Parser.inGrammar_steps production setting s.rest).outcome
      (production.carries setting { s with depth := s.depth + 1 })
  | _, .repeated step a, s =>
    carries_repeating (fun b => (step b).carries setting) s.rest.length a s

theorem Steps.run_outcome (steps : Steps α) (setting : Setting) {s t : Session} (rest : s.rest = t.rest)
    (depth : s.depth = t.depth) : (steps.run setting s).1 = (steps.run setting t).1 := by
  rw [(steps.carries setting s).outcome, (steps.carries setting t).outcome, rest, depth]

def Session.readBody (setting : Setting) (asStatement : Steps Stmt) (asExpression : Steps Expr) : Run Body :=
  fun s =>
    let pos := Parser.placeOf setting s.rest
    if s.rest.isEmpty then (.ok (.statement pos (.block pos [])), s)
    else
      match asStatement.run setting s with
      | (.ok value, s') => (.ok (.statement pos value), s')
      | (.error first, s') =>
        if first.cause.isSyntactic then
          match asExpression.run setting { s' with rest := s.rest } with
          | (.ok value, s'') => (.ok (.expression pos value), s'')
          | (.error second, s'') =>
            if second.cause.isSyntactic then (.error (Parser.bodyFailure first second s''.record), s'')
            else (.error second, s'')
        else (.error first, s')

theorem Session.readBody_accepted (setting : Setting) (asStatement : Steps Stmt) (asExpression : Steps Expr)
    {s t : Session} (rest : s.rest = t.rest) (depth : s.depth = t.depth) :
    (readBody setting asStatement asExpression s).1.toOption =
      (readBody setting asStatement asExpression t).1.toOption := by
  have first := asStatement.run_outcome setting rest depth
  have depths := (asStatement.carries setting s).depth.trans (depth.trans (asStatement.carries setting t).depth.symm)
  unfold readBody
  dsimp only
  rw [rest]
  split
  · rfl
  · generalize asStatement.run setting s = one at first depths ⊢
    generalize asStatement.run setting t = other at first depths ⊢
    obtain ⟨outcome, s'⟩ := one
    obtain ⟨outcome', t'⟩ := other
    cases first
    cases outcome with
    | ok => rfl
    | error failure =>
      dsimp only
      split
      · have second : (asExpression.run setting { s' with rest := t.rest }).1 =
            (asExpression.run setting { t' with rest := t.rest }).1 := asExpression.run_outcome setting rfl depths
        generalize asExpression.run setting { s' with rest := t.rest } = one at second ⊢
        generalize asExpression.run setting { t' with rest := t.rest } = other at second ⊢
        obtain ⟨outcome, s''⟩ := one
        obtain ⟨outcome', t''⟩ := other
        cases second
        cases outcome with
        | ok => rfl
        | error =>
          dsimp only
          split <;> rfl
      · rfl

inductive Nested.Tries (nested : Nested) : {α : Type} → Parser α → Prop where
  | cast : nested.Tries (Parser.cast nested)
  | declaration : nested.Tries (Parser.declaration nested)
  | assembly (pos : Pos) : nested.Tries (Parser.assembly nested pos)

theorem Nested.Tries.isStepwise {n : Nat} {p : Parser α} (tried : (Nested.forTokens n).Tries p) : p.IsStepwise := by
  have inner := Parser.nestedStepwise_forTokens n
  cases tried with
  | cast => exact Parser.isStepwise_cast inner
  | declaration => exact Parser.isStepwise_declaration inner
  | assembly pos => exact Parser.isStepwise_assembly inner pos

/-- How trying a parser ends: with its tree and behind it, or with none and where it began. -/
structure Parser.EndsTried (p : Parser α) (setting : Setting) (s s' : Session) (tree : Option α) : Prop where
  rest : (∃ a, tree = some a ∧ (p setting s.rest).outcome = .ok (a, s'.rest)) ∨
    tree = none ∧ s'.rest = s.rest ∧ ∃ failure, (p setting s.rest).outcome = .error failure
  depth : s'.depth = s.depth

/-- What is on record changes no outcome of what is read from here on, and of a body it changes neither whether it is
    accepted nor its tree. -/
structure Session.IgnoresRecord (setting : Setting) (s : Session) : Prop where
  next {β : Type} (next : Steps β) (record : Option Failure) :
    (next.run setting { s with record }).1 = (next.run setting s).1
  body (asStatement : Steps Stmt) (asExpression : Steps Expr) (record : Option Failure) :
    (readBody setting asStatement asExpression { s with record }).1.toOption =
      (readBody setting asStatement asExpression s).1.toOption

/-- An alternative that is tried ends with its tree, or with none and the tokens as before, in either case at the depth
    as before and never with an error. What it put on record decides on nothing that is read afterwards. -/
theorem speculation_contained (n : Nat) {p : Parser α} (tried : (Nested.forTokens n).Tries p) :
    p.IsStepwise ∧ ∀ production : Steps α, production.parser = p → ∀ (setting : Setting) (s : Session),
      ∃ tree s', production.attempt.run setting s = (.ok tree, s') ∧ p.EndsTried setting s s' tree ∧
        s'.IgnoresRecord setting := by
  refine ⟨tried.isStepwise, ?_⟩
  rintro production rfl setting s
  have unread (s' : Session) : s'.IgnoresRecord setting :=
    ⟨fun next _ => next.run_outcome setting rfl rfl, fun _ _ _ => readBody_accepted setting _ _ rfl rfl⟩
  have carried : s.Carries (Parser.attempt production.parser setting s.rest) (production.attempt.run setting s) :=
    production.attempt.carries setting s
  unfold Parser.attempt at carried
  generalize production.attempt.run setting s = result at carried ⊢
  cases reply : production.parser setting s.rest with | mk outcome met =>
  rw [reply] at carried
  cases outcome with
  | ok found =>
    cases carried with | ok =>
    exact ⟨_, _, rfl, ⟨.inl ⟨found.1, rfl, by rw [reply]; rfl⟩, rfl⟩, unread _⟩
  | error failure =>
    cases carried with | ok =>
    exact ⟨_, _, rfl, ⟨.inr ⟨rfl, rfl, failure, by rw [reply]⟩, rfl⟩, unread _⟩

theorem speculation_contained_product :
    ∃ production : Steps Expr, production.parser = Parser.cast (.forTokens 5) ∧
      ∃ s', production.attempt.run ⟨⟨1, 9⟩, []⟩ ⟨[⟨.punct .leftParen, ⟨1, 1⟩⟩, ⟨.name "a", ⟨1, 2⟩⟩,
          ⟨.punct .star, ⟨1, 4⟩⟩, ⟨.punct .ampersand, ⟨1, 6⟩⟩, ⟨.name "b", ⟨1, 7⟩⟩, ⟨.punct .rightParen, ⟨1, 8⟩⟩],
          0, none, []⟩ = (.ok none, s') ∧
        s'.rest = [⟨.punct .leftParen, ⟨1, 1⟩⟩, ⟨.name "a", ⟨1, 2⟩⟩, ⟨.punct .star, ⟨1, 4⟩⟩,
          ⟨.punct .ampersand, ⟨1, 6⟩⟩, ⟨.name "b", ⟨1, 7⟩⟩, ⟨.punct .rightParen, ⟨1, 8⟩⟩] ∧ s'.depth = 0 := by
  obtain ⟨⟨production, same⟩, contained⟩ := speculation_contained 5 .cast
  obtain ⟨tree, s', ran, ended, -⟩ := contained production same ⟨⟨1, 9⟩, []⟩ ⟨[⟨.punct .leftParen, ⟨1, 1⟩⟩,
    ⟨.name "a", ⟨1, 2⟩⟩, ⟨.punct .star, ⟨1, 4⟩⟩, ⟨.punct .ampersand, ⟨1, 6⟩⟩, ⟨.name "b", ⟨1, 7⟩⟩,
    ⟨.punct .rightParen, ⟨1, 8⟩⟩], 0, none, []⟩
  rcases ended.rest with ⟨a, -, read⟩ | ⟨rfl, rest, -⟩
  · cases read
  · exact ⟨production, same, s', ran, rest, ended.depth⟩

end MacroLift
