import MacroLift.Proofs.Grammar.Body
import MacroLift.Proofs.Grammar.Marks

namespace MacroLift

open MacroLift.Parser

variable {ts : List Token}

/-- A name at a place, and the places of the parentheses to put around it. -/
structure Enclosure where
  name : String
  openPos : Pos
  pos : Pos
  closePos : Pos

namespace Enclosure

variable (c : Enclosure)

def token : Token := ⟨.name c.name, c.pos⟩

def isVariable : Node → Bool
  | .expr (.name _ (.simple pos name)) => decide (pos = c.pos ∧ name = c.name)
  | _ => false

def apply (ts : List Token) : List Token :=
  ts.flatMap fun t =>
    if t = c.token then [⟨.punct .leftParen, c.openPos⟩, t, ⟨.punct .rightParen, c.closePos⟩] else [t]

@[simp] theorem apply_nil : c.apply [] = [] := rfl

@[simp] theorem apply_append (ts us : List Token) : c.apply (ts ++ us) = c.apply ts ++ c.apply us :=
  List.flatMap_append

@[simp] theorem apply_token (ts : List Token) :
    c.apply (c.token :: ts) = ⟨.punct .leftParen, c.openPos⟩ :: c.token :: ⟨.punct .rightParen, c.closePos⟩ ::
      c.apply ts := by
  simp [apply]

variable {c}

theorem apply_other {t : Token} (other : t ≠ c.token) : c.apply (t :: ts) = t :: c.apply ts := by
  simp [apply, other]

theorem ne_token {t : Token} (other : t.lexeme ≠ .name c.name) : t ≠ c.token := by
  rintro rfl
  exact other rfl

@[simp] theorem apply_cons {t : Token} (other : t.lexeme ≠ .name c.name) : c.apply (t :: ts) = t :: c.apply ts :=
  apply_other (ne_token other)

@[simp] theorem count_cons {t : Token} (other : t.lexeme ≠ .name c.name) :
    (t :: ts).count c.token = ts.count c.token :=
  List.count_cons_of_ne (ne_token other)

theorem apply_eq_self (none : c.token ∉ ts) : c.apply ts = ts := by
  induction ts with
  | nil => rfl
  | cons t ts ih =>
    rw [List.mem_cons, not_or] at none
    rw [apply_other fun same => none.1 same.symm, ih none.2]

theorem apply_of_count (none : ts.count c.token = 0) : c.apply ts = ts :=
  apply_eq_self (List.count_eq_zero.mp none)

theorem apply_eq_nil (h : c.apply ts = []) : ts = [] := by
  cases ts with
  | nil => rfl
  | cons t ts =>
    simp only [apply, List.flatMap_cons] at h
    split at h <;> cases h

theorem prefix_of_apply {front rest : List Token} (noParen : ∀ t ∈ front, t.lexeme ≠ .punct .leftParen)
    (h : c.apply ts = front ++ rest) : ∃ back, ts = front ++ back ∧ c.apply back = rest := by
  induction front generalizing ts with
  | nil => exact ⟨ts, rfl, h⟩
  | cons f front ih =>
    obtain ⟨noFirst, noMore⟩ := List.forall_mem_cons.mp noParen
    cases ts with
    | nil => cases h
    | cons t ts =>
      by_cases same : t = c.token
      · rw [same, apply_token] at h
        exact absurd (List.cons.inj h).1.symm fun first => noFirst (by rw [first])
      · rw [apply_other same] at h
        obtain ⟨rfl, more⟩ := List.cons.inj h
        obtain ⟨back, rfl, behind⟩ := ih noMore more
        exact ⟨back, rfl, behind⟩

theorem inParens_of_apply {ident : Ident} (h : InParens (c.apply ts) ident) :
    c.apply ts = ts ∨ ident = .simple c.pos c.name := by
  by_cases member : c.token ∈ ts
  · right
    obtain ⟨before, after, rfl⟩ := List.append_of_mem member
    obtain ⟨openPos, name, closePos, same, names⟩ := h
    rw [apply_append, apply_token] at same
    cases front : c.apply before with
    | nil =>
      rw [front] at same
      obtain ⟨-, inner⟩ := List.cons.inj same
      obtain ⟨pos, text, more, rfl⟩ := names.head
      obtain ⟨token, behind⟩ := List.cons.inj inner
      cases token
      cases more with
      | nil =>
        cases names with
        | simple => rfl
        | pasted _ _ more many =>
          cases more
          exact absurd rfl many
      | cons m more =>
        have letter := names.letters m (by simp)
        rw [← (List.cons.inj behind).1] at letter
        cases letter
    | cons f front' =>
      rw [front, List.cons_append, List.cons_append] at same
      obtain ⟨-, inner⟩ := List.cons.inj same
      have among : (⟨.punct .leftParen, c.openPos⟩ : Token) ∈ name ++ [⟨.punct .rightParen, closePos⟩] := by
        rw [← inner]
        simp
      rcases List.mem_append.mp among with inName | last
      · cases names.letters _ inName
      · simp at last
  · exact .inl (apply_eq_self member)

variable {parameters : List String} {next : Option Lexeme}

theorem continues_of_follows (follow : followsOperand next = true) (starts : next.any startsOperand = true) :
    next.any continuesOperand = true := by
  unfold followsOperand at follow
  split at follow
  case h_1 => cases starts
  case h_2 | h_3 | h_4 | h_5 => cases follow
  case h_6 => cases starts
  case h_7 p =>
    revert follow starts
    cases p <;> decide

theorem mayCast_of_apply (isParameter : parameters.contains c.name = true)
    (continues : next.any startsOperand = true → next.any continuesOperand = true)
    (cast : MayCast parameters (c.apply ts) next) : MayCast parameters ts next := by
  obtain ⟨ident, parens, starts, allowed⟩ := cast
  rcases inParens_of_apply parens with same | rfl
  · rw [same] at parens
    exact ⟨ident, parens, starts, allowed⟩
  · exact absurd ⟨isParameter, continues starts⟩ allowed

theorem isTemplate_of_apply (h : IsTemplate (c.apply ts)) : IsTemplate ts := by
  by_cases member : c.token ∈ ts
  · obtain ⟨before, after, rfl⟩ := List.append_of_mem member
    obtain ⟨pos, first, rest, lines, same, template⟩ := h
    have among : (⟨.punct .leftParen, c.openPos⟩ : Token) ∈ (⟨.string first, pos⟩ : Token) :: rest := by
      rw [← same]
      simp
    rcases List.mem_cons.mp among with first | more
    · cases first
    · cases template.letters _ more
  · rwa [apply_eq_self member] at h

theorem opensDeclaration_of_apply (h : OpensDeclaration (c.apply ts)) : OpensDeclaration ts := by
  obtain ⟨type, starPos, name, assignPos, rest, typeName, declared, same, typed, named⟩ := h
  have noParen : ∀ t ∈ type ++ ⟨.punct .star, starPos⟩ :: name ++ [⟨.punct .assign, assignPos⟩],
      t.lexeme ≠ .punct .leftParen := by
    intro t member paren
    simp only [List.mem_append, List.mem_cons, List.not_mem_nil, or_false] at member
    rcases member with (member | rfl | member) | rfl
    · cases paren ▸ typed.letters t member
    · cases paren
    · cases paren ▸ named.letters t member
    · cases paren
  have split : c.apply ts = type ++ ⟨.punct .star, starPos⟩ :: name ++ [⟨.punct .assign, assignPos⟩] ++ rest := by
    simpa using same
  obtain ⟨back, rfl, -⟩ := prefix_of_apply noParen split
  exact ⟨type, starPos, name, assignPos, back, typeName, declared, by simp, typed, named⟩

theorem ahead_apply (ts : List Token) (next : Option Lexeme) :
    ahead (c.apply ts) next = ahead ts next ∨ ahead (c.apply ts) next = some (.punct .leftParen) := by
  cases ts with
  | nil => exact .inl rfl
  | cons t ts =>
    by_cases same : t = c.token
    · rw [same, apply_token]
      exact .inr rfl
    · rw [apply_other same]
      exact .inl rfl

end Enclosure

theorem Pieces.noVariable {pieces : List Expr} (h : Pieces ts pieces) (c : Enclosure) :
    (nodesOfExprs pieces).countP c.isVariable = 0 := by
  induction h with
  | nil => rfl
  | text _ _ _ ih | mark _ _ _ _ ih =>
    simp only [nodesOfExprs, Expr.nodes, List.cons_append, List.nil_append]
    rw [List.countP_cons_of_neg (by simp [Enclosure.isVariable])]
    exact ih

theorem Derives.variables_le {phrase : Phrase} {tree : phrase.Tree} (h : Derives phrase ts tree) (c : Enclosure) :
    (phrase.nodes tree).countP c.isVariable ≤ ts.count c.token := by
  induction h with
  | name names =>
    cases names with
    | simple pos' text =>
      by_cases same : pos' = c.pos ∧ text = c.name
      · simp [Enclosure.isVariable, Enclosure.token, same]
      · simp [Enclosure.isVariable, same]
    | pasted => simp [Enclosure.isVariable]
  | piece pieces =>
    have none := pieces.noVariable c
    simp only [nodesOfExprs, List.append_nil] at none
    exact none ▸ Nat.zero_le _
  | pieces pieces =>
    have none := pieces.noVariable c
    simp only [Phrase.nodes, Expr.nodes, List.countP_cons, none]
    exact Nat.zero_le _
  | _ =>
    simp [List.countP_cons, Enclosure.isVariable] at * <;> omega

end MacroLift
