import MacroLift.Proofs.Token.Respacing

namespace MacroLift

namespace Pos

variable {p q r : Pos}

protected theorem lt_irrefl (p : Pos) : ¬ p < p := by
  rw [lt_iff]
  omega

protected theorem lt_trans (first : p < q) (second : q < r) : p < r := by
  rw [lt_iff] at *
  omega

theorem lt_next (p : Pos) (c : Char) : p < p.next c := by
  rw [lt_iff, next]
  split <;> (dsimp only; omega)

theorem lt_after (p : Pos) {text : List Char} (nonempty : text ≠ []) : p < p.after text := by
  induction text generalizing p with
  | nil => exact absurd rfl nonempty
  | cons c text ih =>
    cases text with
    | nil => exact p.lt_next c
    | cons d text => exact Pos.lt_trans (p.lt_next c) (ih (p.next c) (List.cons_ne_nil _ _))

theorem lt_after_of_lt (h : p < q) (text : List Char) : p < q.after text := by
  cases text with
  | nil => exact h
  | cons c text => exact Pos.lt_trans h (q.lt_after (List.cons_ne_nil c text))

def IsIn (line : Int) (text : List Char) (p : Pos) : Prop :=
  ∃ before after, text = before ++ after ∧ p = behind line before

end Pos

theorem lt_iff_of_pairwise {places : List Pos} (ordered : places.Pairwise (· < ·)) {i j : Nat} {p q : Pos}
    (first : places[i]? = some p) (second : places[j]? = some q) : p < q ↔ i < j := by
  obtain ⟨inside, rfl⟩ := List.getElem?_eq_some_iff.mp first
  obtain ⟨inside', rfl⟩ := List.getElem?_eq_some_iff.mp second
  have before := List.pairwise_iff_getElem.mp ordered
  constructor
  · intro less
    rcases Nat.lt_trichotomy i j with fewer | rfl | more
    · exact fewer
    · exact absurd less (Pos.lt_irrefl _)
    · exact absurd (Pos.lt_trans less (before j i inside' inside more)) (Pos.lt_irrefl _)
  · exact before i j inside inside'

namespace Token

def Stream.places (stream : Stream) : List Pos :=
  stream.tokens.map Token.pos ++ [stream.stop]

variable {cursor : Cursor} {ts : List Token} {stop p : Pos} {stream : Stream}

theorem Stream.places_token {i : Nat} (inside : i < stream.tokens.length) :
    stream.places[i]? = some stream.tokens[i].pos := by
  rw [places, List.getElem?_append_left (by simpa using inside)]
  simp [inside]

theorem Stream.places_stop (stream : Stream) : stream.places[stream.tokens.length]? = some stream.stop := by
  simp [places]

theorem ReadsAll.behind (h : ReadsAll cursor ts stop) (start : p < cursor.pos) :
    ∀ q ∈ ts.map Token.pos ++ [stop], p < q := by
  induction h with
  | stop step =>
    obtain ⟨-, rfl⟩ := step_eq_stop_iff.mp step
    simpa using Pos.lt_after_of_lt start _
  | token step _ rest ih =>
    obtain ⟨gap, after, -, -, place, rfl⟩ := step_eq_token_iff.mp step
    rw [place] at ih
    have here := Pos.lt_after_of_lt start gap
    rw [List.map_cons, List.cons_append, List.forall_mem_cons, place]
    exact ⟨here, ih (Pos.lt_after_of_lt here _)⟩

theorem ReadsAll.ordered (h : ReadsAll cursor ts stop) : (ts.map Token.pos ++ [stop]).Pairwise (· < ·) := by
  have alone := h.standsAlone
  induction h with
  | stop => simp
  | token step _ rest ih =>
    obtain ⟨single, others⟩ := List.forall_mem_cons.mp alone
    obtain ⟨gap, after, -, -, -, rfl⟩ := step_eq_token_iff.mp step
    exact .cons (rest.behind (Pos.lt_after _ single.ne_nil)) (ih others)

theorem Stream.places_ordered {text : String} {line : Int} (read : Stream.ofText text line = .ok stream) :
    stream.places.Pairwise (· < ·) :=
  (readAll_eq_ok_iff.mp read).ordered

variable {line : Int} {read : List Char} {next : Cursor} {t : Token} {fault : LexicalFault}

theorem offsets_of_step (step : cursor.step = .token t next) (placed : cursor.pos = .behind line read) :
    ∃ gap word, cursor.rest = gap ++ word ++ next.rest ∧ t.pos = .behind line (read ++ gap) ∧
      next.pos = .behind line (read ++ (gap ++ word)) := by
  obtain ⟨gap, after, split, -, start, rfl⟩ := step_eq_token_iff.mp step
  have whole := Gap.split_append cursor.rest
  rw [split] at whole
  rw [placed, Pos.after_behind] at start
  refine ⟨gap, t.lexeme.text.toList, ?_, start, ?_⟩
  · rw [← whole, List.append_assoc]
  · rw [start, Pos.after_behind, List.append_assoc]

theorem ReadsAll.isIn (h : ReadsAll cursor ts stop) (placed : cursor.pos = .behind line read) :
    ∀ p ∈ ts.map Token.pos ++ [stop], p.IsIn line (read ++ cursor.rest) := by
  induction h generalizing read with
  | stop step =>
    obtain ⟨-, rfl⟩ := step_eq_stop_iff.mp step
    rw [placed, Pos.after_behind]
    exact List.forall_mem_singleton.mpr ⟨_, [], (List.append_nil _).symm, rfl⟩
  | @token _ next _ _ _ step _ rest ih =>
    obtain ⟨gap, word, whole, start, behind⟩ := offsets_of_step step placed
    rw [List.map_cons, List.cons_append, List.forall_mem_cons, whole]
    refine ⟨⟨read ++ gap, word ++ next.rest, by simp, start⟩, fun p member => ?_⟩
    simpa using ih behind p member

theorem isIn_of_readAll (h : cursor.readAll = .error (fault, p)) (placed : cursor.pos = .behind line read) :
    p.IsIn line (read ++ cursor.rest) := by
  fun_induction Cursor.readAll cursor generalizing read with
  | case1 => cases h
  | case2 cursor cause pos step =>
    cases h
    obtain ⟨gap, bad, split, -, rfl⟩ := fault_of_step step
    have whole := Gap.split_append cursor.rest
    rw [split] at whole
    rw [placed, Pos.after_behind, ← whole]
    exact ⟨read ++ gap, bad, (List.append_assoc _ _ _).symm, rfl⟩
  | case3 cursor t next step _ ih =>
    obtain ⟨gap, word, whole, -, behind⟩ := offsets_of_step step placed
    cases rest : next.readAll with
    | ok | endless => simp [rest, Attempt.map] at h
    | error reason =>
      rw [rest] at h
      cases h
      simpa [whole] using ih rest behind
  | case4 => cases h

theorem Stream.isIn_of_error {text : String} (h : Stream.ofText text line = .error (fault, p)) :
    p.IsIn line text.toList :=
  isIn_of_readAll h (Pos.after_eq_behind line [])

end Token

end MacroLift
