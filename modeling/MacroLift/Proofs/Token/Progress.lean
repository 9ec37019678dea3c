import MacroLift.Proofs.Token.Respacing

namespace MacroLift

open Lexeme

variable {text after : List Char} {l : Lexeme}

theorem Lexeme.Scanned.of_empty (h : Scanned text l after) (empty : l.text = "") :
    l = .number "" ∧ after = text ∧ Stalls text := by
  have none : l.text.toList = [] := by rw [empty]; rfl
  cases h with
  | @word c rest start =>
    rw [text_ofWord, String.toList_ofList, List.takeWhile_cons_of_pos (isNameChar_of_isNameStart start)] at none
    cases none
  | number start =>
    obtain ⟨c, rest, rfl⟩ : ∃ c rest, text = c :: rest := by
      obtain ⟨c, rest, -, rfl | rfl⟩ := startsNumber_iff.mp start <;> exact ⟨_, _, rfl⟩
    obtain ⟨outside, found⟩ | ⟨-, more, found⟩ := splitNumber_front (isHexNumber (c :: rest)) c rest
    · rw [found]
      refine ⟨rfl, rfl, c, rfl, ?_, outside⟩
      obtain ⟨d, rest', isDigit, same | same⟩ := startsNumber_iff.mp start
      · cases same
        exact isDigit
      · cases same
        cases outside
    · rw [found, Lexeme.text, String.toList_ofList] at none
      cases none
  | string | character => simp [Lexeme.text] at none
  | @punct _ p =>
    rw [Lexeme.text, Punct.spelling, String.toList_ofList] at none
    exact absurd none p.chars_ne_nil

namespace Token

variable {cursor next last : Cursor} {t : Token} {ts : List Token} {gap : List Char}

theorem length_of_step (step : cursor.step = .token t next) (nonempty : t.lexeme.text ≠ "") :
    next.rest.length < cursor.rest.length := by
  obtain ⟨gap, after, found, -, -, rfl⟩ := step_eq_token_iff.mp step
  have whole := Gap.split_append cursor.rest
  have shown : 0 < t.lexeme.text.toList.length := by
    rw [List.length_pos_iff, ne_eq, String.toList_eq_nil_iff]
    exact nonempty
  rw [found] at whole
  rw [← whole, List.length_append, List.length_append]
  dsimp only
  omega

theorem stalls_of_step (step : cursor.step = .token t next) (empty : t.lexeme.text = "") :
    Stalls (Gap.split cursor.rest).2 := by
  obtain ⟨gap, after, found, scanned, -, -⟩ := step_eq_token_iff.mp step
  rw [found]
  exact (scanned.of_empty empty).2.2

/-- In front of such a digit the same empty number is read again and again. -/
theorem take_of_stalls (found : Gap.split cursor.rest = (gap, text)) (stalls : Stalls text) (limit : Nat) :
    cursor.take limit = (List.replicate limit ⟨.number "", cursor.pos.after gap⟩, .more) := by
  induction limit generalizing cursor gap with
  | zero => rfl
  | succ limit ih =>
    rw [Cursor.take, step_of_stalls found stalls]
    dsimp only
    rw [@ih ⟨text, cursor.pos.after gap⟩ [] stalls.startsBare]
    rfl

theorem readAll_of_stalls (found : Gap.split cursor.rest = (gap, text)) (stalls : Stalls text) :
    cursor.readAll = .endless := by
  -- behind the gap the reading stands in front of the digit, and the next token leaves it there
  have here (pos : Pos) : Cursor.readAll ⟨text, pos⟩ = .endless := by
    rw [Cursor.readAll, @step_of_stalls _ ⟨text, pos⟩ [] stalls.startsBare stalls]
    exact if_neg (lt_irrefl _)
  rw [Cursor.readAll, step_of_stalls found stalls]
  dsimp only
  split
  · rw [here]
    rfl
  · rfl

theorem Runs.take (run : Runs cursor ts last) (more : Nat) :
    cursor.take (ts.length + more) = (ts ++ (last.take more).1, (last.take more).2) := by
  induction run with
  | refl cursor => simp
  | @token cursor next last t ts step rest ih =>
    rw [List.length_cons, Nat.add_right_comm, Cursor.take, step]
    dsimp only
    rw [ih]
    rfl

theorem Runs.readAll (run : Runs cursor ts last) (nonempty : ∀ t ∈ ts, t.lexeme.text ≠ "") :
    cursor.readAll = last.readAll.map fun stream => ⟨ts ++ stream.tokens, stream.stop⟩ := by
  induction run with
  | refl cursor => cases cursor.readAll <;> rfl
  | @token cursor next last t ts step _ ih =>
    obtain ⟨first, others⟩ := List.forall_mem_cons.mp nonempty
    rw [Cursor.readAll, step]
    dsimp only
    rw [if_pos (length_of_step step first), ih others]
    cases last.readAll <;> rfl

theorem exists_run (cursor : Cursor) :
    ∃ ts last, Runs cursor ts last ∧ (∀ t ∈ ts, t.lexeme.text ≠ "") ∧ ts.length ≤ cursor.rest.length ∧
      ∀ t next, last.step = .token t next → t.lexeme.text = "" := by
  induction size : cursor.rest.length using Nat.strong_induction_on generalizing cursor with
  | _ size' ih =>
    subst size
    by_cases progress : ∃ t next, cursor.step = .token t next ∧ t.lexeme.text ≠ ""
    · obtain ⟨t, next, step, nonempty⟩ := progress
      have shorter := length_of_step step nonempty
      obtain ⟨ts, last, run, allNonempty, short, final⟩ := ih _ shorter next rfl
      refine ⟨t :: ts, last, .token step run, List.forall_mem_cons.mpr ⟨nonempty, allNonempty⟩, ?_, final⟩
      rw [List.length_cons]
      omega
    · refine ⟨[], cursor, .refl cursor, nofun, Nat.zero_le _, fun t next step => ?_⟩
      by_contra nonempty
      exact progress ⟨t, next, step, nonempty⟩

/-- The reading of a text comes to its end: tokens that each have a character, no more of them than the text has, and
    behind them the end of the text or a lexical fault, however many are asked for. -/
structure Ends (text : String) (line : Int) (ts : List Token) (ending : Ending) : Prop where
  nonempty : ∀ t ∈ ts, t.lexeme.text ≠ ""
  bounded : ts.length ≤ text.length
  final : (∃ pos, ending = .stop pos ∧ Stream.ofText text line = .ok ⟨ts, pos⟩) ∨
    ∃ fault pos, ending = .fault fault pos ∧ Stream.ofText text line = .error (fault, pos)
  taken : ∀ limit, ts.length < limit → Cursor.take limit ⟨text.toList, ⟨line, 1⟩⟩ = (ts, ending)

/-- The reading of a text stands still: behind some tokens comes a digit `c` that is no part of a number, and in front
    of it the empty number is read for ever. -/
structure StandsStill (text : String) (line : Int) (ts : List Token) (front : List Char) (c : Char)
    (behind : List Char) : Prop where
  nonempty : ∀ t ∈ ts, t.lexeme.text ≠ ""
  bounded : ts.length ≤ text.length
  whole : text.toList = front ++ c :: behind
  isDigit : Text.isDigitChar c = true
  outside : isNumberChar c = false
  read : Stream.ofText text line = .endless
  taken : ∀ more, Cursor.take (ts.length + more) ⟨text.toList, ⟨line, 1⟩⟩ =
    (ts ++ List.replicate more ⟨.number "", .behind line front⟩, .more)

theorem ends_or_stands_still (text : String) (line : Int) :
    (∃ ts ending, Ends text line ts ending) ∨ ∃ ts front c behind, StandsStill text line ts front c behind := by
  obtain ⟨ts, last, run, nonempty, short, final⟩ := exists_run ⟨text.toList, ⟨line, 1⟩⟩
  have bounded : ts.length ≤ text.length := by rwa [← String.length_toList]
  have whole : Stream.ofText text line = _ := run.readAll nonempty
  have taken {ending : Ending} (rests : last.take 1 = ([], ending)) (stays : ∀ k, last.take (k + 1) = last.take 1)
      (limit : Nat) (more : ts.length < limit) :
      Cursor.take limit ⟨text.toList, ⟨line, 1⟩⟩ = (ts, ending) := by
    obtain ⟨k, rfl⟩ : ∃ k, limit = ts.length + (k + 1) := ⟨limit - ts.length - 1, by omega⟩
    rw [run.take, stays, rests, List.append_nil]
  cases step : last.step with
  | stop pos =>
    have read : last.readAll = .ok ⟨[], pos⟩ := by rw [Cursor.readAll, step]
    rw [read] at whole
    refine .inl ⟨ts, .stop pos, nonempty, bounded, .inl ⟨pos, rfl, by simpa [Attempt.map] using whole⟩,
      taken ?_ fun k => ?_⟩ <;>
      simp only [Cursor.take, step]
  | fault fault pos =>
    have read : last.readAll = .error (fault, pos) := by rw [Cursor.readAll, step]
    rw [read] at whole
    refine .inl ⟨ts, .fault fault pos, nonempty, bounded, .inr ⟨fault, pos, rfl, whole⟩, taken ?_ fun k => ?_⟩ <;>
      simp only [Cursor.take, step]
  | token t next =>
    have stalls := stalls_of_step step (final t next step)
    obtain ⟨read, covered, -, placed⟩ := run.covers .nil (Pos.after_eq_behind line [])
    have rest := Gap.split_append last.rest
    obtain ⟨gap, bare, found⟩ : ∃ gap bare, Gap.split last.rest = (gap, bare) := ⟨_, _, rfl⟩
    rw [found] at stalls rest
    obtain ⟨c, head, isDigit, outside⟩ := id stalls
    obtain ⟨behind, rfl⟩ : ∃ behind, bare = c :: behind := List.head?_eq_some_iff.mp head
    refine .inr ⟨ts, read ++ gap, c, behind, nonempty, bounded, ?_, isDigit, outside, ?_, fun more => ?_⟩
    · rw [List.append_assoc, rest]
      exact covered
    · rw [whole, readAll_of_stalls found stalls]
      rfl
    · rw [run.take, take_of_stalls found stalls, placed, Pos.after_behind, List.nil_append]

/-- The reading of a text stands still somewhere, so that it never comes to its end. -/
def NeverEnds (text : String) (line : Int) : Prop :=
  ∃ ts front c behind, StandsStill text line ts front c behind

theorem ofText_eq_endless_iff {text : String} {line : Int} :
    Stream.ofText text line = .endless ↔ NeverEnds text line := by
  constructor
  · intro endless
    refine (ends_or_stands_still text line).resolve_left ?_
    rintro ⟨ts, ending, ends⟩
    rcases ends.final with ⟨pos, -, read⟩ | ⟨fault, pos, -, read⟩ <;> cases endless.symm.trans read
  · rintro ⟨ts, front, c, behind, still⟩
    exact still.read

end Token

end MacroLift
