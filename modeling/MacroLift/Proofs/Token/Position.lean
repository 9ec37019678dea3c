import Mathlib.Data.List.DropRight
import MacroLift.Proofs.Token.Scan

namespace MacroLift

variable {text before after : List Char} {line : Int}

namespace Text

def lastLine (text : List Char) : List Char :=
  text.rtakeWhile (· != '\n')

def lineAround (before after : List Char) : List Char :=
  lastLine before ++ after.takeWhile (· != '\n')

@[simp] theorem lastLine_newline (text : List Char) : lastLine (text ++ ['\n']) = [] := by
  simp [lastLine]

@[simp] theorem lastLine_concat {c : Char} (text : List Char) (h : c ≠ '\n') :
    lastLine (text ++ [c]) = lastLine text ++ [c] := by
  simp [lastLine, h]

theorem pieces_cons {c : Char} (h : c ≠ '\n') (text : List Char) :
    pieces (c :: text) = (pieces text).modifyHead (c :: ·) := by
  rw [pieces.eq_3 _ _ h]
  split
  case h_1 none => exact absurd none (pieces_ne_nil text)
  case h_2 found => rw [found, List.modifyHead_cons]

theorem pieces_newline (before after : List Char) :
    pieces (before ++ '\n' :: after) = pieces before ++ pieces after := by
  induction before with
  | nil => rfl
  | cons c before ih =>
    by_cases newline : c = '\n'
    · subst newline
      simp [pieces, ih]
    · obtain ⟨piece, more, found⟩ := List.exists_cons_of_ne_nil (pieces_ne_nil before)
      rw [List.cons_append, pieces_cons newline, pieces_cons newline, ih, found]
      rfl

theorem length_pieces (text : List Char) : (pieces text).length = text.count '\n' + 1 := by
  induction text with
  | nil => rfl
  | cons c text ih =>
    by_cases newline : c = '\n'
    · subst newline
      simp [pieces, ih]
    · rw [pieces_cons newline, List.length_modifyHead, ih, List.count_cons_of_ne newline]

theorem head?_pieces (text : List Char) : (pieces text).head? = some (text.takeWhile (· != '\n')) := by
  induction text with
  | nil => rfl
  | cons c text ih =>
    by_cases newline : c = '\n'
    · subst newline
      simp [pieces]
    · simp [pieces_cons newline, ih, newline]

theorem getElem?_pieces (before after : List Char) :
    (pieces (before ++ after))[before.count '\n']? = some (lineAround before after) := by
  induction before using List.reverseRecOn generalizing after with
  | nil => exact List.head?_eq_getElem?.symm.trans (head?_pieces after)
  | append_singleton before c ih =>
    by_cases newline : c = '\n'
    · subst newline
      have behind : (before ++ ['\n']).count '\n' - (pieces before).length = 0 := by simp [length_pieces]
      rw [List.append_assoc, List.singleton_append, pieces_newline,
        List.getElem?_append_right (by simp [length_pieces]), behind, ← List.head?_eq_getElem?, head?_pieces]
      simp [lineAround]
    · have found := ih (c :: after)
      simpa [lineAround, lastLine_concat before newline, newline] using found

end Text

/-- The place behind a part of a text whose first line has the number `line`: so many lines further down as there are
    newlines, and so many columns to the right as there are characters behind the last of them. -/
def Pos.behind (line : Int) (before : List Char) : Pos :=
  ⟨line + before.count '\n', 1 + (Text.lastLine before).length⟩

theorem Pos.after_eq_behind (line : Int) (before : List Char) :
    (⟨line, 1⟩ : Pos).after before = .behind line before := by
  induction before using List.reverseRecOn with
  | nil => simp [behind, Text.lastLine]
  | append_singleton before c ih =>
    rw [after_append, ih, after_cons, after_nil]
    by_cases newline : c = '\n'
    · subst newline
      simp [next, behind, Int.add_assoc]
    · simp [next, behind, newline, Text.lastLine_concat before newline, Int.add_assoc]

theorem Pos.after_behind (line : Int) (before text : List Char) :
    (Pos.behind line before).after text = .behind line (before ++ text) := by
  rw [← after_eq_behind, ← after_append, after_eq_behind]

theorem LexicalFault.diagnostic_behind (fault : LexicalFault) (file : String) (line : Int)
    (before after : List Char) :
    fault.diagnostic (.behind line before) file (String.ofList (before ++ after)) line =
      ⟨fault.cause, some ⟨file, .behind line before⟩, some (String.ofList (Text.lineAround before after))⟩ := by
  have positive : 0 < line + before.count '\n' - line + 1 := by omega
  have index : (line + (before.count '\n' : Int) - line + 1 - 1).toNat = before.count '\n' := by omega
  simp only [diagnostic, Pos.behind, lineAt?, if_pos positive, index, String.toList_ofList, List.getElem?_map,
    Text.getElem?_pieces, Option.map_some]

namespace Token

variable {cursor next last : Cursor} {t : Token} {ts : List Token} {pos : Pos} {fault : LexicalFault}

theorem step_nil {gap : List Char} (found : Gap.split cursor.rest = (gap, [])) :
    cursor.step = .stop (cursor.pos.after gap) := by
  unfold Cursor.step
  rw [found]

theorem step_cons {gap rest : List Char} {c : Char} (found : Gap.split cursor.rest = (gap, c :: rest)) : cursor.step =
    match Lexeme.scan c rest with
    | .error cause => .fault cause (cursor.pos.after gap)
    | .ok (lexeme, after) => .token ⟨lexeme, cursor.pos.after gap⟩
        ⟨after, (cursor.pos.after gap).after lexeme.text.toList⟩ := by
  cases scanned : Lexeme.scan c rest with
  | error cause => simp only [Cursor.step, found, scanned]
  | ok read => simp only [Cursor.step, found, scanned]

theorem step_eq_token_iff : cursor.step = .token t next ↔
    ∃ gap after, Gap.split cursor.rest = (gap, t.lexeme.text.toList ++ after) ∧
      Lexeme.Scanned (t.lexeme.text.toList ++ after) t.lexeme after ∧ t.pos = cursor.pos.after gap ∧
      next = ⟨after, t.pos.after t.lexeme.text.toList⟩ := by
  constructor
  · intro h
    obtain ⟨gap, text, found⟩ : ∃ gap text, Gap.split cursor.rest = (gap, text) := ⟨_, _, rfl⟩
    cases text with
    | nil =>
      rw [step_nil found] at h
      cases h
    | cons c rest =>
      rw [step_cons found] at h
      split at h
      · cases h
      · rename_i lexeme after scanned
        cases h
        have scanned := Lexeme.scan_eq_ok_iff.mp scanned
        refine ⟨gap, after, ?_, ?_, rfl, rfl⟩
        · rw [scanned.append, found]
        · rwa [scanned.append]
  · rintro ⟨gap, after, found, scanned, placed, rfl⟩
    obtain ⟨c, rest, whole⟩ := List.exists_cons_of_ne_nil scanned.ne_nil
    rw [whole] at found scanned
    rw [step_cons found, Lexeme.scan_eq_ok_iff.mpr scanned, ← placed]

theorem step_eq_stop_iff : cursor.step = .stop pos ↔
    (Gap.split cursor.rest).2 = [] ∧ pos = cursor.pos.after cursor.rest := by
  obtain ⟨gap, text, found⟩ : ∃ gap text, Gap.split cursor.rest = (gap, text) := ⟨_, _, rfl⟩
  have whole := Gap.split_append cursor.rest
  rw [found] at whole
  cases text with
  | nil =>
    rw [step_nil found, found, ← whole, List.append_nil]
    simp [eq_comm]
  | cons c rest =>
    rw [step_cons found, found]
    simp only [List.cons_ne_nil, false_and, iff_false]
    split <;> exact nofun

theorem fault_of_step (h : cursor.step = .fault fault pos) :
    ∃ gap bad, Gap.split cursor.rest = (gap, bad) ∧ fault.IsAt bad ∧ pos = cursor.pos.after gap := by
  obtain ⟨gap, text, found⟩ : ∃ gap text, Gap.split cursor.rest = (gap, text) := ⟨_, _, rfl⟩
  have bare := Gap.startsBare_split cursor.rest
  rw [found] at bare
  cases text with
  | nil =>
    rw [step_nil found] at h
    cases h
  | cons c rest =>
    rw [step_cons found] at h
    split at h
    · rename_i failed
      cases h
      exact ⟨gap, c :: rest, found, Lexeme.isAt_of_scan bare failed, rfl⟩
    · cases h

inductive Runs : Cursor → List Token → Cursor → Prop where
  | refl (cursor : Cursor) : Runs cursor [] cursor
  | token {cursor next last : Cursor} {t : Token} {ts : List Token} (step : cursor.step = .token t next)
      (rest : Runs next ts last) : Runs cursor (t :: ts) last

inductive Rests (last : Cursor) : Ending → Prop where
  | more : Rests last .more
  | stop {pos : Pos} (step : last.step = .stop pos) : Rests last (.stop pos)
  | fault {fault : LexicalFault} {pos : Pos} (step : last.step = .fault fault pos) : Rests last (.fault fault pos)

theorem runs_take (limit : Nat) (cursor : Cursor) :
    ∃ last, Runs cursor (cursor.take limit).1 last ∧ Rests last (cursor.take limit).2 := by
  induction limit generalizing cursor with
  | zero => exact ⟨cursor, .refl cursor, .more⟩
  | succ limit ih =>
    rw [Cursor.take]
    split
    case h_1 t next step =>
      obtain ⟨last, run, rests⟩ := ih next
      exact ⟨last, .token step run, rests⟩
    case h_2 pos step => exact ⟨cursor, .refl cursor, .stop step⟩
    case h_3 fault pos step => exact ⟨cursor, .refl cursor, .fault step⟩

/-- Gaps and tokens in turn that make up the beginning of a text. Every token has the place that its offset has. -/
inductive Covers (line : Int) : List Char → List Token → Prop where
  | nil : Covers line [] []
  | snoc {read gap : List Char} {ts : List Token} {lexeme : Lexeme} (front : Covers line read ts)
      (isGap : Gap.IsGap false gap) :
      Covers line (read ++ gap ++ lexeme.text.toList) (ts ++ [⟨lexeme, .behind line (read ++ gap)⟩])

/-- Why there are no more tokens: no more were asked for, or there is but a gap left, or behind a gap something that
    is no token. The end and the fault have the place of their offset, and a fault is shown with the line it is on. -/
inductive Ending.Fits (line : Int) (read rest : List Char) : Ending → Prop where
  | more : Fits line read rest .more
  | stop (isGap : Gap.IsGap true rest) : Fits line read rest (.stop (.behind line (read ++ rest)))
  | fault {gap bad : List Char} {fault : LexicalFault} (whole : rest = gap ++ bad) (isGap : Gap.IsGap false gap)
      (isAt : fault.IsAt bad)
      (shown : ∀ file, fault.diagnostic (.behind line (read ++ gap)) file (String.ofList (read ++ rest)) line =
        ⟨fault.cause, some ⟨file, .behind line (read ++ gap)⟩,
          some (String.ofList (Text.lineAround (read ++ gap) bad))⟩) :
      Fits line read rest (.fault fault (.behind line (read ++ gap)))

variable {read : List Char} {before : List Token}

theorem Covers.step (front : Covers line read ts) (placed : cursor.pos = .behind line read)
    (h : cursor.step = .token t next) :
    ∃ more, cursor.rest = more ++ next.rest ∧ Covers line (read ++ more) (ts ++ [t]) ∧
      next.pos = .behind line (read ++ more) := by
  obtain ⟨gap, after, found, scanned, start, rfl⟩ := step_eq_token_iff.mp h
  have whole := Gap.split_append cursor.rest
  have isGap := Gap.isGap_split cursor.rest
  rw [found] at whole isGap
  rw [List.isEmpty_eq_false_iff.mpr scanned.ne_nil] at isGap
  have token : t = ⟨t.lexeme, .behind line (read ++ gap)⟩ := by rw [← Pos.after_behind, ← placed, ← start]
  refine ⟨gap ++ t.lexeme.text.toList, ?_, ?_, ?_⟩
  · rw [← whole, List.append_assoc]
  · rw [token, ← List.append_assoc]
    exact front.snoc isGap
  · rw [start, placed, Pos.after_behind, Pos.after_behind, List.append_assoc]

theorem Runs.covers (run : Runs cursor ts last) (front : Covers line read before)
    (placed : cursor.pos = .behind line read) :
    ∃ more, cursor.rest = more ++ last.rest ∧ Covers line (read ++ more) (before ++ ts) ∧
      last.pos = .behind line (read ++ more) := by
  induction run generalizing read before with
  | refl cursor => exact ⟨[], rfl, by simpa using front, by simpa using placed⟩
  | @token cursor next last t ts step rest ih =>
    obtain ⟨first, whole, front, placed⟩ := front.step placed step
    obtain ⟨second, whole', covers, placed⟩ := ih front placed
    refine ⟨first ++ second, ?_, ?_, ?_⟩
    · rw [whole, whole', List.append_assoc]
    · simpa using covers
    · simpa using placed

theorem Rests.fits {ending : Ending} (rests : Rests last ending) (placed : last.pos = .behind line read) :
    ending.Fits line read last.rest := by
  have whole := Gap.split_append last.rest
  have isGap := Gap.isGap_split last.rest
  cases rests with
  | more => exact .more
  | stop step =>
    obtain ⟨ended, rfl⟩ := step_eq_stop_iff.mp step
    rw [ended, List.append_nil] at whole
    rw [whole, ended] at isGap
    rw [placed, Pos.after_behind]
    exact .stop isGap
  | fault step =>
    obtain ⟨gap, bad, found, isAt, rfl⟩ := fault_of_step step
    rw [found] at whole isGap
    rw [List.isEmpty_eq_false_iff.mpr isAt.ne_nil] at isGap
    rw [placed, Pos.after_behind]
    refine .fault whole.symm isGap isAt fun file => ?_
    rw [← whole, ← List.append_assoc, LexicalFault.diagnostic_behind]

/-- Nothing of a text is lost, and every token is placed right. However many tokens are read, what the reading has
    passed is gaps and tokens in turn, each token at the line and the column of its offset; so are the end of the text
    and a fault, which is shown with the line that it lies on. -/
theorem take_covers (text : String) (line : Int) (limit : Nat) :
    ∃ read last, Runs ⟨text.toList, ⟨line, 1⟩⟩ (Cursor.take limit ⟨text.toList, ⟨line, 1⟩⟩).1 last ∧
      text.toList = read ++ last.rest ∧ last.pos = .behind line read ∧
      Covers line read (Cursor.take limit ⟨text.toList, ⟨line, 1⟩⟩).1 ∧
      (Cursor.take limit ⟨text.toList, ⟨line, 1⟩⟩).2.Fits line read last.rest := by
  obtain ⟨last, run, rests⟩ := runs_take limit ⟨text.toList, ⟨line, 1⟩⟩
  obtain ⟨read, whole, covers, placed⟩ := run.covers .nil (Pos.after_eq_behind line [])
  exact ⟨read, last, run, whole, placed, covers, rests.fits placed⟩

inductive ReadsAll : Cursor → List Token → Pos → Prop where
  | stop {cursor : Cursor} {pos : Pos} (step : cursor.step = .stop pos) : ReadsAll cursor [] pos
  | token {cursor next : Cursor} {t : Token} {ts : List Token} {pos : Pos} (step : cursor.step = .token t next)
      (shorter : next.rest.length < cursor.rest.length) (rest : ReadsAll next ts pos) :
      ReadsAll cursor (t :: ts) pos

theorem readAll_eq_ok_iff {stream : Stream} : cursor.readAll = .ok stream ↔
    ReadsAll cursor stream.tokens stream.stop := by
  constructor
  · intro h
    fun_induction Cursor.readAll cursor generalizing stream with
    | case1 cursor pos step =>
      cases h
      exact .stop step
    | case2 => cases h
    | case3 cursor t next step shorter ih =>
      cases read : next.readAll with
      | error | endless => simp [read, Attempt.map] at h
      | ok more =>
        rw [read] at h
        cases h
        exact .token step shorter (ih read)
    | case4 => cases h
  · intro h
    obtain ⟨tokens, stop⟩ := stream
    dsimp only at h
    induction h with
    | stop step => rw [Cursor.readAll, step]
    | token step shorter _ ih =>
      rw [Cursor.readAll, step]
      simp only [shorter, if_true, ih]
      rfl

theorem readsAll_of_tokenize {text file : String} {stream : Stream} (read : tokenize text file line = .ok stream) :
    ReadsAll ⟨text.toList, ⟨line, 1⟩⟩ stream.tokens stream.stop := by
  unfold tokenize at read
  split at read <;> cases read
  exact readAll_eq_ok_iff.mp ‹_›

theorem exists_take_of_readAll (h : cursor.readAll = .error (fault, pos)) :
    ∃ limit, (cursor.take limit).2 = .fault fault pos := by
  fun_induction Cursor.readAll cursor with
  | case1 => cases h
  | case2 cursor cause pos' step =>
    cases h
    exact ⟨1, by rw [Cursor.take, step]⟩
  | case3 cursor t next step shorter ih =>
    cases read : next.readAll with
    | ok | endless => simp [read, Attempt.map] at h
    | error reason =>
      rw [read] at h
      cases h
      obtain ⟨limit, found⟩ := ih read
      exact ⟨limit + 1, by rw [Cursor.take, step]; exact found⟩
  | case4 => cases h

end Token

end MacroLift
