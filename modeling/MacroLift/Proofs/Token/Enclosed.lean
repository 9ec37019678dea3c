import MacroLift.Proofs.Token.Position

namespace MacroLift

namespace Token

variable {text front more item after rest last : List Char} {c : Char} {n : Nat}

def enclosed? : List Char → Option (List Char × List Char)
  | '/' :: '/' :: rest => some (consume ['/', '/'] (Gap.lineRest rest))
  | '/' :: '*' :: rest => (Gap.closeComment? rest).map (consume ['/', '*'])
  | '"' :: rest => (Lexeme.splitQuoted? '"' rest).map (consume ['"'])
  | '\x27' :: rest => (Lexeme.splitQuoted? '\x27' rest).map (consume ['\x27'])
  | _ => none

theorem enclosed?_append (found : enclosed? text = some (item, after)) : item ++ after = text ∧ item ≠ [] := by
  unfold enclosed? at found
  split at found
  · cases found
    exact ⟨by simp [Gap.lineRest_append], List.cons_ne_nil _ _⟩
  · obtain ⟨⟨comment, rest⟩, closed, same⟩ := Option.map_eq_some_iff.mp found
    cases same
    exact ⟨by simp [Gap.closeComment?_append closed], List.cons_ne_nil _ _⟩
  · obtain ⟨⟨body, rest⟩, closed, same⟩ := Option.map_eq_some_iff.mp found
    cases same
    exact ⟨by simp [Lexeme.splitQuoted?_append closed], List.cons_ne_nil _ _⟩
  · obtain ⟨⟨body, rest⟩, closed, same⟩ := Option.map_eq_some_iff.mp found
    cases same
    exact ⟨by simp [Lexeme.splitQuoted?_append closed], List.cons_ne_nil _ _⟩
  · cases found

theorem length_of_enclosed? (found : enclosed? text = some (item, after)) :
    text.length = item.length + after.length ∧ 0 < item.length := by
  obtain ⟨rfl, nonempty⟩ := enclosed?_append found
  exact ⟨List.length_append, List.length_pos_iff.mpr nonempty⟩

/-- Whether the character with an index stands inside a comment or a literal, as not the first of it. -/
def isEnclosed (text : List Char) (index : Nat) : Bool :=
  match _found : enclosed? text with
  | some (item, after) => if index < item.length then 0 < index else isEnclosed after (index - item.length)
  | none =>
    match text, index with
    | _ :: rest, index + 1 => isEnclosed rest index
    | _, _ => false
  termination_by text.length
  decreasing_by
    · have bound := length_of_enclosed? _found
      omega
    · simp

theorem isEnclosed_within (found : enclosed? text = some (item, after)) (notFirst : 0 < n) (inside : n < item.length) :
    isEnclosed text n = true := by
  rw [isEnclosed]
  split
  · rename_i found'
    cases found.symm.trans found'
    rw [if_pos inside]
    exact decide_eq_true notFirst
  · rename_i none
    cases none.symm.trans found

theorem isEnclosed_behind (found : enclosed? text = some (item, after)) (n : Nat) :
    isEnclosed text (item.length + n) = isEnclosed after n := by
  rw [isEnclosed]
  split
  · rename_i found'
    cases found.symm.trans found'
    rw [if_neg (by omega), Nat.add_sub_cancel_left]
  · rename_i none
    cases none.symm.trans found

theorem isEnclosed_cons (none : enclosed? (c :: rest) = none) (n : Nat) :
    isEnclosed (c :: rest) (n + 1) = isEnclosed rest n := by
  rw [isEnclosed]
  split
  · rename_i found
    cases none.symm.trans found
  · rfl

/-- Passing over a text: comments and literals as wholes, and all else character by character, unless it opens a
    comment. -/
inductive Passes : List Char → List Char → List Char → Prop where
  | nil (text : List Char) : Passes text [] text
  | enclosed {text item after front last : List Char} (found : enclosed? text = some (item, after))
      (rest : Passes after front last) : Passes text (item ++ front) last
  | single {c : Char} {after front last : List Char} (none : enclosed? (c :: after) = none)
      (noOpening : ¬ ['/', '*'] <+: c :: after) (rest : Passes after front last) :
      Passes (c :: after) (c :: front) last

theorem Passes.append (h : Passes text front last) : front ++ last = text := by
  induction h with
  | nil => rfl
  | enclosed found _ ih => rw [List.append_assoc, ih, (enclosed?_append found).1]
  | single _ _ _ ih => rw [List.cons_append, ih]

theorem Passes.trans (first : Passes text front rest) (second : Passes rest more last) :
    Passes text (front ++ more) last := by
  induction first with
  | nil => exact second
  | enclosed found _ ih =>
    rw [List.append_assoc]
    exact .enclosed found (ih second)
  | single none noOpening _ ih => exact .single none noOpening (ih second)

theorem Passes.isEnclosed (h : Passes text front last) {before : List Char}
    (whole : text = before ++ '/' :: '*' :: rest) (unclosed : Gap.closeComment? rest = none)
    (passed : before.length < front.length) : isEnclosed text before.length = true := by
  induction h generalizing before with
  | nil => cases passed
  | @enclosed text item after front last found _ ih =>
    obtain ⟨parts, -⟩ := enclosed?_append found
    -- the opening lies in an item that is passed over as a whole, or behind it
    by_cases inside : before.length < item.length
    · refine isEnclosed_within found (List.length_pos_iff.mpr ?_) inside
      rintro rfl
      rw [whole, List.nil_append, enclosed?, unclosed] at found
      cases found
    · have front : item <+: before := List.prefix_of_prefix_length_le ⟨after, parts⟩ ⟨_, whole.symm⟩ (Nat.le_of_not_lt inside)
      obtain ⟨behind, rfl⟩ := front
      rw [← parts, List.append_assoc, List.append_cancel_left_eq] at whole
      rw [List.length_append, isEnclosed_behind found]
      rw [List.length_append, List.length_append] at passed
      exact ih whole (by omega)
  | @single c after front last none noOpening _ ih =>
    cases before with
    | nil =>
      cases whole
      exact absurd ⟨rest, rfl⟩ noOpening
    | cons d before =>
      obtain ⟨rfl, whole'⟩ := List.cons.inj whole
      rw [List.length_cons, isEnclosed_cons none]
      exact ih whole' (Nat.lt_of_succ_lt_succ passed)

def beginsEnclosed (c : Char) : Bool :=
  c == '/' || c == '"' || c == '\x27'

theorem beginsEnclosed_of {p : Char → Bool} (noSlash : p '/' = false) (noString : p '"' = false)
    (noCharacter : p '\x27' = false) (h : p c = true) : beginsEnclosed c = false := by
  have others : c ≠ '/' ∧ c ≠ '"' ∧ c ≠ '\x27' := by
    refine ⟨?_, ?_, ?_⟩ <;> (rintro rfl; simp_all)
  simp [beginsEnclosed, others]

theorem enclosed?_eq_none (plain : beginsEnclosed c = false) (rest : List Char) : enclosed? (c :: rest) = none := by
  unfold enclosed?
  split <;> simp_all [beginsEnclosed]

theorem Passes.plain (plain : beginsEnclosed c = false) (passes : Passes rest front last) :
    Passes (c :: rest) (c :: front) last := by
  refine .single (enclosed?_eq_none plain rest) ?_ passes
  rintro ⟨behind, start⟩
  obtain ⟨rfl, -⟩ := List.cons.inj start
  cases plain

theorem passes_plain (plain : ∀ c ∈ front, beginsEnclosed c = false) (last : List Char) :
    Passes (front ++ last) front last := by
  induction front with
  | nil => exact .nil last
  | cons c front ih =>
    obtain ⟨head, tail⟩ := List.forall_mem_cons.mp plain
    exact .plain head (ih tail)

theorem passes_enclosed (found : enclosed? text = some (item, after)) : Passes text item after := by
  have passes := Passes.enclosed found (.nil after)
  rwa [List.append_nil] at passes

theorem passes_gap (text : List Char) : Passes text (Gap.split text).1 (Gap.split text).2 := by
  fun_induction Gap.split text with
  | case1 => exact .nil []
  | case2 rest ih => exact .plain rfl (.plain rfl ih)
  | case3 rest ih => exact .plain rfl (.plain rfl (.plain rfl ih))
  | case4 rest ih => exact (passes_enclosed (enclosed?.eq_1 rest)).trans ih
  | case5 rest comment after closed ih =>
    have found : enclosed? ('/' :: '*' :: rest) = some ('/' :: '*' :: comment, after) := by
      rw [enclosed?, closed]
      rfl
    exact (passes_enclosed found).trans ih
  | case6 rest unclosed => exact .nil _
  | case7 c rest _ _ _ _ isBlank ih => exact .plain (beginsEnclosed_of (p := Gap.isBlank) rfl rfl rfl isBlank) ih
  | case8 c rest => exact .nil _

theorem mem_splitNumber {hex : Bool} (member : c ∈ (Lexeme.splitNumber hex text).1) :
    (Lexeme.isNumberChar c || Lexeme.isSign c) = true := by
  fun_induction Lexeme.splitNumber hex text with
  | case1 | case3 | case6 => cases member
  | case2 d inside =>
    rw [List.mem_singleton.mp member, inside, Bool.true_or]
  | case4 d e rest inside sign ih =>
    simp only [consume, List.cons_append, List.nil_append, List.mem_cons] at member
    rw [Bool.and_eq_true] at sign
    rcases member with rfl | rfl | member
    · rw [inside, Bool.true_or]
    · rw [sign.2, Bool.or_true]
    · exact ih member
  | case5 d e rest inside noSign ih =>
    simp only [consume, List.cons_append, List.nil_append, List.mem_cons] at member
    rcases member with rfl | member
    · rw [inside, Bool.true_or]
    · exact ih member

theorem beginsEnclosed_of_mem_tail {p : Punct} (member : c ∈ p.chars.tail) : beginsEnclosed c = false := by
  have none : p.chars.tail.all (fun c => !beginsEnclosed c) = true := by cases p <;> rfl
  simpa using List.all_eq_true.mp none c member

theorem passes_punct {p : Punct} (noOpening : ¬ ['/', '*'] <+: p.chars ++ last)
    (noLine : ¬ ['/', '/'] <+: p.chars ++ last) : Passes (p.chars ++ last) p.chars last := by
  obtain ⟨c, tail, chars⟩ := List.exists_cons_of_ne_nil p.chars_ne_nil
  have plain : ∀ d ∈ p.chars.tail, beginsEnclosed d = false := fun d => beginsEnclosed_of_mem_tail
  rw [chars] at noOpening noLine plain ⊢
  refine .single ?_ noOpening (passes_plain plain last)
  have front : p.chars <+: c :: tail := chars ▸ List.prefix_refl _
  have noQuote := p.head_of_prefix front
  by_cases slash : c = '/'
  · subst slash
    unfold enclosed?
    split
    · rename_i same
      exact absurd ⟨_, same.symm⟩ noLine
    · rename_i same
      exact absurd ⟨_, same.symm⟩ noOpening
    all_goals first | rfl | (rename_i same; cases same)
  · exact enclosed?_eq_none (by simp [beginsEnclosed, slash, noQuote]) _

theorem not_lineComment_of_startsBare (bare : Gap.StartsBare text) : ¬ ['/', '/'] <+: text := by
  rintro ⟨rest, rfl⟩
  have whole : Gap.split ('/' :: '/' :: rest) = ([], '/' :: '/' :: rest) := bare
  rw [Gap.split] at whole
  cases congrArg Prod.fst whole

theorem passes_lexeme {l : Lexeme} (scanned : Lexeme.Scanned text l after) (bare : Gap.StartsBare text) :
    Passes text l.text.toList after := by
  have whole := scanned.append
  cases scanned with
  | @word c rest start =>
    have inside : ∀ d ∈ (c :: rest).takeWhile Lexeme.isNameChar, Lexeme.isNameChar d = true :=
      List.all_eq_true.mp List.all_takeWhile
    have plain : ∀ d ∈ (c :: rest).takeWhile Lexeme.isNameChar, beginsEnclosed d = false :=
      fun d member => beginsEnclosed_of (p := Lexeme.isNameChar) rfl rfl rfl (inside d member)
    have passes := passes_plain plain ((c :: rest).dropWhile Lexeme.isNameChar)
    rw [List.takeWhile_append_dropWhile] at passes
    rwa [Lexeme.text_ofWord, String.toList_ofList]
  | number start =>
    have plain : ∀ d ∈ (Lexeme.splitNumber (Lexeme.isHexNumber text) text).1, beginsEnclosed d = false :=
      fun d member => beginsEnclosed_of (p := fun d => Lexeme.isNumberChar d || Lexeme.isSign d) rfl rfl rfl
        (mem_splitNumber member)
    have passes := passes_plain plain (Lexeme.splitNumber (Lexeme.isHexNumber text) text).2
    rw [Lexeme.splitNumber_append] at passes
    rwa [Lexeme.text, String.toList_ofList]
  | string closed =>
    rw [Lexeme.text, String.toList_ofList]
    exact passes_enclosed (by rw [enclosed?, closed]; rfl)
  | character closed =>
    rw [Lexeme.text, String.toList_ofList]
    exact passes_enclosed (by rw [enclosed?, closed]; rfl)
  | @punct _ p noNumber noComment found =>
    have noLine := not_lineComment_of_startsBare bare
    rw [Lexeme.text, Punct.spelling, String.toList_ofList] at whole ⊢
    generalize text.drop p.chars.length = after at whole
    subst whole
    exact passes_punct noComment noLine

section Readings

variable {cursor next stopped : Cursor} {t : Token} {ts : List Token} {pos : Pos} {source : String} {line : Int}

theorem passes_step (step : cursor.step = .token t next) : ∃ front, Passes cursor.rest front next.rest := by
  obtain ⟨gap, after, found, scanned, -, rfl⟩ := step_eq_token_iff.mp step
  have passesGap := passes_gap cursor.rest
  have bare := Gap.startsBare_split cursor.rest
  rw [found] at passesGap bare
  exact ⟨_, passesGap.trans (passes_lexeme scanned bare)⟩

theorem Runs.passes (run : Runs cursor ts stopped) : ∃ front, Passes cursor.rest front stopped.rest := by
  induction run with
  | refl cursor => exact ⟨[], .nil _⟩
  | token step _ ih =>
    obtain ⟨first, passesFirst⟩ := passes_step step
    obtain ⟨others, passesOthers⟩ := ih
    exact ⟨_, passesFirst.trans passesOthers⟩

theorem ReadsAll.passes (h : ReadsAll cursor ts pos) : ∃ front, Passes cursor.rest front [] := by
  induction h with
  | @stop cursor pos step =>
    have gap := passes_gap cursor.rest
    rw [(step_eq_stop_iff.mp step).1] at gap
    exact ⟨_, gap⟩
  | token step _ _ ih =>
    obtain ⟨first, passesFirst⟩ := passes_step step
    obtain ⟨others, passesOthers⟩ := ih
    exact ⟨_, passesFirst.trans passesOthers⟩

theorem passes_of_ok {stream : Stream} (read : Stream.ofText source line = .ok stream) :
    Passes source.toList source.toList [] := by
  obtain ⟨front, passes⟩ := (readAll_eq_ok_iff.mp read).passes
  have whole := passes.append
  rw [List.append_nil] at whole
  rwa [whole] at passes

theorem passes_of_unterminatedComment (read : Stream.ofText source line = .error (.unterminatedComment, pos)) :
    ∃ front rest, Passes source.toList front ('/' :: '*' :: rest) ∧ Gap.closeComment? rest = none ∧
      pos = .behind line front := by
  obtain ⟨limit, stops⟩ := exists_take_of_readAll read
  obtain ⟨stopped, run, rests⟩ := runs_take limit ⟨source.toList, ⟨line, 1⟩⟩
  rw [stops] at rests
  cases rests with
  | fault step =>
    obtain ⟨gap, bad, found, isAt, rfl⟩ := fault_of_step step
    cases isAt with
    | @unterminatedComment rest unclosed =>
      obtain ⟨front, whole, -, placed⟩ := run.covers .nil (Pos.after_eq_behind line [])
      obtain ⟨front', passes⟩ := run.passes
      obtain rfl : front' = front := List.append_cancel_right (passes.append.trans whole)
      have passesGap := passes_gap stopped.rest
      rw [found] at passesGap
      refine ⟨front' ++ gap, rest, passes.trans passesGap, Gap.closeComment?_eq_none_iff.mpr unclosed, ?_⟩
      rw [placed, Pos.after_behind, List.nil_append]

end Readings

end Token

end MacroLift
