import MacroLift.Proofs.Text.Span
import MacroLift.Proofs.Token.Position

namespace MacroLift

open Lexeme

/-- A text that no token in front of it runs on into. -/
def Gap.StartsBlank (text : List Char) : Prop :=
  ∀ c ∈ text.head?, isBlank c = true

variable {text rest after follow run : List Char} {c d : Char} {hex : Bool} {l : Lexeme}

theorem Gap.isBlank_iff : isBlank c = true ↔
    c = ' ' ∨ c = '\t' ∨ c = '\n' ∨ c = '\r' ∨ c = '\x0c' ∨ c = '\x0b' := by
  simp [isBlank, or_assoc]

theorem Gap.StartsBlank.head_false {p : Char → Bool} (h : StartsBlank follow)
    (noBlank : ∀ c, isBlank c = true → p c = false) : ∀ c ∈ follow.head?, p c = false :=
  fun c head => noBlank c (h c head)

theorem not_isNameChar_of_isBlank (h : Gap.isBlank c = true) : isNameChar c = false := by
  rcases Gap.isBlank_iff.mp h with rfl | rfl | rfl | rfl | rfl | rfl <;> decide

theorem not_isNumberChar_of_isBlank (h : Gap.isBlank c = true) : isNumberChar c = false := by
  rcases Gap.isBlank_iff.mp h with rfl | rfl | rfl | rfl | rfl | rfl <;> decide

theorem not_isDigitChar_of_isBlank (h : Gap.isBlank c = true) : Text.isDigitChar c = false := by
  rcases Gap.isBlank_iff.mp h with rfl | rfl | rfl | rfl | rfl | rfl <;> decide

theorem not_isSign_of_isBlank (h : Gap.isBlank c = true) : isSign c = false := by
  rcases Gap.isBlank_iff.mp h with rfl | rfl | rfl | rfl | rfl | rfl <;> decide

theorem Punct.not_mem_of_isBlank (h : Gap.isBlank c = true) (p : Punct) : c ∉ p.chars := by
  rcases Gap.isBlank_iff.mp h with rfl | rfl | rfl | rfl | rfl | rfl <;> (cases p <;> decide)

theorem not_mem_comment_of_isBlank (h : Gap.isBlank c = true) : c ∉ ['/', '*'] := by
  rcases Gap.isBlank_iff.mp h with rfl | rfl | rfl | rfl | rfl | rfl <;> decide

theorem isNameChar_of_isNameStart (h : isNameStart c = true) : isNameChar c = true := by
  simp only [isNameStart, isNameChar, Char.isAlphanum, Bool.or_eq_true] at h ⊢
  exact h.imp_left .inl

theorem scanned_word (start : isNameStart c = true) (blank : Gap.StartsBlank follow) :
    Scanned ((c :: rest).takeWhile isNameChar ++ follow) (.ofWord (String.ofList ((c :: rest).takeWhile isNameChar)))
      follow := by
  have inside : ∀ d ∈ (c :: rest).takeWhile isNameChar, isNameChar d = true :=
    fun d member => List.all_eq_true.mp (List.all_takeWhile ..) d member
  have outside := blank.head_false fun _ => not_isNameChar_of_isBlank
  have taken := Text.takeWhile_run inside outside
  have left := Text.dropWhile_run inside outside
  rw [List.takeWhile_cons_of_pos (isNameChar_of_isNameStart start)] at taken left ⊢
  have scanned := @Scanned.word c (rest.takeWhile isNameChar ++ follow) start
  rwa [← List.cons_append, taken, left] at scanned

def Stalls (text : List Char) : Prop :=
  ∃ c ∈ text.head?, Text.isDigitChar c = true ∧ isNumberChar c = false

def takesSign (hex : Bool) (c d : Char) : Bool :=
  !hex && isExponentMark c && isSign d

theorem splitNumber_outside (outside : isNumberChar c = false) : splitNumber hex (c :: rest) = ([], c :: rest) := by
  cases rest <;> simp [splitNumber, outside]

theorem splitNumber_inside (inside : isNumberChar c = true) (noSign : ∀ d ∈ rest.head?, takesSign hex c d = false) :
    splitNumber hex (c :: rest) = consume [c] (splitNumber hex rest) := by
  cases rest with
  | nil => simp [splitNumber, inside, consume]
  | cons d rest =>
    have noSign : (!hex && isExponentMark c && isSign d) = false := noSign d rfl
    rw [splitNumber, if_pos inside, noSign]
    rfl

theorem splitNumber_sign (inside : isNumberChar c = true) (sign : takesSign hex c d = true) :
    splitNumber hex (c :: d :: rest) = consume [c, d] (splitNumber hex rest) := by
  have sign : (!hex && isExponentMark c && isSign d) = true := sign
  rw [splitNumber, if_pos inside, if_pos sign]

theorem splitNumber_front (hex : Bool) (c : Char) (rest : List Char) :
    (isNumberChar c = false ∧ splitNumber hex (c :: rest) = ([], c :: rest)) ∨
      isNumberChar c = true ∧ ∃ more, (splitNumber hex (c :: rest)).1 = c :: more := by
  cases inside : isNumberChar c with
  | false => exact .inl ⟨rfl, splitNumber_outside inside⟩
  | true =>
    refine .inr ⟨rfl, ?_⟩
    by_cases unsigned : ∀ d ∈ rest.head?, takesSign hex c d = false
    · exact ⟨_, by rw [splitNumber_inside inside unsigned]; rfl⟩
    · cases rest with
      | nil => exact absurd nofun unsigned
      | cons d rest =>
        have sign : takesSign hex c d = true := by simpa using unsigned
        exact ⟨_, by rw [splitNumber_sign inside sign]; rfl⟩

theorem splitNumber_stops (hex : Bool) (text : List Char) :
    ∀ c ∈ (splitNumber hex text).2.head?, isNumberChar c = false := by
  fun_induction splitNumber hex text with
  | case1 | case2 => simp
  | case3 c outside | case6 c d rest outside => simpa using outside
  | case4 c d rest inside sign ih | case5 c d rest inside unsigned ih => exact ih

theorem splitNumber_again (hex : Bool) (text : List Char) (blank : Gap.StartsBlank follow) :
    splitNumber hex ((splitNumber hex text).1 ++ follow) = ((splitNumber hex text).1, follow) := by
  have ended : splitNumber hex follow = ([], follow) := by
    cases follow with
    | nil => rfl
    | cons b more => exact splitNumber_outside (not_isNumberChar_of_isBlank (blank b rfl))
  have noSign (c : Char) : ∀ d ∈ follow.head?, takesSign hex c d = false := by
    intro d head
    simp [takesSign, not_isSign_of_isBlank (blank d head)]
  fun_induction splitNumber hex text with
  | case1 => exact ended
  | case2 c inside =>
    rw [List.singleton_append, splitNumber_inside inside (noSign c), ended]
    rfl
  | case3 c outside => exact ended
  | case4 c d rest inside sign ih =>
    rw [consume, List.append_assoc]
    simp only [List.cons_append, List.nil_append]
    rw [splitNumber_sign inside sign, ih]
    rfl
  | case5 c d rest inside unsigned ih =>
    have unsigned' : ∀ e ∈ ((splitNumber hex (d :: rest)).1 ++ follow).head?, takesSign hex c e = false := by
      obtain ⟨-, empty⟩ | ⟨-, more, found⟩ := splitNumber_front hex d rest
      · rw [empty]
        exact noSign c
      · rw [found]
        rintro _ ⟨⟩
        exact Bool.eq_false_iff.mpr unsigned
    rw [consume, List.append_assoc]
    simp only [List.cons_append, List.nil_append]
    rw [splitNumber_inside inside unsigned', ih]
    rfl
  | case6 c d rest outside => exact ended

theorem isHexNumber_iff : isHexNumber text = true ↔
    ∃ mark rest, (mark = 'x' ∨ mark = 'X') ∧ text = '0' :: mark :: rest := by
  constructor
  · intro h
    unfold isHexNumber at h
    split at h
    · exact ⟨_, _, .inl rfl, rfl⟩
    · exact ⟨_, _, .inr rfl, rfl⟩
    · cases h
  · rintro ⟨_, rest, rfl | rfl, rfl⟩ <;> rfl

theorem isHexNumber_append (number : List Char) (outside : ∀ c ∈ rest.head?, isNumberChar c = false) :
    isHexNumber (number ++ rest) = isHexNumber number := by
  rw [Bool.eq_iff_iff, isHexNumber_iff, isHexNumber_iff]
  constructor
  · rintro ⟨mark, more, isMark, same⟩
    match number with
    | [] =>
      subst same
      cases outside '0' rfl
    | [c] =>
      cases same
      have noMark := outside mark rfl
      rcases isMark with rfl | rfl <;> cases noMark
    | c :: d :: number =>
      cases same
      exact ⟨mark, number, isMark, rfl⟩
  · rintro ⟨mark, more, isMark, rfl⟩
    exact ⟨mark, more ++ rest, isMark, rfl⟩

theorem isHexNumber_again (hex : Bool) (text : List Char) (blank : Gap.StartsBlank follow) :
    isHexNumber ((splitNumber hex text).1 ++ follow) = isHexNumber text := by
  have outside := blank.head_false fun _ => not_isNumberChar_of_isBlank
  rw [isHexNumber_append _ outside, ← isHexNumber_append _ (splitNumber_stops hex text), splitNumber_append]

theorem startsNumber_again (follow : List Char) (h : startsNumber text = true)
    (noStall : ¬ Stalls (splitNumber (isHexNumber text) text).2) :
    startsNumber ((splitNumber (isHexNumber text) text).1 ++ follow) = true := by
  obtain ⟨c, rest, isDigit, rfl | rfl⟩ := startsNumber_iff.mp h
  · obtain ⟨outside, empty⟩ | ⟨-, more, found⟩ := splitNumber_front (isHexNumber (c :: rest)) c rest
    · rw [empty] at noStall
      exact absurd ⟨c, rfl, isDigit, outside⟩ noStall
    · rw [found]
      exact startsNumber_iff.mpr ⟨c, more ++ follow, isDigit, .inl rfl⟩
  · have decimal : isHexNumber ('.' :: c :: rest) = false := rfl
    have point : splitNumber false ('.' :: c :: rest) = consume ['.'] (splitNumber false (c :: rest)) :=
      splitNumber_inside rfl fun _ _ => rfl
    rw [decimal, point] at noStall ⊢
    obtain ⟨outside, empty⟩ | ⟨-, more, found⟩ := splitNumber_front false c rest
    · rw [empty] at noStall
      exact absurd ⟨c, rfl, isDigit, outside⟩ noStall
    · rw [consume, found]
      exact startsNumber_iff.mpr ⟨c, more ++ follow, isDigit, .inr rfl⟩

theorem scanned_number (start : startsNumber text = true)
    (noStall : ¬ Stalls (splitNumber (isHexNumber text) text).2) (blank : Gap.StartsBlank follow) :
    Scanned ((splitNumber (isHexNumber text) text).1 ++ follow)
      (.number (String.ofList (splitNumber (isHexNumber text) text).1)) follow := by
  have scanned := Scanned.number (startsNumber_again follow start noStall)
  rwa [isHexNumber_again _ _ blank, splitNumber_again _ _ blank] at scanned

theorem splitQuoted?_again {quote : Char} {body : List Char} (closed : splitQuoted? quote text = some (body, after))
    (follow : List Char) : splitQuoted? quote (body ++ follow) = some (body, follow) := by
  fun_induction splitQuoted? quote text generalizing body after with
  | case1 | case3 | case4 => cases closed
  | case2 =>
    cases closed
    rw [List.singleton_append, splitQuoted?.eq_def]
    simp
  | case5 d rest noQuote noNewline ih =>
    obtain ⟨⟨body', after'⟩, found, same⟩ := Option.map_eq_some_iff.mp closed
    cases same
    have again := ih found
    simp only [List.cons_append, List.nil_append]
    rw [splitQuoted?.eq_def]
    simp only [noQuote, noNewline, if_false, if_true, again]
    rfl
  | case6 c rest noQuote noNewline noBackslash ih =>
    obtain ⟨⟨body', after'⟩, found, same⟩ := Option.map_eq_some_iff.mp closed
    cases same
    have again := ih found
    simp only [List.cons_append, List.nil_append]
    rw [splitQuoted?.eq_def]
    simp only [noQuote, noNewline, noBackslash, if_false, again]
    rfl

theorem prefix_append_iff {word front : List Char} (blank : Gap.StartsBlank follow)
    (noBlank : ∀ c, Gap.isBlank c = true → c ∉ word) : word <+: front ++ follow ↔ word <+: front := by
  refine ⟨fun h => ?_, fun h => h.trans (List.prefix_append _ _)⟩
  obtain inside | ⟨beyond, rfl⟩ := List.prefix_or_prefix_of_prefix h (List.prefix_append front follow)
  · exact inside
  · obtain ⟨behind, same⟩ := (List.prefix_append_right_inj front).mp h
    cases beyond with
    | nil => simp
    | cons c beyond =>
      subst same
      exact absurd (by simp) (noBlank c (blank c rfl))

theorem Punct.not_startsNumber (p : Punct) (blank : Gap.StartsBlank follow) :
    startsNumber (p.chars ++ follow) = false := by
  rw [Bool.eq_false_iff, ne_eq, startsNumber_iff]
  rintro ⟨c, rest, isDigit, same | same⟩
  · cases p <;> (cases same; cases isDigit)
  · cases p <;> cases same
    case inr.ellipsis.refl => cases isDigit
    case inr.dot.refl =>
      have noDigit := not_isDigitChar_of_isBlank (blank c rfl)
      cases noDigit.symm.trans isDigit

theorem scanned_punct (p : Punct) (blank : Gap.StartsBlank follow) :
    Scanned (p.chars ++ follow) (.punct p) follow := by
  have noComment : ¬ ['/', '*'] <+: p.chars ++ follow := by
    rw [prefix_append_iff blank fun c => not_mem_comment_of_isBlank]
    cases p <;> decide
  have found : Punct.ofText? (p.chars ++ follow) = some p := by
    have same (q : Punct) : q.chars.isPrefixOf (p.chars ++ follow) = q.chars.isPrefixOf p.chars := by
      rw [Bool.eq_iff_iff, List.isPrefixOf_iff_prefix, List.isPrefixOf_iff_prefix]
      exact prefix_append_iff blank fun c isBlank => Punct.not_mem_of_isBlank isBlank q
    simp only [Punct.ofText?, same]
    exact p.ofText?_chars
  have scanned := Scanned.punct (p.not_startsNumber blank) noComment found
  rwa [List.drop_left] at scanned

/-- A token that does not come to nothing is the same token in front of a blank or the end, whatever stood behind it
    before. -/
theorem Lexeme.Scanned.again (h : Scanned text l after) (noStall : ¬ Stalls after) (blank : Gap.StartsBlank follow) :
    Scanned (l.text.toList ++ follow) l follow := by
  cases h with
  | word start => simpa using scanned_word start blank
  | number start => simpa [Lexeme.text] using scanned_number start noStall blank
  | string closed => simpa [Lexeme.text] using Scanned.string (splitQuoted?_again closed follow)
  | character closed => simpa [Lexeme.text] using Scanned.character (splitQuoted?_again closed follow)
  | @punct _ p => simpa [Lexeme.text, Punct.spelling] using scanned_punct p blank

theorem Gap.startsBare_plain (notBlank : isBlank c = false) (notBackslash : c ≠ '\\') (notSlash : c ≠ '/') :
    StartsBare (c :: rest) :=
  startsBare_cons notBlank notBackslash fun slash => absurd slash notSlash

theorem Punct.startsBare (p : Punct) (blank : Gap.StartsBlank follow) : Gap.StartsBare (p.chars ++ follow) := by
  cases p
  case slash =>
    refine Gap.startsBare_cons rfl (by decide) fun _ => ?_
    constructor <;> (intro head; cases blank _ head)
  case slashAssign => exact Gap.startsBare_cons rfl (by decide) fun _ => by simp
  all_goals exact Gap.startsBare_plain rfl (by decide) (by decide)

theorem startsBare_of_isNameStart (start : isNameStart c = true) : Gap.StartsBare (c :: rest) := by
  have notBlank : Gap.isBlank c = false := by
    rw [Bool.eq_false_iff]
    intro isBlank
    cases (not_isNameChar_of_isBlank isBlank).symm.trans (isNameChar_of_isNameStart start)
  exact Gap.startsBare_plain notBlank (by rintro rfl; cases start) (by rintro rfl; cases start)

theorem startsBare_of_startsNumber (start : startsNumber text = true) : Gap.StartsBare text := by
  obtain ⟨c, rest, isDigit, rfl | rfl⟩ := startsNumber_iff.mp start
  · have notBlank : Gap.isBlank c = false := by
      rw [Bool.eq_false_iff]
      intro isBlank
      cases (not_isDigitChar_of_isBlank isBlank).symm.trans isDigit
    exact Gap.startsBare_plain notBlank (by rintro rfl; cases isDigit) (by rintro rfl; cases isDigit)
  · exact Gap.startsBare_plain rfl (by decide) (by decide)

theorem Lexeme.Scanned.startsBare (h : Scanned text l after) (blank : Gap.StartsBlank after) :
    Gap.StartsBare text := by
  cases h with
  | word start => exact startsBare_of_isNameStart start
  | number start => exact startsBare_of_startsNumber start
  | string | character => exact Gap.startsBare_plain rfl (by decide) (by decide)
  | @punct _ p _ _ found =>
    obtain ⟨behind, rfl⟩ := Punct.ofText?_eq_some found
    rw [List.drop_left] at blank
    exact p.startsBare blank

theorem Stalls.scanned (h : Stalls text) : Scanned text (.number "") text := by
  obtain ⟨c, head, isDigit, outside⟩ := h
  obtain ⟨rest, rfl⟩ : ∃ rest, text = c :: rest := List.head?_eq_some_iff.mp head
  have scanned := Scanned.number (startsNumber_iff.mpr ⟨c, rest, isDigit, .inl rfl⟩)
  rwa [splitNumber_outside outside] at scanned

theorem Stalls.startsBare (h : Stalls text) : Gap.StartsBare text := by
  obtain ⟨c, head, isDigit, -⟩ := h
  obtain ⟨rest, rfl⟩ : ∃ rest, text = c :: rest := List.head?_eq_some_iff.mp head
  exact startsBare_of_startsNumber (startsNumber_iff.mpr ⟨c, rest, isDigit, .inl rfl⟩)

/-- Lexemes with gaps behind them. A gap that is not empty opens with a blank, and only behind the last lexeme is it
    left out. -/
inductive Respaced : List Lexeme → List Char → Prop where
  | nil : Respaced [] []
  | cons {l : Lexeme} {ls : List Lexeme} {gap text : List Char} (isGap : Gap.IsGap false gap)
      (blank : Gap.StartsBlank gap) (apart : ls ≠ [] → gap ≠ []) (rest : Respaced ls text) :
      Respaced (l :: ls) (l.text.toList ++ (gap ++ text))

theorem Respaced.startsBlank {ls : List Lexeme} {gap : List Char} (h : Respaced ls text) (blank : Gap.StartsBlank gap)
    (apart : ls ≠ [] → gap ≠ []) : Gap.StartsBlank (gap ++ text) := by
  cases gap with
  | nil =>
    cases h with
    | nil => nofun
    | cons => exact absurd rfl (apart (List.cons_ne_nil _ _))
  | cons c gap => exact blank

def Lexeme.StandsAlone (l : Lexeme) : Prop :=
  ∀ ⦃follow⦄, Gap.StartsBlank follow → Scanned (l.text.toList ++ follow) l follow

theorem Lexeme.StandsAlone.ne_nil (h : l.StandsAlone) : l.text.toList ≠ [] := by
  have scanned := (h (nofun : Gap.StartsBlank [])).ne_nil
  rwa [List.append_nil] at scanned

namespace Token

variable {cursor : Cursor} {ts : List Token} {stop : Pos}

theorem step_of_stalls {gap : List Char} (found : Gap.split cursor.rest = (gap, text)) (stalls : Stalls text) :
    cursor.step = .token ⟨.number "", cursor.pos.after gap⟩ ⟨text, cursor.pos.after gap⟩ :=
  step_eq_token_iff.mpr ⟨gap, text, found, stalls.scanned, rfl, rfl⟩

theorem ReadsAll.not_stalls (h : ReadsAll cursor ts stop) : ¬ Stalls cursor.rest := by
  intro stalls
  have step := step_of_stalls stalls.startsBare stalls
  cases h with
  | stop ended => cases ended.symm.trans step
  | token read shorter =>
    cases read.symm.trans step
    exact absurd shorter (Nat.lt_irrefl _)

theorem ReadsAll.standsAlone (h : ReadsAll cursor ts stop) : ∀ t ∈ ts, t.lexeme.StandsAlone := by
  induction h with
  | stop => nofun
  | token step _ rest ih =>
    obtain ⟨gap, after, -, scanned, -, rfl⟩ := step_eq_token_iff.mp step
    refine List.forall_mem_cons.mpr ⟨fun follow blank => ?_, ih⟩
    exact scanned.again rest.not_stalls blank

theorem readsAll_of_respaced {ls : List Lexeme} {gap spaced : List Char} (respaced : Respaced ls spaced)
    (alone : ∀ l ∈ ls, l.StandsAlone) (isGap : Gap.IsGap false gap) (pos : Pos) :
    ∃ ts stop, ReadsAll ⟨gap ++ spaced, pos⟩ ts stop ∧ ts.map Token.lexeme = ls := by
  induction respaced generalizing gap pos with
  | nil =>
    have found : Gap.split (gap ++ []) = (gap, []) := isGap.split_bare Gap.startsBare_nil
    exact ⟨[], _, .stop (step_eq_stop_iff.mpr ⟨congrArg Prod.snd found, rfl⟩), rfl⟩
  | @cons l ls behind text isGap' blank apart rest ih =>
    obtain ⟨single, others⟩ := List.forall_mem_cons.mp alone
    have blank' : Gap.StartsBlank (behind ++ text) := rest.startsBlank blank apart
    have scanned := single blank'
    have found := isGap.split_bare (scanned.startsBare blank')
    have step : Cursor.step ⟨gap ++ (l.text.toList ++ (behind ++ text)), pos⟩ =
        .token ⟨l, pos.after gap⟩ ⟨behind ++ text, (pos.after gap).after l.text.toList⟩ :=
      step_eq_token_iff.mpr ⟨gap, behind ++ text, found, scanned, rfl, rfl⟩
    obtain ⟨ts, stop, read, same⟩ := ih others isGap' ((pos.after gap).after l.text.toList)
    have shorter := List.length_pos_iff.mpr single.ne_nil
    refine ⟨_ :: ts, stop, .token step ?_ read, congrArg (List.cons l) same⟩
    simp only [List.length_append]
    omega

/-- Other gaps make no other tokens. The tokens of a text that is read to the end are the tokens of every text that
    holds them in turn with gaps between them that open with a blank, a gap before the first and one behind the last. -/
theorem respaced_tokens {text : String} {line : Int} {stream : Stream} {gap spaced : List Char}
    (read : Stream.ofText text line = .ok stream) (isGap : Gap.IsGap false gap)
    (respaced : Respaced (stream.tokens.map Token.lexeme) spaced) (firstLine : Int) :
    ∃ stream', Stream.ofText (String.ofList (gap ++ spaced)) firstLine = .ok stream' ∧
      stream'.tokens.map Token.lexeme = stream.tokens.map Token.lexeme := by
  have alone : ∀ l ∈ stream.tokens.map Token.lexeme, l.StandsAlone := by
    rw [List.forall_mem_map]
    exact (readAll_eq_ok_iff.mp read).standsAlone
  obtain ⟨ts, stop, reads, same⟩ := readsAll_of_respaced respaced alone isGap ⟨firstLine, 1⟩
  refine ⟨⟨ts, stop⟩, ?_, same⟩
  rw [Stream.ofText, String.toList_ofList]
  exact readAll_eq_ok_iff.mpr reads

theorem respaced_tokens_sum : ∃ stream, Stream.ofText "a /* + */+\n b" 1 = .ok stream ∧
    stream.tokens.map Token.lexeme = [.name "a", .punct .plus, .name "b"] := by
  have read : Stream.ofText "a+b" 1 =
      .ok ⟨[⟨.name "a", ⟨1, 1⟩⟩, ⟨.punct .plus, ⟨1, 2⟩⟩, ⟨.name "b", ⟨1, 3⟩⟩], ⟨1, 4⟩⟩ := by
    decide +kernel
  have comment : Gap.IsGap false " /* + */".toList :=
    .blank rfl (@Gap.IsGap.blockComment false " + ".toList [] (by decide) .nil)
  have newLine : Gap.IsGap false "\n ".toList := .blank rfl (.blank rfl .nil)
  have respaced : Respaced [.name "a", .punct .plus, .name "b"] "a /* + */+\n b".toList :=
    .cons comment (by rintro _ ⟨⟩; rfl) (by simp) (.cons newLine (by rintro _ ⟨⟩; rfl) (by simp)
      (.cons .nil nofun (by simp) .nil))
  exact respaced_tokens read .nil respaced 1

end Token

end MacroLift
