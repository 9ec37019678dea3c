import MacroLift.Proofs.Grammar.Productions.Statement

namespace MacroLift.Parser

variable {α β : Type} {setting : Setting} {ts us rest : List Token} {least size : Nat}

/-- Two parsers give one reply, and if they read, they take at least so many tokens from the front. -/
structure Concur (setting : Setting) (ts : List Token) (least : Nat) (p q : Parser α) : Prop where
  same : p setting ts = q setting ts
  leaves {a : α} {rest : List Token} : Parses p setting ts a rest → rest <:+ ts ∧ rest.length + least ≤ ts.length

structure ConcurRound (setting : Setting) (ts : List Token) (round round' : Parser (Option α)) : Prop where
  same : round setting ts = round' setting ts
  takes {a : α} {rest : List Token} : Parses round setting ts (some a) rest → rest <:+ ts ∧ rest.length < ts.length
  declines {rest : List Token} : Parses round setting ts none rest → rest = ts

theorem leaves_append {used : List Token} (h : least ≤ used.length) :
    rest <:+ used ++ rest ∧ rest.length + least ≤ (used ++ rest).length := by
  refine ⟨List.suffix_append used rest, ?_⟩
  rw [List.length_append]
  omega

theorem leaves_cons (t : Token) (leaves : rest <:+ ts ∧ rest.length + least ≤ ts.length) :
    rest <:+ t :: ts ∧ rest.length < (t :: ts).length := by
  refine ⟨leaves.1.trans (List.suffix_cons t ts), ?_⟩
  rw [List.length_cons]
  omega

section

variable {p q r s : Parser α} {f g : α → Parser β}

theorem Concur.weaken (h : Concur setting ts least p q) : Concur setting ts 0 p q :=
  ⟨h.same, fun read => ⟨(h.leaves read).1, Nat.le_of_add_right_le (h.leaves read).2⟩⟩

theorem Concur.length_le (h : Concur setting ts least p q) {a : α} (read : Parses p setting ts a rest) :
    rest.length ≤ ts.length :=
  (h.leaves read).1.length_le

theorem concur_stay (stays : ∀ a rest, Parses p setting ts a rest → ts = rest) : Concur setting ts 0 p p := by
  refine ⟨rfl, fun read => ?_⟩
  rw [← stays _ _ read]
  exact ⟨List.suffix_rfl, Nat.le_refl _⟩

theorem concur_pure (a : α) : Concur setting ts 0 (pure a) (pure a) :=
  concur_stay fun _ _ read => (parses_pure.mp read).2

theorem concur_mismatch (cause : Cause) : Concur setting ts least (mismatch cause : Parser α) (mismatch cause) :=
  ⟨rfl, fun read => absurd read parses_mismatch⟩

theorem concur_failAt (cause : Cause) (pos : Pos) :
    Concur setting ts least (failAt cause pos : Parser α) (failAt cause pos) :=
  ⟨rfl, fun read => absurd read parses_failAt⟩

theorem bind_same {f g : α → Parser β}
    (next : ∀ a rest, Parses p setting ts a rest → f a setting rest = g a setting rest) :
    (p >>= f) setting ts = (p >>= g) setting ts := by
  change Parser.bind p f setting ts = Parser.bind p g setting ts
  unfold Parser.bind
  cases reply : p setting ts with | mk outcome met =>
  cases outcome with
  | error => rfl
  | ok found =>
    have read : Parses p setting ts found.1 found.2 := congrArg Reply.outcome reply
    simp only [next _ _ read]

theorem Concur.bind (first : Concur setting ts 0 p q)
    (second : ∀ a rest, Parses p setting ts a rest → rest.length ≤ ts.length → Concur setting rest least (f a) (g a)) :
    Concur setting ts least (p >>= f) (q >>= g) where
  same := by
    have next : (p >>= f) setting ts = (p >>= g) setting ts :=
      bind_same fun a rest read => (second a rest read (first.length_le read)).same
    rw [next]
    change Parser.bind p g setting ts = Parser.bind q g setting ts
    unfold Parser.bind
    rw [first.same]
  leaves read := by
    obtain ⟨a, mid, read, read'⟩ := parses_bind.mp read
    obtain ⟨inside, shorter⟩ := first.leaves read
    obtain ⟨inside', shorter'⟩ := (second a mid read (first.length_le read)).leaves read'
    exact ⟨inside'.trans inside, by omega⟩

theorem Concur.bindShorter (first : Concur setting ts 1 p q)
    (second : ∀ a rest, Parses p setting ts a rest → rest.length < ts.length → Concur setting rest 0 (f a) (g a)) :
    Concur setting ts 1 (p >>= f) (q >>= g) := by
  have both : Concur setting ts 0 (p >>= f) (q >>= g) :=
    first.weaken.bind fun a rest read _ => second a rest read (first.leaves read).2
  refine ⟨both.same, fun read => ⟨(both.leaves read).1, ?_⟩⟩
  obtain ⟨a, mid, read, read'⟩ := parses_bind.mp read
  have shorter := (first.leaves read).2
  have shorter' := (second a mid read shorter).length_le read'
  omega

theorem Concur.build (first : Concur setting ts 1 p q) (f : α → β) :
    Concur setting ts 1 (p >>= fun a => pure (f a)) (q >>= fun a => pure (f a)) :=
  first.bindShorter fun a _ _ _ => concur_pure (f a)

theorem Concur.ite (test : Prop) [Decidable test] (whenTrue : Concur setting ts least p q)
    (whenFalse : Concur setting ts least r s) :
    Concur setting ts least (if test then p else r) (if test then q else s) := by
  split
  · exact whenTrue
  · exact whenFalse

theorem Concur.attempt {next : Option α → Parser β} {next' : Option α → Parser β}
    (tried : Concur setting ts least p q)
    (found : ∀ a rest, Parses p setting ts a rest → Concur setting rest 0 (next (some a)) (next' (some a)))
    (given : Concur setting ts least (next none) (next' none)) :
    Concur setting ts least (Parser.attempt p >>= next) (Parser.attempt q >>= next') := by
  have first : Concur setting ts 0 (Parser.attempt p) (Parser.attempt q) := by
    refine ⟨?_, fun {a _} read => ?_⟩
    · unfold Parser.attempt
      rw [tried.same]
    · cases a with
      | some => exact tried.weaken.leaves (parses_attempt_some.mp read)
      | none =>
        obtain ⟨rfl, -⟩ := parses_attempt_none.mp read
        exact ⟨List.suffix_rfl, Nat.le_refl _⟩
  -- what was given up has left the tokens as they were
  have both : Concur setting ts 0 (Parser.attempt p >>= next) (Parser.attempt q >>= next') := by
    refine first.bind fun a rest read _ => ?_
    cases a with
    | some a => exact found a rest (parses_attempt_some.mp read)
    | none =>
      obtain ⟨rfl, -⟩ := parses_attempt_none.mp read
      exact given.weaken
  refine ⟨both.same, fun read => ⟨(both.leaves read).1, ?_⟩⟩
  obtain ⟨a, mid, read, read'⟩ := parses_bind.mp read
  cases a with
  | some a =>
    have shorter := (tried.leaves (parses_attempt_some.mp read)).2
    have shorter' := (found a mid (parses_attempt_some.mp read)).length_le read'
    omega
  | none =>
    obtain ⟨rfl, -⟩ := parses_attempt_none.mp read
    exact (given.leaves read').2

end

theorem concur_peek {f g : Option Lexeme → Parser β}
    (behind : Concur setting ts least (f (ahead ts none)) (g (ahead ts none))) :
    Concur setting ts least (peek >>= f) (peek >>= g) := by
  have first : Concur setting ts 0 peek peek := concur_stay fun _ _ read => (parses_peek.mp read).2
  refine first.bind fun next rest read _ => ?_
  obtain ⟨rfl, rfl⟩ := parses_peek.mp read
  exact behind

theorem concur_place {f g : Pos → Parser β}
    (behind : Concur setting ts least (f (placeOf setting ts)) (g (placeOf setting ts))) :
    Concur setting ts least (place >>= f) (place >>= g) := by
  have first : Concur setting ts 0 place place := concur_stay fun _ _ read => (parses_place.mp read).2
  refine first.bind fun next rest read _ => ?_
  obtain ⟨rfl, rfl⟩ := parses_place.mp read
  exact behind

theorem concur_skip {f g : Unit → Parser β} (behind : Concur setting ts.tail least (f ()) (g ())) :
    Concur setting ts least (skip >>= f) (skip >>= g) := by
  have first : Concur setting ts 0 skip skip := by
    refine ⟨rfl, fun read => ?_⟩
    obtain rfl := parses_skip.mp read
    exact ⟨ts.tail_suffix, ts.tail_suffix.length_le⟩
  refine first.bind fun next rest read _ => ?_
  obtain rfl := parses_skip.mp read
  exact behind

theorem concur_skipToken {t : Token} {f g : Unit → Parser β} (behind : Concur setting ts 0 (f ()) (g ())) :
    Concur setting (t :: ts) 1 (skip >>= f) (skip >>= g) := by
  refine ⟨(concur_skip behind).same, fun read => ?_⟩
  rw [parses_skip_bind, List.tail_cons] at read
  exact ⟨(behind.leaves read).1.trans (List.suffix_cons t ts), Nat.succ_le_succ (behind.length_le read)⟩

theorem concur_accept (lexeme : Lexeme) : Concur setting ts 0 (accept lexeme) (accept lexeme) := by
  refine ⟨rfl, fun read => ?_⟩
  rcases parses_accept.mp read with ⟨-, pos, rfl⟩ | ⟨-, rfl, -⟩
  · exact ⟨List.suffix_cons _ _, Nat.le_succ _⟩
  · exact ⟨List.suffix_rfl, Nat.le_refl _⟩

theorem concur_ifAccept {lexeme : Lexeme} {f g : Bool → Parser β}
    (found : ∀ pos rest, ts = ⟨lexeme, pos⟩ :: rest → Concur setting rest (least - 1) (f true) (g true))
    (none : Concur setting ts least (f false) (g false)) :
    Concur setting ts least (accept lexeme >>= f) (accept lexeme >>= g) := by
  have both : Concur setting ts 0 (accept lexeme >>= f) (accept lexeme >>= g) := by
    refine (concur_accept lexeme).bind fun taken rest read _ => ?_
    rcases parses_accept.mp read with ⟨rfl, pos, rfl⟩ | ⟨rfl, rfl, -⟩
    · exact (found pos rest rfl).weaken
    · exact none.weaken
  refine ⟨both.same, fun read => ⟨(both.leaves read).1, ?_⟩⟩
  obtain ⟨taken, mid, read, read'⟩ := parses_bind.mp read
  rcases parses_accept.mp read with ⟨rfl, pos, rfl⟩ | ⟨rfl, rfl, -⟩
  · have shorter := ((found pos mid rfl).leaves read').2
    rw [List.length_cons]
    omega
  · exact (none.leaves read').2

theorem concur_ifAcceptAs {meaning? : Lexeme → Option α} {f g : Option α → Parser β}
    (found : ∀ a t rest, ts = t :: rest → Concur setting rest 0 (f (some a)) (g (some a)))
    (none : Concur setting ts 0 (f none) (g none)) :
    Concur setting ts 0 (acceptAs meaning? >>= f) (acceptAs meaning? >>= g) := by
  have first : Concur setting ts 0 (acceptAs meaning?) (acceptAs meaning?) := by
    refine ⟨rfl, fun read => ?_⟩
    rcases parses_acceptAs.mp read with ⟨_, t, -, rfl, -⟩ | ⟨-, rfl, -⟩
    · exact ⟨List.suffix_cons _ _, Nat.le_succ _⟩
    · exact ⟨List.suffix_rfl, Nat.le_refl _⟩
  refine first.bind fun taken rest read _ => ?_
  rcases parses_acceptAs.mp read with ⟨a, t, rfl, rfl, -⟩ | ⟨rfl, rfl, -⟩
  · exact found a t rest rfl
  · exact none

theorem concur_expect (lexeme : Lexeme) (description : String) :
    Concur setting ts 1 (expect lexeme description) (expect lexeme description) := by
  refine ⟨rfl, fun read => ?_⟩
  obtain ⟨pos, rfl⟩ := parses_expect.mp read
  exact ⟨List.suffix_cons _ _, Nat.le_refl _⟩

theorem concur_close (lexeme : Lexeme) (description : String) (a : α) :
    Concur setting ts 0 (expect lexeme description >>= fun _ => pure a)
      (expect lexeme description >>= fun _ => pure a) :=
  ((concur_expect lexeme description).build fun _ => a).weaken

theorem concur_expectAs (meaning? : Lexeme → Option α) (description : String) :
    Concur setting ts 1 (expectAs meaning? description) (expectAs meaning? description) := by
  refine ⟨rfl, fun read => ?_⟩
  obtain ⟨t, rfl, -⟩ := parses_expectAs.mp read
  exact ⟨List.suffix_cons _ _, Nat.le_refl _⟩

theorem concur_ident : Concur setting ts 1 ident ident := by
  refine ⟨rfl, fun read => ?_⟩
  obtain ⟨used, rfl, names⟩ := parses_ident read
  obtain ⟨pos, text, more, rfl⟩ := names.head
  exact leaves_append (Nat.le_add_left _ _)

theorem concur_ctype : Concur setting ts 1 ctype ctype := by
  refine ⟨rfl, fun read => ?_⟩
  obtain ⟨used, rfl, typed⟩ := parses_ctype read
  obtain ⟨-, -, struct, names, -, -⟩ := typed
  obtain ⟨pos, text, more, rfl⟩ := names.head
  refine leaves_append ?_
  simp only [List.length_append, List.length_cons]
  omega

theorem concur_templateLines : Concur setting ts 0 (ofTokens templateLines) (ofTokens templateLines) := by
  refine ⟨rfl, fun read => ?_⟩
  obtain ⟨used, rfl, -⟩ := templateLines_split (parses_ofTokens.mp read)
  exact leaves_append (Nat.zero_le _)

theorem concur_clobbers : Concur setting ts 0 clobbers clobbers := by
  refine ⟨rfl, fun read => ?_⟩
  obtain ⟨used, rfl, -⟩ := parses_clobbers read
  exact leaves_append (Nat.zero_le _)

theorem concur_asmName : Concur setting ts 0 asmName asmName := by
  refine ⟨rfl, fun read => ?_⟩
  obtain ⟨used, rfl, -⟩ := parses_asmName read
  exact leaves_append (Nat.zero_le _)

end MacroLift.Parser
