import MacroLift.Proofs.Grammar.Signature
import MacroLift.Proofs.Token.Respacing

namespace MacroLift

open Lexeme (isNameStart isNameChar)
open Token (ReadsAll)

variable {text follow : List Char} {name : String} {parameters : List String} {ls : List Lexeme}

structure IsIdentifier (name : String) : Prop where
  spelled : ∃ c more, name.toList = c :: more ∧ isNameStart c = true ∧ ∀ d ∈ more, isNameChar d = true
  noKeyword : Keyword.ofSpelling? name = none

instance : DecidablePred IsIdentifier := fun name =>
  decidable_of_iff (name.toList.head?.any isNameStart = true ∧ name.toList.tail.all isNameChar = true ∧
    Keyword.ofSpelling? name = none) <| by
    rw [List.all_eq_true]
    constructor
    · rintro ⟨start, inside, noKeyword⟩
      cases spelled : name.toList with
      | nil =>
        rw [spelled] at start
        cases start
      | cons c more =>
        rw [spelled] at start inside
        exact ⟨⟨c, more, spelled, start, inside⟩, noKeyword⟩
    · rintro ⟨⟨c, more, spelled, start, inside⟩, noKeyword⟩
      rw [spelled]
      exact ⟨start, inside, noKeyword⟩

theorem IsIdentifier.ofWord (h : IsIdentifier name) : Lexeme.ofWord name = .name name := by
  rw [Lexeme.ofWord, h.noKeyword]

theorem IsIdentifier.isNameChar (h : IsIdentifier name) : ∀ c ∈ name.toList, isNameChar c = true := by
  obtain ⟨c, more, spelled, start, inside⟩ := h.spelled
  rw [spelled]
  exact List.forall_mem_cons.mpr ⟨isNameChar_of_isNameStart start, inside⟩

theorem IsIdentifier.solid (h : IsIdentifier name) : name.toList ≠ [] := by
  obtain ⟨c, more, spelled, -⟩ := h.spelled
  rw [spelled]
  exact List.cons_ne_nil c more

theorem not_isIdentifier_variadicMark : ¬ IsIdentifier variadicMark := by
  rintro ⟨⟨c, more, spelled, start, -⟩, -⟩
  cases spelled
  cases start

/-- Names that a signature can hold: only the last parameter may be the variadic mark. -/
structure IsSignature (name : String) (parameters : List String) : Prop where
  name : IsIdentifier name
  front : ∀ p ∈ parameters.dropLast, IsIdentifier p
  last : ∀ p ∈ parameters.getLast?, IsIdentifier p ∨ p = variadicMark

instance (name : String) (parameters : List String) : Decidable (IsSignature name parameters) :=
  decidable_of_iff (IsIdentifier name ∧ (∀ p ∈ parameters.dropLast, IsIdentifier p) ∧
    ∀ p ∈ parameters.getLast?, IsIdentifier p ∨ p = variadicMark)
    ⟨fun ⟨name, front, last⟩ => ⟨name, front, last⟩, fun ⟨name, front, last⟩ => ⟨name, front, last⟩⟩

def parameterLexeme (parameter : String) : Lexeme :=
  if parameter = variadicMark then .punct .ellipsis else .name parameter

theorem IsIdentifier.parameterLexeme (h : IsIdentifier name) : parameterLexeme name = .name name := by
  unfold MacroLift.parameterLexeme
  rw [if_neg]
  rintro rfl
  exact not_isIdentifier_variadicMark h

def signatureLexemes (name : String) (parameters : List String) : List Lexeme :=
  .name name :: .punct .leftParen :: ((parameters.map parameterLexeme).intersperse (.punct .comma) ++
    [.punct .rightParen])

def printSignature (name : String) (parameters : List String) : String :=
  name ++ "(" ++ ", ".intercalate parameters ++ ")"

theorem Lexeme.Scanned.isIdentifier (h : Lexeme.Scanned text (.name name) follow) : IsIdentifier name := by
  generalize same : Lexeme.name name = lexeme at h
  cases h with
  | @word c rest start =>
    have spelled := congrArg Lexeme.text same
    rw [Lexeme.text_ofWord] at spelled
    have spelled : name = String.ofList ((c :: rest).takeWhile isNameChar) := spelled
    refine ⟨⟨c, rest.takeWhile Lexeme.isNameChar, ?_, start, fun d => List.mem_takeWhile_imp⟩, ?_⟩
    · rw [spelled, String.toList_ofList, List.takeWhile_cons_of_pos (isNameChar_of_isNameStart start)]
    · rw [← spelled, Lexeme.ofWord] at same
      split at same
      · cases same
      · assumption
  | _ => cases same

theorem Token.ReadsAll.isIdentifier {cursor : Token.Cursor} {ts : List Token} {stop : Pos}
    (h : ReadsAll cursor ts stop) : ∀ t ∈ ts, ∀ name, t.lexeme = .name name → IsIdentifier name := by
  induction h with
  | stop => nofun
  | token step _ _ ih =>
    obtain ⟨gap, after, -, scanned, -, -⟩ := step_eq_token_iff.mp step
    refine List.forall_mem_cons.mpr ⟨fun name named => ?_, ih⟩
    rw [named] at scanned
    exact scanned.isIdentifier

/-- `'...' | NAME (',' NAME)* (',' '...')?` -/
inductive ParameterList : List Token → List String → Prop where
  | variadic (pos : Pos) : ParameterList [⟨.punct .ellipsis, pos⟩] [variadicMark]
  | single (pos : Pos) (name : String) : ParameterList [⟨.name name, pos⟩] [name]
  | more {ts : List Token} {parameters : List String} (pos commaPos : Pos) (name : String)
      (rest : ParameterList ts parameters) :
      ParameterList (⟨.name name, pos⟩ :: ⟨.punct .comma, commaPos⟩ :: ts) (name :: parameters)

theorem ParameterList.ne_nil {ts : List Token} (h : ParameterList ts parameters) : parameters ≠ [] := by
  cases h <;> exact List.cons_ne_nil _ _

theorem ParameterList.not_closed {ts : List Token} (h : ParameterList ts parameters) (us : List Token) :
    ahead (ts ++ us) none ≠ some (.punct .rightParen) := by
  cases h <;> simp

theorem ParameterList.length_le {ts : List Token} (h : ParameterList ts parameters) :
    parameters.length ≤ ts.length := by
  induction h with
  | variadic | single => exact Nat.le_refl _
  | more _ _ _ _ ih =>
    simp only [List.length_cons]
    omega

namespace Parser

variable {setting : Setting} {ts rest : List Token} {signature : Signature}

theorem parameterNames_split (read : parameterNames setting ts = .ok (parameters, rest)) :
    ∃ used, ts = used ++ rest ∧ ParameterList used parameters := by
  induction ts using parameterNames.induct generalizing parameters with
  | case1 pos rest' =>
    cases read
    exact ⟨_, rfl, .variadic pos⟩
  | case2 name pos commaPos rest' ih =>
    rw [parameterNames] at read
    cases found : parameterNames setting rest' with
    | error => simp [found, Except.map] at read
    | ok result =>
      rw [found] at read
      cases read
      obtain ⟨used, rfl, list⟩ := ih found
      exact ⟨_, rfl, .more pos commaPos name list⟩
  | case3 name pos rest' noComma =>
    rw [parameterNames.eq_3 _ _ _ _ noComma] at read
    cases read
    exact ⟨_, rfl, .single pos name⟩
  | case4 ts noEllipsis noPair noName =>
    rw [parameterNames.eq_4 _ _ noEllipsis noPair noName] at read
    cases read

theorem parameterNames_run (list : ParameterList ts parameters) (noComma : ahead rest none ≠ some (.punct .comma)) :
    parameterNames setting (ts ++ rest) = .ok (parameters, rest) := by
  induction list with
  | variadic => rfl
  | single pos name =>
    have other : ∀ commaPos more, rest = ⟨.punct .comma, commaPos⟩ :: more → False := by
      rintro commaPos more rfl
      exact noComma rfl
    exact parameterNames.eq_3 setting name pos rest other
  | more pos commaPos name _ ih =>
    simp only [List.cons_append, parameterNames, ih]
    rfl

theorem parses_signature : Parses Parser.signature setting ts signature rest ↔
    rest = [] ∧ ∃ openPos closePos used,
      ts = ⟨.name signature.name, signature.pos⟩ :: ⟨.punct .leftParen, openPos⟩ ::
        (used ++ [⟨.punct .rightParen, closePos⟩]) ∧
      (used = [] ∧ signature.parameters = [] ∨ ParameterList used signature.parameters) := by
  unfold Parser.signature
  rw [parses_place_bind]
  simp only [parses_bind, parses_expectAs, parses_expect, parses_peek]
  constructor
  · rintro ⟨name, _, ⟨⟨lexeme, pos⟩, rfl, named⟩, -, mid, ⟨openPos, rfl⟩, next, _, ⟨rfl, rfl⟩, h⟩
    cases lexeme <;> cases named
    split at h
    · simp only [parses_bind, parses_expect, parses_expectEnd, parses_pure] at h
      obtain ⟨_, _, ⟨rfl, rfl⟩, -, _, ⟨closePos, rfl⟩, -, _, ⟨rfl, rfl⟩, rfl, rfl⟩ := h
      exact ⟨rfl, openPos, closePos, [], rfl, .inl ⟨rfl, rfl⟩⟩
    · simp only [parses_bind, parses_ofTokens, parses_expect, parses_expectEnd, parses_pure] at h
      obtain ⟨names, _, read, -, _, ⟨closePos, rfl⟩, -, _, ⟨rfl, rfl⟩, rfl, rfl⟩ := h
      obtain ⟨used, rfl, list⟩ := parameterNames_split read
      exact ⟨rfl, openPos, closePos, used, rfl, .inr list⟩
  · rintro ⟨rfl, openPos, closePos, used, rfl, parameters⟩
    refine ⟨signature.name, _, ⟨_, rfl, rfl⟩, (), _, ⟨openPos, rfl⟩, _, _, ⟨rfl, rfl⟩, ?_⟩
    rcases parameters with ⟨rfl, none⟩ | list
    · rw [List.nil_append, ahead_cons, if_pos rfl]
      simp only [parses_bind, parses_expect, parses_expectEnd, parses_pure]
      refine ⟨_, _, ⟨rfl, rfl⟩, (), [], ⟨closePos, rfl⟩, (), [], ⟨rfl, rfl⟩, ?_, rfl⟩
      rw [← none]
      rfl
    · rw [if_neg (list.not_closed _)]
      simp only [parses_bind, parses_ofTokens, parses_expect, parses_expectEnd, parses_pure]
      exact ⟨_, _, parameterNames_run list (by simp), (), [], ⟨closePos, rfl⟩, (), [], ⟨rfl, rfl⟩, rfl, rfl⟩

end Parser

theorem ParameterList.lexemes {ts : List Token} (h : ParameterList ts parameters)
    (identifiers : ∀ t ∈ ts, ∀ name, t.lexeme = .name name → IsIdentifier name) :
    ts.map Token.lexeme = (parameters.map parameterLexeme).intersperse (.punct .comma) ∧
      (∀ p ∈ parameters.dropLast, IsIdentifier p) ∧ ∀ p ∈ parameters.getLast?, IsIdentifier p ∨ p = variadicMark := by
  induction h with
  | variadic => simp [parameterLexeme]
  | single pos name =>
    have identifier : IsIdentifier name := by simpa using identifiers
    simp [identifier.parameterLexeme, identifier]
  | @more ts parameters pos commaPos name list ih =>
    obtain ⟨identifier, others⟩ := List.forall_mem_cons.mp identifiers
    obtain ⟨same, front, last⟩ := ih (List.forall_mem_cons.mp others).2
    have identifier : IsIdentifier name := identifier name rfl
    obtain ⟨next, later, rfl⟩ := List.exists_cons_of_ne_nil list.ne_nil
    refine ⟨?_, ?_, ?_⟩
    · simp only [List.map_cons, List.intersperse_cons_cons, identifier.parameterLexeme, same]
    · rw [List.dropLast_cons_cons]
      exact List.forall_mem_cons.mpr ⟨identifier, front⟩
    · rwa [List.getLast?_cons_cons]

theorem parameterList_of_lexemes {ts : List Token} (nonempty : parameters ≠ [])
    (front : ∀ p ∈ parameters.dropLast, IsIdentifier p)
    (last : ∀ p ∈ parameters.getLast?, IsIdentifier p ∨ p = variadicMark)
    (same : ts.map Token.lexeme = (parameters.map parameterLexeme).intersperse (.punct .comma)) :
    ParameterList ts parameters := by
  induction parameters generalizing ts with
  | nil => exact absurd rfl nonempty
  | cons p more ih =>
    cases more with
    | nil =>
      obtain ⟨⟨lexeme, pos⟩, rfl, rfl⟩ : ∃ t, ts = [t] ∧ t.lexeme = parameterLexeme p := by
        simpa using same
      rcases last p rfl with identifier | rfl
      · rw [identifier.parameterLexeme]
        exact .single pos p
      · exact .variadic pos
    | cons next later =>
      have identifier : IsIdentifier p := front p List.mem_cons_self
      simp only [List.map_cons, List.intersperse_cons_cons, List.map_eq_cons_iff] at same
      obtain ⟨⟨_, pos⟩, _, rfl, rfl, ⟨_, commaPos⟩, us, rfl, rfl, same⟩ := same
      rw [identifier.parameterLexeme]
      refine .more pos commaPos p (ih (List.cons_ne_nil _ _) ?_ ?_ ?_)
      · rw [List.dropLast_cons_cons] at front
        exact (List.forall_mem_cons.mp front).2
      · rwa [List.getLast?_cons_cons] at last
      · exact same

theorem parses_signature_iff {setting : Setting} {ts rest : List Token} {signature : Signature}
    (identifiers : ∀ t ∈ ts, ∀ name, t.lexeme = .name name → IsIdentifier name) :
    Parser.Parses Parser.signature setting ts signature rest ↔
      rest = [] ∧ IsSignature signature.name signature.parameters ∧
        ts.map Token.lexeme = signatureLexemes signature.name signature.parameters ∧
        ts.head?.map Token.pos = some signature.pos := by
  rw [Parser.parses_signature]
  refine and_congr_right fun _ => ?_
  constructor
  · rintro ⟨openPos, closePos, used, rfl, parameters⟩
    obtain ⟨identifier, -, others⟩ := List.forall_mem_cons.mp identifiers |>.imp_right List.forall_mem_cons.mp
    have identifier : IsIdentifier signature.name := identifier _ rfl
    rcases parameters with ⟨rfl, none⟩ | list
    · refine ⟨⟨identifier, ?_, ?_⟩, ?_, rfl⟩ <;> simp [none, signatureLexemes]
    · obtain ⟨same, front, last⟩ := list.lexemes (List.forall_mem_append.mp others).1
      exact ⟨⟨identifier, front, last⟩, by simp [signatureLexemes, same], rfl⟩
  · rintro ⟨⟨identifier, front, last⟩, same, place⟩
    simp only [signatureLexemes, List.map_eq_cons_iff, List.map_eq_append_iff, List.map_eq_nil_iff] at same
    obtain ⟨⟨_, pos⟩, _, rfl, rfl, ⟨_, openPos⟩, _, rfl, rfl, used, _, rfl, same, ⟨_, closePos⟩, _, rfl, rfl, rfl⟩ :=
      same
    cases place
    refine ⟨openPos, closePos, used, rfl, ?_⟩
    by_cases none : signature.parameters = []
    · rw [none] at same
      exact .inl ⟨List.map_eq_nil_iff.mp same, none⟩
    · exact .inr (parameterList_of_lexemes none front last same)

namespace Token

/-- Wherever it stands, the text is read as these lexemes. -/
def Spells (text : List Char) (ls : List Lexeme) : Prop :=
  ∀ pos, ∃ ts stop, ReadsAll ⟨text, pos⟩ ts stop ∧ ts.map Token.lexeme = ls

theorem spells_nil : Spells [] [] := by
  intro pos
  exact ⟨[], _, .stop (step_eq_stop_iff.mpr ⟨congrArg Prod.snd Gap.startsBare_nil, rfl⟩), rfl⟩

theorem readsAll_cons {l : Lexeme} (scanned : Lexeme.Scanned (l.text.toList ++ follow) l follow)
    (bare : Gap.StartsBare (l.text.toList ++ follow)) (solid : l.text.toList ≠ []) (rest : Spells follow ls)
    (pos : Pos) :
    ∃ ts stop, ReadsAll ⟨l.text.toList ++ follow, pos⟩ (⟨l, pos⟩ :: ts) stop ∧ ts.map Token.lexeme = ls := by
  obtain ⟨ts, stop, read, same⟩ := rest (pos.after l.text.toList)
  refine ⟨ts, stop, .token (step_eq_token_iff.mpr ⟨[], follow, bare, scanned, rfl, rfl⟩) ?_ read, same⟩
  have shorter := List.length_pos_iff.mpr solid
  simp only [List.length_append]
  omega

theorem spells_cons {l : Lexeme} (scanned : Lexeme.Scanned (l.text.toList ++ follow) l follow)
    (bare : Gap.StartsBare (l.text.toList ++ follow)) (solid : l.text.toList ≠ []) (rest : Spells follow ls) :
    Spells (l.text.toList ++ follow) (l :: ls) := by
  intro pos
  obtain ⟨ts, stop, read, same⟩ := readsAll_cons scanned bare solid rest pos
  exact ⟨_, stop, read, congrArg (List.cons l) same⟩

theorem step_blank {c : Char} (isBlank : Gap.isBlank c = true) (text : List Char) (pos : Pos) :
    Cursor.step ⟨c :: text, pos⟩ = Cursor.step ⟨text, pos.next c⟩ := by
  unfold Cursor.step
  rw [Gap.split_blank isBlank]
  rfl

theorem spells_blank {c : Char} (isBlank : Gap.isBlank c = true) (rest : Spells text ls) : Spells (c :: text) ls := by
  intro pos
  obtain ⟨ts, stop, read, same⟩ := rest (pos.next c)
  refine ⟨ts, stop, ?_, same⟩
  have step := step_blank isBlank text pos
  cases read with
  | stop ended => exact .stop (step.trans ended)
  | token first shorter more => exact .token (step.trans first) (Nat.lt_succ_of_lt shorter) more

theorem scanned_name (identifier : IsIdentifier name) (outside : ∀ c ∈ follow.head?, isNameChar c = false) :
    Lexeme.Scanned (name.toList ++ follow) (.name name) follow ∧ Gap.StartsBare (name.toList ++ follow) := by
  obtain ⟨c, more, spelled, start, -⟩ := identifier.spelled
  have taken := Text.takeWhile_run identifier.isNameChar outside
  have left := Text.dropWhile_run identifier.isNameChar outside
  rw [spelled, List.cons_append] at taken left ⊢
  have scanned := @Lexeme.Scanned.word c (more ++ follow) start
  rw [taken, left, ← spelled, String.ofList_toList, identifier.ofWord] at scanned
  exact ⟨scanned, startsBare_of_isNameStart start⟩

theorem spells_name (identifier : IsIdentifier name) (outside : ∀ c ∈ follow.head?, isNameChar c = false)
    (rest : Spells follow ls) : Spells (name.toList ++ follow) (.name name :: ls) := by
  obtain ⟨scanned, bare⟩ := scanned_name identifier outside
  exact @spells_cons follow ls (.name name) scanned bare identifier.solid rest

theorem spells_mark {p : Punct} (mark : p = .leftParen ∨ p = .rightParen ∨ p = .comma ∨ p = .ellipsis)
    (rest : Spells follow ls) : Spells (p.chars ++ follow) (.punct p :: ls) := by
  have found : Punct.ofText? (p.chars ++ follow) = some p := by
    rcases mark with rfl | rfl | rfl | rfl <;> rfl
  have noNumber : Lexeme.startsNumber (p.chars ++ follow) = false := by
    rcases mark with rfl | rfl | rfl | rfl <;> rfl
  have noComment : ¬ ['/', '*'] <+: p.chars ++ follow := by
    rcases mark with rfl | rfl | rfl | rfl <;> simp [Punct.chars]
  have bare : Gap.StartsBare (p.chars ++ follow) := by
    rcases mark with rfl | rfl | rfl | rfl <;> exact Gap.startsBare_plain rfl (by decide) (by decide)
  have scanned := Lexeme.Scanned.punct noNumber noComment found
  rw [List.drop_left] at scanned
  have spelled : (Lexeme.punct p).text.toList = p.chars := String.toList_ofList
  rw [← spelled] at scanned bare ⊢
  exact spells_cons scanned bare (spelled ▸ p.chars_ne_nil) rest

theorem spells_close : Spells [')'] [.punct .rightParen] :=
  spells_mark (p := .rightParen) (by simp) spells_nil

theorem mark_head_outside {p : Punct} (mark : p = .leftParen ∨ p = .rightParen ∨ p = .comma) :
    ∀ c ∈ (p.chars ++ follow).head?, isNameChar c = false := by
  rcases mark with rfl | rfl | rfl <;> (rintro _ ⟨⟩; rfl)

theorem spells_parameters (front : ∀ p ∈ parameters.dropLast, IsIdentifier p)
    (last : ∀ p ∈ parameters.getLast?, IsIdentifier p ∨ p = variadicMark) :
    Spells ((", ".intercalate parameters).toList ++ [')'])
      ((parameters.map parameterLexeme).intersperse (.punct .comma) ++ [.punct .rightParen]) := by
  induction parameters with
  | nil => exact spells_close
  | cons p more ih =>
    cases more with
    | nil =>
      rcases last p rfl with identifier | rfl
      · rw [String.intercalate_singleton]
        simp only [List.map_cons, List.map_nil, List.intersperse_singleton, identifier.parameterLexeme]
        exact spells_name identifier (mark_head_outside (.inr (.inl rfl))) spells_close
      · exact spells_mark (.inr (.inr (.inr rfl))) spells_close
    | cons next later =>
      have identifier : IsIdentifier p := front p List.mem_cons_self
      rw [List.dropLast_cons_cons] at front
      rw [List.getLast?_cons_cons] at last
      have behind := spells_blank (c := ' ') rfl (ih (List.forall_mem_cons.mp front).2 last)
      have comma := spells_mark (.inr (.inr (.inl rfl))) behind
      rw [String.intercalate_cons_cons]
      simp only [List.map_cons, List.intersperse_cons_cons, identifier.parameterLexeme, String.toList_append,
        List.append_assoc]
      exact spells_name identifier (mark_head_outside (.inr (.inr rfl))) comma

theorem readsAll_printSignature (isSignature : IsSignature name parameters) : ∃ ts stop,
    ReadsAll ⟨(printSignature name parameters).toList, ⟨1, 1⟩⟩ (⟨.name name, ⟨1, 1⟩⟩ :: ts) stop ∧
      ts.map Token.lexeme = .punct .leftParen ::
        ((parameters.map parameterLexeme).intersperse (.punct .comma) ++ [.punct .rightParen]) := by
  have inside := spells_parameters isSignature.front isSignature.last
  have behind := spells_mark (.inl rfl) inside
  obtain ⟨scanned, bare⟩ := scanned_name isSignature.name (mark_head_outside (.inl rfl))
  have printed : (printSignature name parameters).toList =
      name.toList ++ (Punct.chars .leftParen ++ ((", ".intercalate parameters).toList ++ [')'])) := by
    simp [printSignature, Punct.chars]
  rw [printed]
  exact @readsAll_cons _ _ (.name name) scanned bare isSignature.name.solid behind ⟨1, 1⟩

end Token

theorem IsSignature.variadicMark_last (h : IsSignature name parameters) : variadicMark ∉ parameters.dropLast :=
  fun member => not_isIdentifier_variadicMark (h.front _ member)

theorem ofText_eq_ok_iff_lexemes {text file : String} {stream : Token.Stream} {s : Signature}
    (read : tokenize text file 1 = .ok stream) :
    Signature.ofText text file = .ok s ↔ IsSignature s.name s.parameters ∧
      stream.tokens.map Token.lexeme = signatureLexemes s.name s.parameters ∧
      stream.tokens.head?.map Token.pos = some s.pos := by
  have identifiers := (Token.readsAll_of_tokenize read).isIdentifier
  rw [Signature.ofText_eq_ok_iff, read]
  constructor
  · rintro ⟨_, rest, ⟨⟩, parsed⟩
    exact ((parses_signature_iff identifiers).mp parsed).2
  · intro spelled
    exact ⟨stream, [], rfl, (parses_signature_iff identifiers).mpr ⟨rfl, spelled⟩⟩

theorem ofText_printSignature (isSignature : IsSignature name parameters) (file : String) :
    Signature.ofText (printSignature name parameters) file = .ok ⟨⟨1, 1⟩, name, parameters⟩ := by
  obtain ⟨ts, stop, read, same⟩ := Token.readsAll_printSignature isSignature
  have whole : Token.Cursor.readAll ⟨(printSignature name parameters).toList, ⟨1, 1⟩⟩ =
      .ok ⟨⟨.name name, ⟨1, 1⟩⟩ :: ts, stop⟩ := Token.readAll_eq_ok_iff.mpr read
  have tokens : tokenize (printSignature name parameters) file 1 = .ok ⟨⟨.name name, ⟨1, 1⟩⟩ :: ts, stop⟩ := by
    rw [tokenize, Token.Stream.ofText, whole]
  refine (ofText_eq_ok_iff_lexemes tokens).mpr ⟨isSignature, ?_, rfl⟩
  exact congrArg (List.cons (.name name)) same

/-- The texts with tokens that are read as a signature are those whose tokens are a name and its parameters, with the
    variadic mark in the last place only. What is printed of a name and parameters is read back. -/
theorem ofText_signature_exact (text file : String) :
    (∀ stream, tokenize text file 1 = .ok stream → ∀ s : Signature, Signature.ofText text file = .ok s ↔
      IsSignature s.name s.parameters ∧ variadicMark ∉ s.parameters.dropLast ∧
        stream.tokens.map Token.lexeme = signatureLexemes s.name s.parameters ∧
        stream.tokens.head?.map Token.pos = some s.pos) ∧
      ∀ name parameters, IsSignature name parameters →
        Signature.ofText (printSignature name parameters) file = .ok ⟨⟨1, 1⟩, name, parameters⟩ := by
  refine ⟨fun stream read s => ?_, fun name parameters isSignature => ofText_printSignature isSignature file⟩
  rw [ofText_eq_ok_iff_lexemes read]
  constructor
  · rintro ⟨isSignature, spelled⟩
    exact ⟨isSignature, isSignature.variadicMark_last, spelled⟩
  · rintro ⟨isSignature, -, spelled⟩
    exact ⟨isSignature, spelled⟩

theorem ofText_signature_exact_log :
    Signature.ofText "LOG (level,\n ...)" "log.h" = .ok ⟨⟨1, 1⟩, "LOG", ["level", "..."]⟩ ∧
      Signature.ofText "LOG(level, ...)" "log.h" = .ok ⟨⟨1, 1⟩, "LOG", ["level", "..."]⟩ := by
  have read : tokenize "LOG (level,\n ...)" "log.h" 1 =
      .ok ⟨[⟨.name "LOG", ⟨1, 1⟩⟩, ⟨.punct .leftParen, ⟨1, 5⟩⟩, ⟨.name "level", ⟨1, 6⟩⟩, ⟨.punct .comma, ⟨1, 11⟩⟩,
        ⟨.punct .ellipsis, ⟨2, 2⟩⟩, ⟨.punct .rightParen, ⟨2, 5⟩⟩], ⟨2, 6⟩⟩ := by
    decide +kernel
  have isSignature : IsSignature "LOG" ["level", "..."] := by decide +kernel
  have spelled := ((ofText_signature_exact "LOG (level,\n ...)" "log.h").1 _ read ⟨⟨1, 1⟩, "LOG", ["level", "..."]⟩).mpr
  refine ⟨spelled ⟨isSignature, by decide, by decide, rfl⟩, ?_⟩
  exact (ofText_signature_exact "LOG (level,\n ...)" "log.h").2 _ _ isSignature

end MacroLift
