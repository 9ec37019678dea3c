import Mathlib.Data.List.Forall2
import MacroLift.Proofs.Grammar.Body
import MacroLift.Proofs.Literal.Integer

namespace MacroLift

namespace Marks

variable {first second joined marks : Marks} {text more : List Char} {name : String} {names others : List String}

/-- Of some marks, at most one is unsigned, and at most one tells a size. -/
structure AreOnce (each : List Marks) : Prop where
  unsigned : each.countP (·.isUnsigned) ≤ 1
  size : each.countP (·.size.isSome) ≤ 1

theorem areOnce_single (marks : Marks) : AreOnce [marks] :=
  ⟨List.countP_le_length, List.countP_le_length⟩

theorem areOnce_cons_cons {rest : List Marks} :
    AreOnce (first :: second :: rest) ↔ ∃ joined, first.join? second = some joined ∧ AreOnce (joined :: rest) := by
  have parts (each : List Marks) :
      AreOnce each ↔ each.countP (·.isUnsigned) ≤ 1 ∧ each.countP (·.size.isSome) ≤ 1 :=
    ⟨fun h => ⟨h.unsigned, h.size⟩, fun h => ⟨h.1, h.2⟩⟩
  obtain ⟨isUnsigned, size⟩ := first
  obtain ⟨isUnsigned', size'⟩ := second
  cases isUnsigned <;> cases isUnsigned' <;> cases size <;> cases size' <;> simp [parts, join?, List.countP_cons]

theorem join?_right_comm (first second third : Marks) :
    (first.join? second).bind (·.join? third) = (first.join? third).bind (·.join? second) := by
  obtain ⟨isUnsigned, size⟩ := first
  obtain ⟨isUnsigned', size'⟩ := second
  obtain ⟨isUnsigned'', size''⟩ := third
  cases isUnsigned <;> cases isUnsigned' <;> cases isUnsigned'' <;> cases size <;> cases size' <;> cases size'' <;> rfl

theorem join?_cases (h : first.join? second = some joined) :
    first = plain ∧ joined = second ∨ second = plain ∧ joined = first ∨
      ∃ mark, joined = ⟨true, some mark⟩ ∧
        (first = ⟨true, none⟩ ∧ second = ⟨false, some mark⟩ ∨ first = ⟨false, some mark⟩ ∧ second = ⟨true, none⟩) := by
  obtain ⟨isUnsigned, size⟩ := first
  obtain ⟨isUnsigned', size'⟩ := second
  cases isUnsigned <;> cases isUnsigned' <;> cases size <;> cases size' <;> cases h <;> simp [plain]

theorem append_mem_spellings (spelled : text ∈ first.spellings) (behind : more ∈ second.spellings)
    (h : first.join? second = some joined) : text ++ more ∈ joined.spellings := by
  have none {text : List Char} (empty : text ∈ plain.spellings) : text = [] :=
    (List.mem_pair.mp empty).elim id id
  rcases join?_cases h with ⟨rfl, rfl⟩ | ⟨rfl, rfl⟩ | ⟨mark, rfl, ⟨rfl, rfl⟩ | ⟨rfl, rfl⟩⟩
  · rwa [none spelled, List.nil_append]
  · rwa [none behind, List.append_nil]
  all_goals
    rw [mem_spellings_iff] at spelled behind ⊢
    obtain ⟨letter, isLetter, letters, areLetters, order⟩ := spelled
    obtain ⟨letter', isLetter', letters', areLetters', order'⟩ := behind
  · obtain rfl := List.mem_singleton.mp areLetters
    obtain rfl := List.mem_singleton.mp isLetter'
    have front : text = letter := by simpa using order
    have back : more = letters' := by simpa using order'
    exact ⟨letter, isLetter, letters', areLetters', .inl (by rw [front, back])⟩
  · obtain rfl := List.mem_singleton.mp isLetter
    obtain rfl := List.mem_singleton.mp areLetters'
    have front : text = letters := by simpa using order
    have back : more = letter' := by simpa using order'
    exact ⟨letter', isLetter', letters, areLetters, .inr (by rw [front, back])⟩

def ofWord? (word : String) : Option Marks :=
  if word = "" then none else ofSuffix? word.toList

def Spells (word : String) (marks : Marks) : Prop :=
  word ≠ "" ∧ word.toList ∈ marks.spellings

def mergeAll? (marks : Marks) (suffixes : List String) : Option Marks :=
  suffixes.foldlM merge? marks

@[simp] theorem mergeAll?_nil (marks : Marks) : marks.mergeAll? [] = some marks := rfl

@[simp] theorem mergeAll?_cons (marks : Marks) (name : String) (names : List String) :
    marks.mergeAll? (name :: names) = (marks.merge? name).bind (·.mergeAll? names) := rfl

theorem ofWord?_eq_some_iff (oneLine : '\n' ∉ name.toList) : ofWord? name = some marks ↔ Spells name marks := by
  rw [Spells, ← ofSuffix?_eq_some_iff oneLine, ofWord?]
  split <;> simp [*]

theorem merge?_eq_bind (marks : Marks) (name : String) : marks.merge? name = (ofWord? name).bind marks.join? := by
  unfold merge? ofWord?
  split
  · rename_i empty
    rw [if_pos (String.toList_eq_nil_iff.mp empty)]
    rfl
  · rename_i nonempty
    rw [if_neg fun empty => nonempty (String.toList_eq_nil_iff.mpr empty)]

theorem merge?_eq_some_iff (oneLine : '\n' ∉ name.toList) :
    marks.merge? name = some joined ↔ ∃ second, Spells name second ∧ marks.join? second = some joined := by
  simp only [merge?_eq_bind, Option.bind_eq_some_iff, ofWord?_eq_some_iff oneLine]

theorem merge?_right_comm (marks : Marks) (name other : String) :
    (marks.merge? name).bind (·.merge? other) = (marks.merge? other).bind (·.merge? name) := by
  simp only [merge?_eq_bind]
  cases ofWord? name <;> cases ofWord? other <;> simp [join?_right_comm marks]

theorem mergeAll?_perm (moved : names.Perm others) (marks : Marks) :
    marks.mergeAll? others = marks.mergeAll? names := by
  induction moved generalizing marks with
  | nil => rfl
  | cons name _ ih => simp [ih]
  | swap name other names =>
    simp only [mergeAll?_cons]
    rw [← Option.bind_assoc, ← Option.bind_assoc, merge?_right_comm]
  | trans _ _ ih ih' => rw [ih', ih]

theorem isSome_mergeAll?_iff (words : ∀ name ∈ names, '\n' ∉ name.toList) :
    (marks.mergeAll? names).isSome ↔ ∃ each, List.Forall₂ Spells names each ∧ AreOnce (marks :: each) := by
  induction names generalizing marks with
  | nil => simp [areOnce_single]
  | cons name names ih =>
    obtain ⟨word, words⟩ := List.forall_mem_cons.mp words
    simp only [mergeAll?_cons, Option.isSome_bind, Option.any_eq_true, merge?_eq_some_iff word, ih words]
    constructor
    · rintro ⟨merged, ⟨second, spelled, joined⟩, each, more, once⟩
      exact ⟨second :: each, .cons spelled more, areOnce_cons_cons.mpr ⟨merged, joined, once⟩⟩
    · rintro ⟨_, all, once⟩
      obtain ⟨second, each, spelled, more, rfl⟩ := List.forall₂_cons_left_iff.mp all
      obtain ⟨merged, joined, once⟩ := areOnce_cons_cons.mp once
      exact ⟨merged, ⟨second, spelled, joined⟩, each, more, once⟩

end Marks

open MacroLift.Parser

variable {text name : String} {names : List String} {number : Number} {marks : Marks} {setting : Setting} {pos : Pos}
  {ts : List Token}

namespace Number

theorem ofText?_append (oneLine : '\n' ∉ text.toList) (read : ofText? text = some number)
    (whole : number.isFloat = false) (word : '\n' ∉ name.toList) (merged : number.marks.merge? name = some marks) :
    ofText? (text ++ name) = some { number with marks } := by
  obtain ⟨literal, spelled, rfl⟩ := (integer?_eq_some_iff oneLine).mp (integer?_of_ofText? read whole)
  obtain ⟨second, ⟨-, behind⟩, joined⟩ := (Marks.merge?_eq_some_iff word).mp merged
  let pasted : IntegerLiteral := { literal with
    marks, suffix := literal.suffix ++ name.toList,
    suffix_mem := Marks.append_mem_spellings literal.suffix_mem behind joined }
  have same : pasted.text = (text ++ name).toList := by
    rw [String.toList_append, ← spelled]
    simp [pasted, IntegerLiteral.text]
  apply ofText?_of_integer?
  rw [← same]
  exact pasted.integer?_text

theorem ofText?_append_join (oneLine : '\n' ∉ text.toList) (read : ofText? text = some number)
    (whole : number.isFloat = false) (words : ∀ name ∈ names, '\n' ∉ name.toList)
    (merged : number.marks.mergeAll? names = some marks) :
    ofText? (text ++ String.join names) = some { number with marks } := by
  induction names generalizing text number with
  | nil =>
    cases merged
    simpa using read
  | cons name names ih =>
    obtain ⟨word, words⟩ := List.forall_mem_cons.mp words
    obtain ⟨next, first, later⟩ := Option.bind_eq_some_iff.mp merged
    rw [String.join_cons, ← String.append_assoc]
    have apart : '\n' ∉ (text ++ name).toList := by simp [oneLine, word]
    have front : ofText? (text ++ name) = some { number with marks := next } :=
      ofText?_append oneLine read whole word first
    -- stated apart: from the goal, the number would be taken for the one without any suffix
    have joined := ih apart front whole words later
    exact joined

end Number

theorem PastedNames.suffixes {own : Marks} (pasted : PastedNames ts names)
    (merged : own.mergeAll? names = some marks) : Suffixes own ts marks := by
  induction pasted generalizing own with
  | nil =>
    cases merged
    exact .none _
  | cons pastePos namePos text _ ih =>
    obtain ⟨next, new, later⟩ := Option.bind_eq_some_iff.mp merged
    exact .paste pastePos namePos text new (ih later)

theorem Number.body_pasted (read : ofText? text = some number) (whole : number.isFloat = false)
    (suffixes : Suffixes number.marks ts marks) (setting : Setting) (pos : Pos) :
    body setting (⟨.number text, pos⟩ :: ts) = .ok (.expression pos (.number pos { number with marks })) := by
  have unpasted : number.isFloat = true → ts = [] := by simp [whole]
  have primary : Reads setting.parameters (.expr 9) (⟨.number text, pos⟩ :: ts)
      (.number pos { number with marks }) none :=
    .closed (.number pos text read suffixes unpasted) rfl rfl
  exact ReadsBody.body_eq (.expression rfl (primary.loosen (by omega) (by omega) (by omega)))

/-- Pasted suffixes mean what pasting means. Suffixes can be merged into an integer one after another exactly if each is
    one and, with the number's own marks, no mark stands twice; in which order they come makes no difference. What is
    read then, wherever nothing further is pasted, is the number that the one token with all of them at its end is read
    as. -/
theorem Number.pasted_suffixes (oneLine : '\n' ∉ text.toList) (read : ofText? text = some number)
    (whole : number.isFloat = false) (words : ∀ name ∈ names, '\n' ∉ name.toList) :
    ((number.marks.mergeAll? names).isSome ↔
      ∃ each, List.Forall₂ Marks.Spells names each ∧ Marks.AreOnce (number.marks :: each)) ∧
    (∀ others, names.Perm others → number.marks.mergeAll? others = number.marks.mergeAll? names) ∧
    ∀ marks, number.marks.mergeAll? names = some marks →
      ofText? (text ++ String.join names) = some { number with marks } ∧
      ∀ ts, PastedNames ts names → ∀ setting pos,
        (∀ rest, ahead rest none ≠ some (.punct .paste) →
          Parses (Parser.number text) setting (⟨.number text, pos⟩ :: ts ++ rest)
            (.number pos { number with marks }) rest) ∧
        body setting (⟨.number text, pos⟩ :: ts) = .ok (.expression pos (.number pos { number with marks })) ∧
        body setting [⟨.number (text ++ String.join names), pos⟩] =
          .ok (.expression pos (.number pos { number with marks })) := by
  refine ⟨Marks.isSome_mergeAll?_iff words, fun others moved => Marks.mergeAll?_perm moved _, fun marks merged => ?_⟩
  have one := ofText?_append_join oneLine read whole words merged
  refine ⟨one, fun ts pasted setting pos => ?_⟩
  have suffixes := pasted.suffixes merged
  exact ⟨fun rest stop => number_parses read suffixes (by simp [whole]) stop,
    body_pasted read whole suffixes setting pos, body_pasted one whole (.none _) setting pos⟩

theorem Number.pasted_suffixes_hexadecimal :
    Marks.plain.mergeAll? ["LL", "u"] = some ⟨true, some .longLong⟩ ∧
    ofText? ("0x1F" ++ String.join ["u", "LL"]) = some ⟨"0x1F", ⟨true, some .longLong⟩, false⟩ ∧
    body ⟨⟨1, 16⟩, []⟩ [⟨.number "0x1F", ⟨1, 1⟩⟩, ⟨.punct .paste, ⟨1, 6⟩⟩, ⟨.name "u", ⟨1, 9⟩⟩,
      ⟨.punct .paste, ⟨1, 11⟩⟩, ⟨.name "LL", ⟨1, 14⟩⟩] =
      .ok (.expression ⟨1, 1⟩ (.number ⟨1, 1⟩ ⟨"0x1F", ⟨true, some .longLong⟩, false⟩)) := by
  have read : ofText? "0x1F" = some ⟨"0x1F", .plain, false⟩ := by decide +kernel
  have words : ∀ name ∈ ["u", "LL"], '\n' ∉ name.toList := by decide
  have merged : Marks.plain.mergeAll? ["u", "LL"] = some ⟨true, some .longLong⟩ := by decide
  obtain ⟨-, moved, pasted⟩ := pasted_suffixes (by decide) read rfl words
  obtain ⟨one, behind⟩ := pasted _ merged
  refine ⟨(moved _ (.swap _ _ _)).trans merged, one, ?_⟩
  exact (behind _ (.cons _ _ _ (.cons _ _ _ .nil)) ⟨⟨1, 16⟩, []⟩ ⟨1, 1⟩).2.1

end MacroLift
