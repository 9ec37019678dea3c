import MacroLift.Proofs.Grammar.Lexemes

namespace MacroLift

variable {ts : List Token}

def Leads (p : Lexeme → Bool) (ts : List Token) : Prop :=
  ∃ t us, ts = t :: us ∧ p t.lexeme = true

theorem Leads.append {p : Lexeme → Bool} (h : Leads p ts) (us : List Token) :
    Leads p (ts ++ us) := by
  obtain ⟨t, rest, rfl, start⟩ := h
  exact ⟨t, rest ++ us, rfl, start⟩

theorem Leads.ne_nil {p : Lexeme → Bool} (h : Leads p ts) : ts ≠ [] := by
  obtain ⟨t, rest, rfl, _⟩ := h
  exact List.cons_ne_nil t rest

theorem leads_cons {p : Lexeme → Bool} {t : Token} (start : p t.lexeme = true) (ts : List Token) :
    Leads p (t :: ts) := ⟨t, ts, rfl, start⟩

theorem Leads.head {p : Lexeme → Bool} {t : Token} (h : Leads p (t :: ts)) : p t.lexeme = true := by
  obtain ⟨_, _, same, start⟩ := h
  cases same
  exact start

theorem AllConst.eq_nil_of_leads {consts : List Token} (const : AllConst consts)
    (start : Leads startsOperand (consts ++ ts)) : consts = [] := by
  cases consts with
  | nil => rfl
  | cons t consts =>
    have leads := start.head
    rw [const t List.mem_cons_self] at leads
    cases leads

theorem Optional.absent_of_leads {l : Lexeme} {us : List Token} {found : Bool} (h : Optional l us found)
    (noStart : startsOperand l = false) (start : Leads startsOperand (us ++ ts)) : us = [] ∧ found = false := by
  cases h with
  | absent => exact ⟨rfl, rfl⟩
  | present => exact absurd start.head (by simp [noStart])

theorem Names.leads {ident : Ident} (h : Names ts ident) : Leads startsOperand ts := by
  obtain ⟨pos, text, us, rfl⟩ := h.head
  exact leads_cons rfl us

theorem Pieces.leads {e : Expr} {more : List Expr} (h : Pieces ts (e :: more)) :
    Leads startsOperand ts := by
  cases h with
  | text => exact leads_cons rfl _
  | mark => exact leads_cons rfl _

def Lexeme.startsStatement : Lexeme → Bool
  | .punct .leftBrace => true
  | .keyword k => [.ifKw, .doKw, .staticKw, .constKw, .structKw].contains k
  | l => startsOperand l

def Phrase.Starts : Phrase → List Token → Prop
  | .expr _ | .chain => Leads startsOperand
  | .operand => Leads fun l => match l with | .string _ | .punct .leftBracket => true | _ => false
  | .statement | .branch => Leads Lexeme.startsStatement
  | _ => fun _ => True

theorem Leads.startsStatement (h : Leads startsOperand ts) : Leads Lexeme.startsStatement ts := by
  obtain ⟨t, us, rfl, start⟩ := h
  refine leads_cons ?_ us
  unfold Lexeme.startsStatement
  split
  · rfl
  · rw [‹t.lexeme = _›] at start
    cases start
  · exact start

theorem TypeName.leads {type : CType} (h : TypeName ts type) :
    Leads Lexeme.startsStatement ts := by
  cases h with
  | @intro before word name _ _ _ _ _ _ _ constBefore struct names _ _ =>
    refine Leads.append (Leads.append ?_ _) _
    cases before with
    | cons t before =>
      have const := constBefore t (by simp)
      exact ⟨t, _, rfl, by rw [const]; rfl⟩
    | nil =>
      cases struct with
      | absent => exact names.leads.startsStatement
      | present => exact leads_cons rfl _

theorem Derives.starts {phrase : Phrase} {tree : phrase.Tree} (h : Derives phrase ts tree) :
    phrase.Starts ts := by
  induction h with
  | name names => exact names.leads
  | number | character => exact leads_cons rfl _
  | piece pieces => exact pieces.leads
  | pieces pieces => exact pieces.leads
  | parens => exact leads_cons rfl _
  | base _ _ ih | closed _ _ ih | chained _ ih => exact ih
  | call _ _ _ _ callee => exact (Leads.append callee _).append _
  | field _ _ _ _ ih => exact Leads.append ih _
  | step _ _ _ ih => exact Leads.append ih _
  | assembly _ _ _ _ _ _ _ _ _ opener =>
    simp only [List.append_assoc]
    exact Leads.append opener _
  | cast | addressOf => exact leads_cons rfl _
  | before op => exact leads_cons (by cases op <;> rfl) _
  | binary _ _ _ _ first => exact Leads.append first _
  | ternary _ _ _ _ _ test => exact (Leads.append test _).append _
  | assign _ _ _ _ first => exact Leads.append first _
  | tighter _ _ _ ih => exact ih
  | operand _ _ _ _ _ named =>
    cases named with
    | none => exact ⟨_, _, rfl, rfl⟩
    | bracketed => exact ⟨_, _, rfl, rfl⟩
  | block | choice | choiceElse | loop => exact leads_cons rfl _
  | declare _ _ _ static typed =>
    simp only [List.append_assoc]
    cases static with
    | absent => exact typed.leads.append _
    | present => exact leads_cons rfl _
  | eval _ _ ih => exact (Leads.append ih _).startsStatement
  | splicedBranch _ ih | bareBranch _ _ ih => exact ih
  | noArguments | argument | moreArguments | noOperands | oneOperand | moreOperands | noSections | outputs | inputs
  | clobbers | noStatements | moreStatements => trivial

theorem PastedNames.after {us vs : List Token} {t : Token} {fragments more : List String}
    (h : PastedNames ts fragments) (first : PastedNames us more) (same : ts = us ++ t :: vs) :
    t.lexeme = .punct .paste := by
  induction first generalizing ts fragments with
  | nil => cases h <;> cases same; rfl
  | cons _ _ _ _ ih =>
    cases h with
    | nil => cases same
    | cons _ _ _ rest =>
      simp only [List.cons_append, List.cons.injEq] at same
      exact ih rest same.2.2

theorem Names.after {us vs : List Token} {t : Token} {ident first : Ident} (h : Names ts ident)
    (name : Names us first) (same : ts = us ++ t :: vs) : t.lexeme = .punct .paste := by
  cases h with
  | simple => cases name <;> simp at same
  | pasted _ _ more _ =>
    cases name with
    | simple =>
      simp only [List.cons_append, List.cons.injEq, List.nil_append] at same
      exact more.after .nil same.2
    | pasted _ _ rest _ =>
      simp only [List.cons_append, List.cons.injEq] at same
      exact more.after rest same.2

def Lexeme.followsName : Lexeme → Bool
  | .punct _ => true
  | .keyword k => k == .volatileKw
  | _ => false

/-- Behind a name at the front stands a mark, and behind a star there stands an operand. -/
def Phrase.GoesOn : Phrase → List Token → Prop
  | .expr _ | .chain => fun ts => ∀ us t vs ident, Names us ident → ts = us ++ t :: vs →
      t.lexeme.followsName = true ∧ (t.lexeme = .punct .star → Leads startsOperand vs)
  | _ => fun _ => True

theorem Derives.goesOn {phrase : Phrase} {tree : phrase.Tree} (h : Derives phrase ts tree) :
    phrase.GoesOn ts := by
  have noName : ∀ {x : Token} {ts us vs : List Token} {t : Token} {ident : Ident},
      (∀ text, x.lexeme ≠ .name text) → Names us ident → x :: ts ≠ us ++ t :: vs := by
    intro x ts us vs t ident other names same
    obtain ⟨pos, text, rest, rfl⟩ := names.head
    cases same
    exact other text rfl
  have behind : ∀ {x : Token} {ts us : List Token}, x.lexeme.inName = false → x.lexeme.followsName = true →
      (x.lexeme = .punct .star → Leads startsOperand us) → Phrase.chain.GoesOn ts →
      Phrase.chain.GoesOn (ts ++ x :: us) := by
    intro x ts us mark follows leads inner xs t vs ident names same
    rcases split_letters names.letters mark same with ⟨ws, rfl, rfl⟩ | ⟨rfl, rfl, rfl⟩
    · have goes := inner xs t ws ident names rfl
      exact ⟨goes.1, fun star => (goes.2 star).append _⟩
    · exact ⟨follows, leads⟩
  induction h with
  | name names =>
    intro us t vs ident first same
    have paste := names.after first same
    rw [paste]
    exact ⟨rfl, by simp⟩
  | number | character | parens | cast | addressOf =>
    exact fun us t vs ident names same => absurd same (noName (by simp) names)
  | before op => exact fun us t vs ident names same => absurd same (noName (by simp) names)
  | piece pieces | pieces pieces =>
    intro us t vs ident names same
    cases pieces with
    | text => exact absurd same (noName (by simp) names)
    | mark => exact absurd same (noName (by simp) names)
  | base _ _ ih | closed _ _ ih | chained _ ih | tighter _ _ _ ih => exact ih
  | call _ _ _ _ callee => rw [List.append_assoc]; exact behind rfl rfl (by simp) callee
  | field isArrow _ _ _ ih => exact behind (by cases isArrow <;> rfl) rfl (by cases isArrow <;> simp) ih
  | @step _ _ op _ _ _ ih => exact behind (by cases op <;> rfl) rfl (by cases op <;> simp [UnaryOp.punct]) ih
  | assembly _ _ _ _ _ _ marked _ _ opener =>
    simp only [List.append_assoc]
    cases marked with
    | absent => exact behind rfl rfl (by simp) opener
    | present => exact behind rfl rfl (by simp) opener
  | binary op _ _ second first => exact behind (by cases op <;> rfl) rfl (fun _ => second.starts) first
  | ternary _ _ _ _ _ test => rw [List.append_assoc]; exact behind rfl rfl (by simp) test
  | assign op _ _ _ first => exact behind (by cases op <;> rfl) rfl (by cases op <;> simp [AssignOp.punct]) first
  | _ => trivial

theorem Pieces.noMark {pieces : List Expr} (h : Pieces ts pieces) :
    ∀ t ∈ ts, t.lexeme ≠ .punct .colon ∧ t.lexeme ≠ .punct .comma := by
  induction h with
  | nil => simp
  | text _ _ _ ih | mark _ _ _ _ ih => simpa using ih

/-- Neither a colon nor a comma stands directly behind strings at the front, as it would in inline assembly.
    Between arguments there are commas, but no colon. -/
def Phrase.Unsectioned : Phrase → List Token → Prop
  | .expr _ | .chain => fun ts => ∀ us t vs, (∀ u ∈ us, u.lexeme.inTemplate = true) → ts = us ++ t :: vs →
      t.lexeme ≠ .punct .colon ∧ t.lexeme ≠ .punct .comma
  | .arguments => fun ts => ∀ us t vs, (∀ u ∈ us, u.lexeme.inTemplate = true) → ts = us ++ t :: vs →
      t.lexeme ≠ .punct .colon
  | _ => fun _ => True

theorem Derives.unsectioned {phrase : Phrase} {tree : phrase.Tree} (h : Derives phrase ts tree) :
    phrase.Unsectioned ts := by
  have without : ∀ {ts : List Token}, (∀ t ∈ ts, t.lexeme ≠ .punct .colon ∧ t.lexeme ≠ .punct .comma) →
      Phrase.chain.Unsectioned ts := by
    intro ts none us t vs _ same
    exact none t (by simp [same])
  have front : ∀ {x : Token} {ts : List Token}, x.lexeme.inTemplate = false → x.lexeme ≠ .punct .colon →
      Phrase.chain.Unsectioned (x :: ts) := by
    intro x ts mark other us t vs letters same
    cases us with
    | nil =>
      cases same
      refine ⟨other, fun comma => ?_⟩
      rw [comma] at mark
      cases mark
    | cons u us =>
      cases same
      have letter := letters x (by simp)
      rw [mark] at letter
      cases letter
  have behind : ∀ {x : Token} {ts us : List Token}, x.lexeme.inTemplate = false → x.lexeme ≠ .punct .colon →
      Phrase.chain.Unsectioned ts → Phrase.chain.Unsectioned (ts ++ x :: us) := by
    intro x ts us mark other inner xs t vs letters same
    rcases split_letters letters mark same with ⟨ws, rfl, rfl⟩ | ⟨rfl, rfl, rfl⟩
    · exact inner xs t ws letters rfl
    · refine ⟨other, fun comma => ?_⟩
      rw [comma] at mark
      cases mark
  induction h with
  | name names =>
    refine without fun t member => ?_
    have letter := names.letters t member
    constructor <;> intro same <;> rw [same] at letter <;> cases letter
  | number | character | parens | cast | addressOf => exact front rfl (by simp)
  | before op => exact front (by cases op <;> rfl) (by cases op <;> simp [UnaryOp.punct])
  | piece pieces | pieces pieces => exact without pieces.noMark
  | base _ _ ih | closed _ _ ih | chained _ ih | tighter _ _ _ ih => exact ih
  | argument _ ih => exact fun us t vs letters same => (ih us t vs letters same).1
  | call _ _ _ _ callee => rw [List.append_assoc]; exact behind rfl (by simp) callee
  | field isArrow _ _ _ ih => exact behind (by cases isArrow <;> rfl) (by cases isArrow <;> simp) ih
  | @step _ _ op _ _ _ ih => exact behind (by cases op <;> rfl) (by cases op <;> simp [UnaryOp.punct]) ih
  | assembly _ _ _ _ _ _ marked _ _ opener =>
    simp only [List.append_assoc]
    cases marked with
    | absent => exact behind rfl (by simp) opener
    | present => exact behind rfl (by simp) opener
  | binary op _ _ _ first => exact behind (by cases op <;> rfl) (by cases op <;> simp [BinaryOp.punct]) first
  | ternary _ _ _ _ _ test => rw [List.append_assoc]; exact behind rfl (by simp) test
  | assign op _ _ _ first => exact behind (by cases op <;> rfl) (by cases op <;> simp [AssignOp.punct]) first
  | noArguments =>
    intro us t vs _ same
    simp at same
  | moreArguments _ _ _ _ first last =>
    intro us t vs letters same
    rcases split_cases same with ⟨ws, rfl, -⟩ | ⟨-, rfl, -⟩ | ⟨ws, rfl, eq⟩
    · exact first us t ws letters rfl
    · simp
    · exact (last ws t vs (fun u member => letters u (by simp [member])) eq).1
  | _ => trivial

end MacroLift
