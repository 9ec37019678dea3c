import MacroLift.Proofs.Grammar.Advance

namespace MacroLift.Parser

variable {α : Type} {setting : Setting} {ts rest : List Token} {size : Nat} {g h : Nested}

structure ConcurBelow (setting : Setting) (size : Nat) (g h : Nested) : Prop where
  statement {us : List Token} : us.length < size → Concur setting us 1 g.statement h.statement
  expression {us : List Token} : us.length < size → Concur setting us 1 g.expression h.expression
  conditional {us : List Token} : us.length < size → Concur setting us 1 g.conditional h.conditional
  operand {us : List Token} : us.length < size → Concur setting us 1 g.operand h.operand

section

variable {p q : Parser α} {round round' : α → Parser (Option α)}

theorem ConcurRound.concur {first second : Parser (Option α)} (alike : ConcurRound setting ts first second) :
    Concur setting ts 0 first second := by
  refine ⟨alike.same, fun {found rest} read => ?_⟩
  cases found with
  | some a => exact ⟨(alike.takes read).1, (alike.takes read).1.length_le⟩
  | none =>
    obtain rfl := alike.declines read
    exact ⟨List.suffix_rfl, Nat.le_refl _⟩

theorem Concur.repeated (rounds : ∀ a us, us.length ≤ ts.length → ConcurRound setting us (round a) (round' a)) (a : α) :
    Concur setting ts 0 (repeated round a) (repeated round' a) := by
  have bounded (n : Nat) : ∀ (us : List Token) (a : α), us.length ≤ ts.length →
      Concur setting us 0 (repeatAtMost round n a) (repeatAtMost round' n a) := by
    induction n with
    | zero => exact fun us a _ => concur_pure a
    | succ n ih =>
      intro us a fits
      refine (rounds a us fits).concur.bind fun found rest _ shorter => ?_
      cases found with
      | some b => exact ih rest b (Nat.le_trans shorter fits)
      | none => exact concur_pure a
  have concur := bounded ts.length ts a (Nat.le_refl _)
  exact ⟨concur.same, concur.leaves⟩

theorem concurRound_comma (item : ∀ us, us.length < ts.length → Concur setting us 1 p q) (read : List α) :
    ConcurRound setting ts (commaRound p read) (commaRound q read) where
  same := by
    have concur : Concur setting ts 0 (commaRound p read) (commaRound q read) := by
      refine concur_ifAccept (fun pos us cut => ?_) (concur_pure none)
      refine ((item us ?_).build _).weaken
      rw [cut]
      exact Nat.lt_succ_self _
    exact concur.same
  takes took := by
    obtain ⟨pos, us, a, rfl, first, -⟩ := parses_commaRound_some.mp took
    exact leaves_cons _ ((item us (Nat.lt_succ_self _)).leaves first)
  declines declined := (parses_commaRound_none.mp declined).1.symm

theorem concurRound_operator {ω : Type} {operand operand' : Parser Expr} (op? : Lexeme → Option ω)
    (join : Expr → ω → Expr → Expr) (left : Expr)
    (right : ∀ us, us.length < ts.length → Concur setting us 1 operand operand') :
    ConcurRound setting ts (operatorRound op? operand join left) (operatorRound op? operand' join left) where
  same := by
    have concur : Concur setting ts 0 (operatorRound op? operand join left) (operatorRound op? operand' join left) := by
      refine concur_ifAcceptAs (fun op t us cut => ?_) (concur_pure none)
      refine ((right us ?_).build _).weaken
      rw [cut]
      exact Nat.lt_succ_self _
    exact concur.same
  takes took := by
    obtain ⟨t, us, op, e, rfl, -, read, -⟩ := parses_operatorRound_some.mp took
    exact leaves_cons t ((right us (Nat.lt_succ_self _)).leaves read)
  declines declined := (parses_operatorRound_none.mp declined).1.symm

end

theorem concur_strings (start : Leads Lexeme.startsPiece ts) : Concur setting ts 1 strings strings := by
  refine ⟨rfl, fun {e rest} read => ?_⟩
  obtain ⟨used, rfl, pieces⟩ := parses_strings start read
  refine leaves_append ?_
  rcases pieces with one | ⟨_, _, _, -, many⟩
  · exact List.length_pos_iff.mpr one.leads.ne_nil
  · exact List.length_pos_iff.mpr many.leads.ne_nil

theorem concur_number {text : String} {pos : Pos} {us : List Token} :
    Concur setting (⟨.number text, pos⟩ :: us) 1 (number text) (number text) := by
  refine ⟨rfl, fun {e rest} read => ?_⟩
  obtain ⟨suffixes, value, marks, rfl, -⟩ := parses_number read
  have one : 1 ≤ (⟨.number text, pos⟩ :: suffixes : List Token).length := Nat.le_add_left _ _
  exact leaves_append one

section

variable (below : ConcurBelow setting size g h)
include below

theorem concur_primary (fits : ts.length ≤ size) : Concur setting ts 1 (primary g) (primary h) := by
  unfold primary
  refine concur_peek ?_
  split
  case h_1 opened | h_2 opened =>
    obtain ⟨pos, us, rfl⟩ := exists_of_ahead opened
    exact concur_strings (leads_cons rfl us)
  case h_3 opened =>
    obtain ⟨pos, us, rfl⟩ := exists_of_ahead opened
    exact concur_number
  case h_4 opened =>
    obtain ⟨pos, us, rfl⟩ := exists_of_ahead opened
    exact concur_place (concur_skipToken (concur_pure _))
  case h_5 => exact concur_place (concur_ident.build _)
  case h_6 opened =>
    obtain ⟨pos, us, rfl⟩ := exists_of_ahead opened
    refine concur_skipToken ((below.expression fits).bindShorter fun _ _ _ _ => ?_).weaken
    exact concur_close _ _ _
  case h_7 => exact concur_mismatch _

theorem concur_moreArguments (first : List Expr) (fits : ts.length ≤ size) :
    Concur setting ts 0 (moreArguments g first) (moreArguments h first) := by
  rw [moreArguments_eq, moreArguments_eq]
  refine Concur.repeated (fun read us shorter => concurRound_comma (fun vs inside => below.expression ?_) read) first
  omega

theorem concur_call (e : Expr) (inside : ts.length < size) : Concur setting ts 1 (call g e) (call h e) := by
  unfold call
  split
  · refine concur_ifAccept (fun pos rest _ => concur_pure _) ?_
    refine (below.expression inside).bindShorter fun argument rest _ shorter => ?_
    refine (concur_moreArguments below [argument] (by omega)).bind fun arguments rest' _ shorter' => ?_
    exact concur_close _ _ _
  · exact concur_failAt _ _

theorem concurRound_chainLink (e : Expr) (fits : ts.length ≤ size) :
    ConcurRound setting ts (chainLink g e) (chainLink h e) where
  same := by
    have field {t : Token} {us : List Token} (isArrow : Bool) : Concur setting (t :: us) 1
        (do skip; let name ← ident; pure (some (Expr.field e.pos e name isArrow)))
        (do skip; let name ← ident; pure (some (Expr.field e.pos e name isArrow))) :=
      concur_skipToken (concur_ident.build _).weaken
    have concur : Concur setting ts 0 (chainLink g e) (chainLink h e) := by
      unfold chainLink
      refine concur_peek ?_
      split
      case h_1 opened =>
        obtain ⟨pos, us, rfl⟩ := exists_of_ahead opened
        exact (concur_skipToken ((concur_call below e fits).build _).weaken).weaken
      case h_2 opened | h_3 opened =>
        obtain ⟨pos, us, rfl⟩ := exists_of_ahead opened
        exact (field _).weaken
      case h_4 => exact concur_pure _
    exact concur.same
  takes took := by
    rcases parses_chainLink_some.mp took with ⟨pos, us, rfl, called⟩ | ⟨isArrow, pos, us, name, rfl, named, -⟩
    · exact leaves_cons _ ((concur_call below e fits).leaves called)
    · exact leaves_cons _ (concur_ident.leaves named)
  declines declined := (parses_chainLink_none.mp declined).1.symm

theorem concur_chain (e : Expr) (fits : ts.length ≤ size) : Concur setting ts 0 (chain g e) (chain h e) := by
  unfold chain
  refine Concur.bind (.repeated (fun e us _ => concurRound_chainLink below e (by omega)) e) fun linked rest _ _ => ?_
  exact concur_ifAcceptAs (fun _ _ _ _ => concur_pure _) (concur_pure _)

theorem concur_asmOperand (fits : ts.length ≤ size) : Concur setting ts 1 (asmOperand g) (asmOperand h) := by
  unfold asmOperand
  refine concur_place (concur_asmName.bind fun name us _ _ => ?_)
  refine (concur_expectAs _ _).bindShorter fun constraint vs _ _ => ?_
  refine ((concur_expect _ _).bindShorter fun _ ws _ shorter => ?_).weaken
  refine ((below.expression (by omega)).bindShorter fun value rest _ _ => ?_).weaken
  exact concur_close _ _ _

theorem concur_asmOperands (fits : ts.length ≤ size) : Concur setting ts 0 (asmOperands g) (asmOperands h) := by
  have operands : Concur setting ts 1
      (asmOperand g >>= fun first => repeated (commaRound (asmOperand g)) [first])
      (asmOperand h >>= fun first => repeated (commaRound (asmOperand h)) [first]) := by
    refine (concur_asmOperand below fits).bindShorter fun first us _ shorter => ?_
    exact .repeated (fun read vs _ => concurRound_comma (fun ws _ => concur_asmOperand below (by omega)) read) [first]
  unfold asmOperands
  refine concur_peek ?_
  split
  · exact operands.weaken
  · exact operands.weaken
  · exact concur_pure _

theorem concur_asmSections (fits : ts.length ≤ size) : Concur setting ts 0 (asmSections g) (asmSections h) := by
  unfold asmSections
  refine concur_ifAccept (fun pos us cut => ?_) (concur_pure _)
  rw [cut, List.length_cons] at fits
  refine (concur_asmOperands below (by omega)).bind fun outputs vs _ shorter => ?_
  refine concur_ifAccept (fun pos us cut => ?_) (concur_pure _)
  rw [cut, List.length_cons] at shorter
  refine (concur_asmOperands below (by omega)).bind fun inputs ws _ _ => ?_
  refine concur_ifAccept (fun pos us cut => ?_) (concur_pure _)
  exact concur_clobbers.bind fun _ _ _ _ => concur_pure _

theorem concur_assembly (pos : Pos) (fits : ts.length ≤ size) :
    Concur setting ts 1 (assembly g pos) (assembly h pos) := by
  unfold assembly
  refine (concur_accept _).bind fun isVolatile us _ _ => (concur_expect _ _).bindShorter fun _ vs _ _ => ?_
  refine ((concur_expectAs _ _).bindShorter fun first ws _ _ => ?_).weaken
  refine concur_templateLines.bind fun more rest _ _ => ?_
  refine (concur_asmSections below (by omega)).bind fun sections rest' _ _ => ?_
  exact concur_close _ _ _

theorem concur_cast (fits : ts.length ≤ size) : Concur setting ts 1 (cast g) (cast h) := by
  rw [cast_eq, cast_eq]
  refine concur_place ((concur_expect _ _).bindShorter fun _ us _ _ => ?_)
  refine (concur_ctype.bindShorter fun target vs _ _ => ?_).weaken
  refine ((concur_expect _ _).bindShorter fun _ ws _ _ => concur_peek ?_).weaken
  have operand (pos : Pos) : Concur setting ws 1
      (do let operand ← g.operand; pure (Expr.cast pos target operand))
      (do let operand ← h.operand; pure (Expr.cast pos target operand)) :=
    (below.operand (by omega)).build _
  have tested : Concur setting ws 0 (isParameter target) (isParameter target) :=
    concur_stay fun _ _ read => (parses_isParameter.mp read).2
  refine tested.bind fun found rest read _ => ?_
  obtain ⟨-, rfl⟩ := parses_isParameter.mp read
  exact .ite _ ((concur_failAt _ _).bind fun _ _ failed _ => absurd failed parses_failAt) (operand _).weaken

theorem concur_postfixed (fits : ts.length ≤ size) : Concur setting ts 1 (postfixed g) (postfixed h) := by
  unfold postfixed
  refine (concur_primary below fits).bindShorter fun e rest _ _ => ?_
  refine .ite _ (concur_pure e) (.ite _ ?_ (concur_chain below e (by omega)))
  refine (concur_assembly below e.pos (by omega)).weaken.attempt (fun _ _ _ => concur_pure _) ?_
  exact concur_chain below e (by omega)

theorem concur_prefixed (fits : ts.length ≤ size) : Concur setting ts 1 (prefixed g) (prefixed h) := by
  have behind {t : Token} {us : List Token} (fits : us.length < size) (build : Pos → Expr → Expr) :
      Concur setting (t :: us) 1
        (do let pos ← place; skip; let operand ← g.operand; pure (build pos operand))
        (do let pos ← place; skip; let operand ← h.operand; pure (build pos operand)) :=
    concur_place (concur_skipToken ((below.operand fits).build _).weaken)
  unfold prefixed
  refine concur_peek ?_
  split
  case h_1 => exact (concur_cast below fits).attempt (fun _ _ _ => concur_pure _) (concur_postfixed below fits)
  case h_2 opened =>
    obtain ⟨pos, us, rfl⟩ := exists_of_ahead opened
    exact behind fits _
  case h_3 =>
    cases operator : (ahead ts none).bind prefixOp? with
    | some op =>
      obtain ⟨l, opened, -⟩ := Option.bind_eq_some_iff.mp operator
      obtain ⟨pos, us, rfl⟩ := exists_of_ahead opened
      exact behind fits _
    | none => exact concur_postfixed below fits

theorem concurRound_roundAt {rank : Nat} (left : Expr) (fits : ts.length ≤ size)
    (operand : ∀ us, us.length ≤ size → Concur setting us 1 (atRank g (rank + 1)) (atRank h (rank + 1))) :
    ConcurRound setting ts (roundAt g rank left) (roundAt h rank left) := by
  unfold roundAt
  split
  · exact concurRound_operator _ _ left fun us inside => below.conditional (by omega)
  · exact concurRound_operator _ _ left fun us inside => operand us (by omega)

theorem concur_row {rank : Nat} (isRepeated : isRepeated rank = true) (fits : ts.length ≤ size)
    (operand : ∀ us, us.length ≤ size → Concur setting us 1 (atRank g (rank + 1)) (atRank h (rank + 1))) :
    Concur setting ts 1 (atRank g rank) (atRank h rank) := by
  rw [atRank_eq isRepeated, atRank_eq isRepeated]
  refine (operand ts fits).bindShorter fun e rest _ shorter => ?_
  exact .repeated (fun left us _ => concurRound_roundAt below left (by omega) operand) e

theorem concur_conditional_of_equality (fits : ts.length ≤ size)
    (test : Concur setting ts 1 (equality g) (equality h)) :
    Concur setting ts 1 (conditional g) (conditional h) := by
  unfold conditional
  refine test.bindShorter fun condition us _ shorter => ?_
  refine concur_ifAccept (fun pos vs cut => ?_) (concur_pure condition)
  rw [cut, List.length_cons] at shorter
  refine ((below.conditional (by omega)).bindShorter fun whenTrue ws _ _ => ?_).weaken
  refine ((concur_expect _ _).bindShorter fun _ ws' _ _ => ?_).weaken
  exact ((below.conditional (by omega)).build _).weaken

-- from the tightest rank to the loosest: what a rank joins is of the rank behind it
theorem concur_atRank (rank : Nat) : ∀ us : List Token, us.length ≤ size →
    Concur setting us 1 (atRank g rank) (atRank h rank) := by
  by_cases tight : 8 ≤ rank
  · intro us fits
    rcases (by omega : rank = 8 ∨ rank = 9 ∨ 10 ≤ rank) with rfl | rfl | primary
    · exact concur_prefixed below fits
    · exact concur_postfixed below fits
    · obtain ⟨more, rfl⟩ := Nat.exists_eq_add_of_le' primary
      exact concur_primary below fits
  have operand := concur_atRank (rank + 1)
  intro us fits
  cases isRow : isRepeated rank with
  | true => exact concur_row below isRow fits operand
  | false =>
    have loose : rank = 0 ∨ rank = 2 := by
      have apart : ¬ (rank = 1 ∨ 3 ≤ rank ∧ rank ≤ 7) := fun row => absurd (isRepeated_iff.mpr row) (by simp [isRow])
      omega
    rcases loose with rfl | rfl
    · exact concur_primary below fits
    · exact concur_conditional_of_equality below fits (operand us fits)
termination_by 8 - rank

theorem concur_expression (fits : ts.length ≤ size) : Concur setting ts 1 (expression g) (expression h) :=
  concur_atRank below 1 ts fits

theorem concur_conditional (fits : ts.length ≤ size) : Concur setting ts 1 (conditional g) (conditional h) :=
  concur_atRank below 2 ts fits

theorem concurRound_statement (read : List Stmt) (inside : ts.length < size) :
    ConcurRound setting ts (statementRound g read) (statementRound h read) where
  same := by
    have concur : Concur setting ts 0 (statementRound g read) (statementRound h read) := by
      unfold statementRound
      refine concur_peek ?_
      split
      · exact concur_pure _
      · exact concur_pure _
      · exact ((below.statement inside).build _).weaken
    exact concur.same
  takes took := by
    obtain ⟨-, s, first, -⟩ := parses_statementRound_some.mp took
    exact (below.statement inside).leaves first
  declines declined := (parses_statementRound_none.mp declined).1.symm

theorem concur_block (fits : ts.length ≤ size) : Concur setting ts 1 (block g) (block h) := by
  unfold block
  refine concur_place ((concur_expect _ _).bindShorter fun _ us _ _ => ?_)
  rw [blockBody_eq, blockBody_eq]
  refine Concur.bind (.repeated (fun read vs _ => concurRound_statement below read (by omega)) []) ?_
  exact fun _ _ _ _ => concur_close _ _ _

theorem concur_branch (inside : ts.length < size) : Concur setting ts 1 (branch g) (branch h) :=
  (below.statement inside).build _

theorem concur_condition (fits : ts.length ≤ size) : Concur setting ts 1 (condition g) (condition h) := by
  unfold condition
  refine (concur_expect _ _).bindShorter fun _ us _ _ => ?_
  refine ((below.expression (by omega)).bindShorter fun _ _ _ _ => ?_).weaken
  exact concur_close _ _ _

theorem concur_choice (fits : ts.length ≤ size) : Concur setting ts 1 (choice g) (choice h) := by
  unfold choice
  have shorter := ts.tail_suffix.length_le
  refine concur_place (concur_skip ((concur_condition below (by omega)).bindShorter fun test us _ _ => ?_))
  refine ((concur_branch below (by omega)).bindShorter fun whenTrue vs _ shorter' => ?_).weaken
  refine concur_ifAccept (fun pos ws cut => ?_) (concur_pure _)
  rw [cut, List.length_cons] at shorter'
  exact ((concur_branch below (by omega)).build _).weaken

theorem concur_loop (inside : ts.tail.length < size) : Concur setting ts 1 (loop g) (loop h) := by
  unfold loop
  refine concur_place (concur_skip ((concur_branch below inside).bindShorter fun body us _ _ => ?_))
  refine ((concur_expect _ _).bindShorter fun _ vs _ _ => ?_).weaken
  refine ((concur_condition below (by omega)).bindShorter fun test ws _ _ => ?_).weaken
  exact (concur_accept _).bind fun _ _ _ _ => concur_pure _

theorem concur_declaration (fits : ts.length ≤ size) : Concur setting ts 1 (declaration g) (declaration h) := by
  rw [declaration_eq, declaration_eq]
  refine concur_place ((concur_accept _).bind fun isStaticBefore us _ _ => ?_)
  refine concur_ctype.bindShorter fun type vs _ _ => ?_
  have marked : Concur setting vs 0 (staticBehind isStaticBefore) (staticBehind isStaticBefore) :=
    .ite _ (concur_pure true) (concur_accept _)
  refine marked.bind fun isStatic ws _ _ => (concur_ident.bindShorter fun name xs _ _ => ?_).weaken
  refine ((concur_expect _ _).bindShorter fun _ ys _ _ => ?_).weaken
  refine ((below.expression (by omega)).bindShorter fun value zs _ _ => ?_).weaken
  exact concur_close _ _ _

theorem concur_evaluation (fits : ts.length ≤ size) : Concur setting ts 1 (evaluation g) (evaluation h) := by
  unfold evaluation
  refine (concur_expression below fits).bindShorter fun e us _ _ => ?_
  exact concur_close _ _ _

theorem concur_statement (fits : ts.length ≤ size) : Concur setting ts 1 (statement g) (statement h) := by
  unfold statement
  refine concur_peek ?_
  split
  case h_1 => exact concur_block below fits
  case h_2 => exact concur_choice below fits
  case h_3 opened =>
    obtain ⟨pos, us, rfl⟩ := exists_of_ahead opened
    exact concur_loop below fits
  case h_4 =>
    exact (concur_declaration below fits).attempt (fun _ _ _ => concur_pure _) (concur_evaluation below fits)

theorem ConcurBelow.level : ConcurBelow setting (size + 1) g.level h.level where
  statement inside := concur_statement below (Nat.le_of_lt_succ inside)
  expression inside := concur_expression below (Nat.le_of_lt_succ inside)
  conditional inside := concur_conditional below (Nat.le_of_lt_succ inside)
  operand inside := concur_prefixed below (Nat.le_of_lt_succ inside)

end

end MacroLift.Parser
