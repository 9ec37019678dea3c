import MacroLift.Proofs.Grammar.RoundTrip.Expression

namespace MacroLift

open MacroLift.Parser

variable {spelling : Number → String} {parameters : List String} {ts us : List Token} {next : Option Lexeme}
  {e : Expr}

def Phrase.AssignsOrNot (parameters : List String) (next : Option Lexeme) :
    (phrase : Phrase) → List Token → phrase.Tree → Prop
  | .expr rank, ts, e => rank = 1 → Reads parameters (.expr 2) ts e next ∨
      ∃ op pos, (⟨.punct (AssignOp.punct op), pos⟩ : Token) ∈ ts
  | _, _, _ => True

theorem Reads.assignsOrNot {phrase : Phrase} {tree : phrase.Tree} (h : Reads parameters phrase ts tree next) :
    phrase.AssignsOrNot parameters next ts tree := by
  cases h with
  | tighter _ _ inner =>
    rintro rfl
    exact .inl inner
  | assign op pos => exact fun _ => .inr ⟨op, pos, by simp⟩
  | binary op =>
    intro same
    cases op <;> cases same
  | _ => first | exact trivial | exact fun same => absurd same (by omega)

theorem isBinary_of_product {setting : Setting} {type name : List Token} {typeName declared : Ident}
    {starPos : Pos} {op : AssignOp}
    (h : Reads setting.parameters (.expr 1) (type ++ ⟨.punct .star, starPos⟩ :: name) e (some (.punct op.punct)))
    (typed : Names type typeName) (named : Names name declared) : e.isBinary = true := by
  have assigns : Phrase.AssignsOrNot _ _ (.expr 1) _ e := h.assignsOrNot
  rcases assigns rfl with tight | ⟨op', pos, member⟩
  · have product : Reads setting.parameters (.expr 2) (type ++ ⟨.punct .star, starPos⟩ :: name) _
        (some (.punct op.punct)) := .product typed named
    obtain ⟨rest, behind⟩ := exists_ahead (some (.punct op.punct))
    have stop : continuedRank (some (.punct op.punct)) < 2 := by rw [continuedRank_assign]; omega
    have one := tight.runs.parses (by omega) (by omega) (Nat.le_succ _) behind stop
    have other := product.runs.parses (by omega) (by omega) (Nat.le_succ _) behind stop
    rw [(one.unique other).1]
    rfl
  · have letter := typed.product named starPos _ member
    cases op' <;> cases letter

theorem OpensDeclaration.of_assignment {op : AssignOp} {pos : Pos}
    (h : OpensDeclaration (ts ++ ⟨.punct op.punct, pos⟩ :: us)) :
    OpensDeclaration ts ∨ ∃ type starPos name typeName declared,
      ts = type ++ ⟨.punct .star, starPos⟩ :: name ∧ Names type typeName ∧ Names name declared := by
  obtain ⟨type, starPos, name, assignPos, vs, typeName, declared, split, typed, named⟩ := h
  have mark : Lexeme.inType (.punct op.punct) = false := by cases op <;> rfl
  rcases split_letters (typed.product named starPos) mark split with ⟨cs, rfl, -⟩ | ⟨rfl, -⟩
  · exact .inl ⟨type, starPos, name, assignPos, cs, typeName, declared, rfl, typed, named⟩
  · exact .inr ⟨type, starPos, name, typeName, declared, rfl, typed, named⟩

theorem eq_assign_of_rank (low : ¬ 2 ≤ e.rank) : ∃ pos op target value, e = .assign pos op target value := by
  unfold Expr.rank at low
  split at low
  case h_1 pos op target value => exact ⟨pos, op, target, value, rfl⟩
  case h_3 op _ _ =>
    have bounds := op.rank_bounds
    omega
  all_goals exact absurd low (by omega)

@[simp] theorem Expr.isBinary_unplaced (e : Expr) : e.unplaced.isBinary = e.isBinary := by
  cases e <;> rfl

theorem notDeclaration_print (e : Expr) (printable : e.IsPrintable spelling) :
    ¬ OpensDeclaration (laid (e.print spelling)) := by
  let setting : Setting := ⟨nowhere, []⟩
  have h : ReadsPrinted setting.parameters spelling e := readsPrinted e printable
  -- only an assignment has the mark of a declaration
  by_cases tight : 2 ≤ e.rank
  · have reading : Reads setting.parameters (.expr 2) _ _ none := h.ranked 2 none (by omega) tight (by omega) rfl
    exact reading.notDeclaration (Nat.zero_le 1)
  · obtain ⟨pos, op, target, value, rfl⟩ := eq_assign_of_rank tight
    intro opens
    have text : laid ((Expr.assign pos op target value).print spelling) =
        laid (enclosedIf target.isBinary (target.print spelling)) ++ ⟨.punct op.punct, nowhere⟩ ::
          laid (enclosedIf (decide (value.rank < 2)) (value.print spelling)) := by
      simp [Expr.print]
    rw [text] at opens
    cases binary : target.isBinary with
    | true =>
      obtain ⟨type, starPos, name, assignPos, vs, typeName, declared, split, typed, -⟩ := opens
      obtain ⟨_, _, _, rfl⟩ := typed.head
      rw [binary, laid_enclosed] at split
      cases split
    | false =>
      rw [binary] at opens
      rcases opens.of_assignment with opens | ⟨type, starPos, name, typeName, declared, split, typed, named⟩
      · exact notDeclaration_print target printable.1 opens
      · have targeted : ReadsPrinted setting.parameters spelling target := readsPrinted target printable.1
        have same : laid (target.print spelling) = type ++ ⟨.punct .star, starPos⟩ :: name := split
        have reading := targeted.whole (follows_assign op)
        rw [same] at reading
        have product := isBinary_of_product reading typed named
        rw [target.isBinary_unplaced, binary] at product
        cases product
termination_by sizeOf e

theorem noElse_of_starts (h : Leads Lexeme.startsStatement ts) (next : Option Lexeme) :
    ahead ts next ≠ some (.keyword .elseKw) := by
  obtain ⟨t, us, rfl, starts⟩ := h
  intro same
  rw [Option.some.inj same] at starts
  cases starts

def ReadsStatement (parameters : List String) (spelling : Number → String) (s : Stmt) : Prop :=
  ∀ next, next ≠ some (.keyword .elseKw) → Reads parameters .statement (laid (s.print spelling)) s.unplaced next

theorem reads_moreStmts {ss : List Stmt} (readable : ∀ s ∈ ss, ReadsStatement parameters spelling s)
    {read : List Stmt} (front : ∀ next, next ≠ some (.keyword .elseKw) → Reads parameters .statements ts read next)
    (noElse : next ≠ some (.keyword .elseKw)) :
    Reads parameters .statements (ts ++ laid (printStmts spelling ss)) (read ++ unplacedStmts ss) next := by
  induction ss generalizing ts read with
  | nil => simpa [printStmts, unplacedStmts] using front next noElse
  | cons s ss ih =>
    obtain ⟨first, more⟩ := List.forall_mem_cons.mp readable
    have grown := ih more fun next noElse => by
      have last := first next noElse
      exact .moreStatements (front _ (noElse_of_starts last.derives.starts next)) last
    simpa [printStmts, unplacedStmts] using grown

theorem reads_braces {ss : List Stmt} (readable : ∀ s ∈ ss, ReadsStatement parameters spelling s)
    (next : Option Lexeme) :
    Reads parameters .branch
      (⟨.punct .leftBrace, nowhere⟩ :: laid (printStmts spelling ss) ++ [⟨.punct .rightBrace, nowhere⟩])
      (unplacedStmts ss) next := by
  have inner : Reads parameters .statements ([] ++ laid (printStmts spelling ss)) ([] ++ unplacedStmts ss)
      (some (.punct .rightBrace)) := reads_moreStmts readable (fun _ _ => .noStatements) nofun
  exact .splicedBranch (.block nowhere nowhere inner)

theorem readsStatement_eval {pos : Pos} (h : ReadsPrinted parameters spelling e)
    (noDeclaration : ¬ OpensDeclaration (laid (e.print spelling))) :
    ReadsStatement parameters spelling (.eval pos e) := by
  intro next _
  have reading : Reads parameters .statement _ (.eval e.unplaced.pos e.unplaced) next :=
    .eval nowhere (h.whole rfl) noDeclaration
  rw [Expr.pos_unplaced] at reading
  simpa [Stmt.print, Stmt.unplaced] using reading

theorem readsStatement_declare {pos : Pos} {type : CType} {name : Ident} (typed : type.IsPrintable)
    (named : name.IsPrintable) (h : ReadsPrinted parameters spelling e) (isStatic : Bool) :
    ReadsStatement parameters spelling (.declare pos type name e isStatic) := by
  intro next _
  have typeName := CType.typeName_print typed
  have marked : Optional (.keyword .staticKw) (laid (if isStatic then [.keyword .staticKw] else [])) isStatic := by
    cases isStatic
    · exact .absent
    · exact .present nowhere
  have start : StartsAt (laid (if isStatic then [.keyword .staticKw] else []) ++ laid type.print) nowhere := by
    rw [← laid_append]
    refine startsAt_laid ?_
    rw [laid_append]
    exact fun none => typeName.leads.ne_nil (List.append_eq_nil_iff.mp none).2
  have reading : Reads parameters .statement _ (.declare nowhere type.unplaced name.unplaced e.unplaced _) next :=
    .declare nowhere nowhere start marked typeName .absent (fun _ => rfl) (Ident.names_print named) (h.whole rfl)
  simpa [Stmt.print, Stmt.unplaced] using reading

theorem readsStatement_block {pos : Pos} {body : List Stmt}
    (inner : ∀ s ∈ body, ReadsStatement parameters spelling s) :
    ReadsStatement parameters spelling (.block pos body) := by
  intro next _
  have statements : Reads parameters .statements ([] ++ laid (printStmts spelling body)) ([] ++ unplacedStmts body)
      (some (.punct .rightBrace)) := reads_moreStmts inner (fun _ _ => .noStatements) nofun
  have reading : Reads parameters .statement _ (.block nowhere _) next := .block nowhere nowhere statements
  simpa [Stmt.print, Stmt.unplaced] using reading

theorem readsStatement_choice {pos : Pos} {whenTrue whenFalse : List Stmt} (h : ReadsPrinted parameters spelling e)
    (first : ∀ s ∈ whenTrue, ReadsStatement parameters spelling s)
    (second : ∀ s ∈ whenFalse, ReadsStatement parameters spelling s) :
    ReadsStatement parameters spelling (.choice pos e whenTrue whenFalse) := by
  intro next noElse
  cases whenFalse with
  | nil =>
    have reading : Reads parameters .statement _ (.choice nowhere e.unplaced (unplacedStmts whenTrue) []) next :=
      .choice nowhere nowhere nowhere (h.whole rfl) (reads_braces first _) noElse
    simpa [Stmt.print, Stmt.unplaced, unplacedStmts] using reading
  | cons s ss =>
    have reading : Reads parameters .statement _
        (.choice nowhere e.unplaced (unplacedStmts whenTrue) (unplacedStmts (s :: ss))) next :=
      .choiceElse nowhere nowhere nowhere nowhere (h.whole rfl) (reads_braces first _) (reads_braces second _)
    simpa [Stmt.print, Stmt.unplaced] using reading

theorem readsStatement_loop {pos : Pos} {body : List Stmt} (h : ReadsPrinted parameters spelling e)
    (inner : ∀ s ∈ body, ReadsStatement parameters spelling s) :
    ReadsStatement parameters spelling (.loop pos body e) := by
  intro next _
  have reading : Reads parameters .statement _ (.loop nowhere (unplacedStmts body) e.unplaced) next :=
    .loop nowhere nowhere nowhere nowhere (reads_braces inner _) (h.whole rfl) (.present nowhere) nofun
  simpa [Stmt.print, Stmt.unplaced] using reading

mutual

theorem readsStatement : (s : Stmt) → s.IsPrintable spelling → ReadsStatement parameters spelling s
  | .eval _ value, printable => readsStatement_eval (readsPrinted value printable)
    (notDeclaration_print value printable)
  | .declare _ _ _ value isStatic, ⟨type, name, inner⟩ =>
    readsStatement_declare type name (readsPrinted value inner) isStatic
  | .block _ body, inner => readsStatement_block (readStatements body inner)
  | .choice _ condition whenTrue whenFalse, ⟨test, first, second⟩ =>
    readsStatement_choice (readsPrinted condition test) (readStatements whenTrue first)
      (readStatements whenFalse second)
  | .loop _ body condition, ⟨inner, test⟩ =>
    readsStatement_loop (readsPrinted condition test) (readStatements body inner)
  | .placeholder _ _, missing => missing.elim

theorem readStatements : (ss : List Stmt) → StmtsPrintable spelling ss →
    ∀ s ∈ ss, ReadsStatement parameters spelling s
  | [], _ => List.forall_mem_nil _
  | s :: ss, ⟨first, more⟩ => List.forall_mem_cons.mpr ⟨readsStatement s first, readStatements ss more⟩

end

/-- The text that is printed for a tree is accepted as a body, laid out in any way and with any parameters, and
    it is read as that tree, up to places. -/
theorem body_print (spelling : Number → String) (setting : Setting) (b : Body) (printable : b.IsPrintable spelling)
    {ts : List Token} (printed : ts.map Token.lexeme = b.print spelling) :
    ∃ b', body setting ts = .ok b' ∧ b'.unplaced = b.unplaced := by
  have same : SameText (laid (b.print spelling)) ts := by
    rw [SameText, printed, laid, List.map_map]
    exact (List.map_id _).symm
  cases b with
  | statement pos s =>
    have reading : Reads setting.parameters .statement (laid (s.print spelling)) s.unplaced none :=
      readsStatement s printable none nofun
    have whole : ReadsBody setting _ (.statement nowhere s.unplaced) :=
      .statement (startsAt_laid reading.derives.starts.ne_nil) reading
    obtain ⟨b', relaid, alike⟩ := whole.relaid same rfl
    rw [Body.unplaced, Stmt.unplaced_unplaced] at alike
    exact ⟨b', body_eq_ok_iff.mpr relaid, alike⟩
  | expression pos e =>
    have reading : Reads setting.parameters (.expr 1) (laid (e.print spelling)) e.unplaced none :=
      (readsPrinted e printable).whole rfl
    have whole : ReadsBody setting _ (.expression nowhere e.unplaced) :=
      .expression (startsAt_laid reading.derives.starts.ne_nil) reading
    obtain ⟨b', relaid, alike⟩ := whole.relaid same rfl
    rw [Body.unplaced, Expr.unplaced_unplaced] at alike
    exact ⟨b', body_eq_ok_iff.mpr relaid, alike⟩
  | both => exact printable.elim

theorem body_print_assignment :
    let x : Expr := .name nowhere (.simple nowhere "x")
    let y : Expr := .name nowhere (.simple nowhere "y")
    let value : Expr :=
      .cast nowhere (.named nowhere (.simple nowhere "t") false) (.unary nowhere .negate .before x)
    let b : Body :=
      .statement nowhere (.eval nowhere (.assign nowhere .plain (.binary nowhere .multiply x y) value))
    ∃ b', body ⟨⟨1, 18⟩, ["x", "t"]⟩
        [⟨.punct .leftParen, ⟨1, 1⟩⟩, ⟨.name "x", ⟨1, 2⟩⟩, ⟨.punct .star, ⟨1, 4⟩⟩, ⟨.name "y", ⟨1, 6⟩⟩,
          ⟨.punct .rightParen, ⟨1, 7⟩⟩, ⟨.punct .assign, ⟨1, 9⟩⟩, ⟨.punct .leftParen, ⟨1, 11⟩⟩,
          ⟨.name "t", ⟨1, 12⟩⟩, ⟨.punct .rightParen, ⟨1, 13⟩⟩, ⟨.punct .leftParen, ⟨1, 14⟩⟩,
          ⟨.punct .minus, ⟨1, 15⟩⟩, ⟨.name "x", ⟨1, 16⟩⟩, ⟨.punct .rightParen, ⟨1, 17⟩⟩,
          ⟨.punct .semicolon, ⟨1, 18⟩⟩] = .ok b' ∧
      b'.unplaced = b.unplaced := by
  intro x y value b
  exact body_print Number.text _ b ⟨⟨trivial, trivial⟩, trivial, trivial⟩ rfl

end MacroLift
