import MacroLift.Proofs.Batch.Translator
import MacroLift.Proofs.Grammar.Marks
import MacroLift.Proofs.Usage.Classification

namespace MacroLift

def Lexeme.joins : Lexeme → Bool
  | .punct p => p == .paste || p == .hash
  | _ => false

/-- Tokens that the marks hold together: pasted names, a name behind `#`, a number with the suffixes pasted to it;
    or one other token. The nodes use the names of the first two as names. -/
inductive Clump (nodes : List Node) : List Token → Prop where
  | token {t : Token} (plain : t.lexeme.joins = false) : Clump nodes [t]
  | names {ts : List Token} {ident : Ident} (names : Names ts ident)
      (used : ∀ name ∈ ident.fragments, ∃ node ∈ nodes, node.UsesAsName name) : Clump nodes ts
  | stringified (pos namePos : Pos) (name : String) (used : ∃ node ∈ nodes, node.UsesAsName name) :
      Clump nodes [⟨.punct .hash, pos⟩, ⟨.name name, namePos⟩]
  | number {suffixes : List Token} {value : Number} {marks : Marks} (pos : Pos) (text : String)
      (found : Number.ofText? text = some value) (pasted : Suffixes value.marks suffixes marks)
      (unpasted : value.isFloat = true → suffixes = []) : Clump nodes (⟨.number text, pos⟩ :: suffixes)

inductive Joined (nodes : List Node) : List Token → Prop where
  | nil : Joined nodes []
  | clump {us ts : List Token} (clump : Clump nodes us) (more : Joined nodes ts) : Joined nodes (us ++ ts)

namespace Joined

variable {ts us : List Token} {ns ms : List Node}

theorem of_clump (clump : Clump ns ts) : Joined ns ts := by
  rw [← List.append_nil ts]
  exact .clump clump .nil

theorem token {t : Token} (plain : t.lexeme.joins = false) (more : Joined ns ts) : Joined ns (t :: ts) :=
  .clump (.token plain) more

theorem transfer (h : Joined ns ts)
    (sub : ∀ name, (∃ node ∈ ns, node.UsesAsName name) → ∃ node ∈ ms, node.UsesAsName name) : Joined ms ts := by
  induction h with
  | nil => exact .nil
  | clump clump _ ih =>
    refine .clump ?_ ih
    cases clump with
    | token plain => exact .token plain
    | names names used => exact .names names fun name member => sub name (used name member)
    | stringified pos namePos name used => exact .stringified pos namePos name (sub name used)
    | number pos text found pasted unpasted => exact .number pos text found pasted unpasted

theorem mono (h : Joined ns ts) (sub : ns ⊆ ms) : Joined ms ts :=
  h.transfer fun _ ⟨node, held, used⟩ => ⟨node, sub held, used⟩

theorem followed (first : Joined ns ts) (second : Joined ns us) : Joined ns (ts ++ us) := by
  induction first with
  | nil => exact second
  | clump clump _ ih =>
    rw [List.append_assoc]
    exact .clump clump ih

theorem append (first : Joined ns ts) (second : Joined ms us) : Joined (ns ++ ms) (ts ++ us) :=
  (first.mono (List.subset_append_left ns ms)).followed (second.mono (List.subset_append_right ns ms))

theorem node (h : Joined ns ts) (node : Node) : Joined (node :: ns) ts :=
  h.mono (List.subset_cons_self node ns)

theorem of_plain (plain : ∀ t ∈ ts, t.lexeme.joins = false) : Joined ns ts := by
  induction ts with
  | nil => exact .nil
  | cons t ts ih =>
    rw [List.forall_mem_cons] at plain
    exact .token plain.1 (ih plain.2)

theorem before (first : Joined ns ts) (plain : ∀ t ∈ us, t.lexeme.joins = false) : Joined ns (ts ++ us) :=
  first.followed (of_plain plain)

theorem inParens (inner : Joined ns ts) (openPos closePos : Pos) :
    Joined ns (⟨.punct .leftParen, openPos⟩ :: ts ++ [⟨.punct .rightParen, closePos⟩]) :=
  .token rfl (inner.before (by simp [Lexeme.joins]))

end Joined

variable {ts us : List Token} {nodes : List Node} {node : Node} {ident : Ident} {type : CType}

theorem AllConst.unjoined (h : AllConst ts) : ∀ t ∈ ts, t.lexeme.joins = false := by
  intro t member
  rw [h t member]
  rfl

theorem Levels.unjoined {result : CType} (h : Levels type ts result) : ∀ t ∈ ts, t.lexeme.joins = false := by
  induction h with
  | none => simp
  | star pos const _ ih =>
    exact List.forall_mem_append.mpr ⟨List.forall_mem_cons.mpr ⟨rfl, const.unjoined⟩, ih⟩

theorem unjoined_of_inTemplate {l : Lexeme} (h : l.inTemplate = true) : l.joins = false := by
  unfold Lexeme.inTemplate at h
  split at h
  · rfl
  · rfl
  · cases h

theorem UnaryOp.unjoined (op : UnaryOp) : Lexeme.joins (.punct op.punct) = false := by
  cases op <;> rfl

theorem BinaryOp.unjoined (op : BinaryOp) : Lexeme.joins (.punct op.punct) = false := by
  cases op <;> rfl

theorem AssignOp.unjoined (op : AssignOp) : Lexeme.joins (.punct op.punct) = false := by
  cases op <;> rfl

theorem Names.joined (h : Names ts ident) (held : ident ∈ node.heldNames) : Joined (node :: nodes) ts :=
  .of_clump (.names h fun _ fragment => ⟨node, List.mem_cons_self, .pasted held fragment⟩)

theorem TypeName.joined (h : TypeName ts type) (held : type.baseName ∈ node.heldNames) :
    Joined (node :: nodes) ts := by
  obtain ⟨start, constBefore, struct, names, constBehind, pointers⟩ := h
  rw [pointers.baseName] at held
  have front : Joined (node :: nodes) _ := (Joined.of_plain constBefore.unjoined).before (struct.none rfl)
  exact ((front.followed (names.joined held)).before constBehind.unjoined).before pointers.unjoined

theorem Pieces.joined {pieces : List Expr} (h : Pieces ts pieces) : Joined (nodesOfExprs pieces) ts := by
  induction h with
  | nil => exact .nil
  | text pos text _ ih => exact .token rfl (ih.node _)
  | mark pos namePos text _ ih =>
    exact .clump (.stringified pos namePos text ⟨_, List.mem_cons_self, .stringified pos namePos⟩) (ih.node _)

theorem Joined.called {pos : Pos} (h : Joined [.expr (.name pos ident)] ts) (arguments : List Expr) :
    Joined [.expr (.call pos ident arguments)] ts := by
  refine h.transfer fun name ⟨_, held, used⟩ => ⟨_, List.mem_singleton.mpr rfl, ?_⟩
  cases List.mem_singleton.mp held
  cases used with
  | pasted held member => exact .pasted held member

theorem Joined.drop (h : Joined (node :: nodes) ts) (unused : ∀ name, ¬ node.UsesAsName name) :
    Joined nodes ts := by
  refine h.transfer fun name ⟨_, held, used⟩ => ?_
  rcases List.mem_cons.mp held with rfl | held
  · exact absurd used (unused name)
  · exact ⟨_, held, used⟩

theorem Derives.joined {phrase : Phrase} {tree : phrase.Tree} (h : Derives phrase ts tree) :
    Joined (phrase.nodes tree) ts := by
  induction h with
  | name names => exact names.joined (List.mem_singleton.mpr rfl)
  | number pos text found pasted unpasted => exact .of_clump (.number pos text found pasted unpasted)
  | character => exact .token rfl .nil
  | piece pieces =>
    have all := pieces.joined
    rwa [nodesOfExprs, nodesOfExprs, List.append_nil] at all
  | pieces pieces => exact pieces.joined.node _
  | parens openPos closePos _ ih => exact ih.inParens openPos closePos
  | base _ _ ih | closed _ _ ih | chained _ ih | tighter _ _ _ ih => exact ih
  | @call _ _ _ _ arguments openPos closePos _ _ callee inner =>
    have all := (callee.called arguments).append (inner.inParens openPos closePos)
    rw [← List.append_assoc] at all
    exact all
  | @field _ _ e name isArrow _ _ names ih =>
    have named : Joined (.expr (.field e.pos e name isArrow) :: e.nodes) _ :=
      names.joined (List.mem_singleton.mpr rfl)
    exact (ih.node _).followed (.token (by cases isArrow <;> rfl) named)
  | @step _ _ op _ _ _ ih => exact (ih.before (List.forall_mem_cons.mpr ⟨op.unjoined, by simp⟩)).node _
  | @assembly _ _ template _ _ _ _ _ _ _ openPos firstPos _ first _ _ marked more _ opener behind =>
    have plain : ∀ t ∈ (⟨.punct .leftParen, openPos⟩ : Token) :: ⟨.string first, firstPos⟩ :: template,
        t.lexeme.joins = false :=
      List.forall_mem_cons.mpr ⟨rfl, List.forall_mem_cons.mpr ⟨rfl, fun t member =>
        unjoined_of_inTemplate (more.letters t member)⟩⟩
    have word : Joined [] _ := opener.drop fun name used => by
      cases used with
      | pasted held member =>
        cases List.mem_singleton.mp held
        cases member
    have front := (word.before (marked.none rfl)).before plain
    exact ((front.append behind).before (by simp [Lexeme.joins])).node _
  | @cast _ _ target e openPos closePos type _ ih =>
    have typed : Joined (.expr (.cast openPos target e) :: e.nodes) _ := type.joined (List.mem_singleton.mpr rfl)
    have all := (typed.inParens openPos closePos).followed (ih.node _)
    simpa using all
  | addressOf pos _ ih => exact .token rfl (ih.node _)
  | before op pos _ ih => exact .token op.unjoined (ih.node _)
  | binary op pos _ _ first second => exact (first.append (.token op.unjoined second)).node _
  | ternary _ _ _ _ _ test first second =>
    exact ((test.append (.token rfl first)).append (.token rfl second)).node _
  | assign op pos _ _ first second => exact (first.append (.token op.unjoined second)).node _
  | noArguments | noOperands | noSections | noStatements => exact .nil
  | argument _ ih | oneOperand _ ih | bareBranch _ _ ih => simpa using ih
  | moreArguments commaPos _ _ _ first last | moreOperands commaPos _ _ _ first last =>
    have all := first.append (.token (t := ⟨.punct .comma, commaPos⟩) rfl last)
    simpa using all
  | operand constraintPos openPos closePos constraint start named _ ih =>
    have value := Joined.token (t := ⟨.string constraint, constraintPos⟩) rfl (ih.inParens openPos closePos)
    cases named with
    | none => exact value.node _
    | bracketed => exact .token rfl (.token rfl (.token rfl (value.node _)))
  | outputs _ _ ih => exact .token rfl (by simpa using ih)
  | inputs _ _ _ _ written read => exact .token rfl (written.append (.token rfl read))
  | @clobbers _ _ vs _ _ _ pos nextPos lastPos _ _ clobbered written read =>
    have plain : ∀ t ∈ (⟨.punct .colon, lastPos⟩ : Token) :: vs, t.lexeme.joins = false :=
      List.forall_mem_cons.mpr ⟨rfl, fun t member => unjoined_of_inTemplate (clobbered.letters t member)⟩
    exact .token rfl ((written.append (.token (t := ⟨.punct .colon, nextPos⟩) rfl read)).before plain)
  | block _ _ _ ih => exact .token rfl ((ih.before (by simp [Lexeme.joins])).node _)
  | choice _ openPos closePos _ _ condition whenTrue =>
    have all := (condition.inParens openPos closePos).append whenTrue
    refine .token rfl (Joined.node ?_ _)
    simpa using all
  | choiceElse _ openPos closePos elsePos _ _ _ condition whenTrue whenFalse =>
    have all := ((condition.inParens openPos closePos).append whenTrue).append
      (.token (t := ⟨.keyword .elseKw, elsePos⟩) rfl whenFalse)
    refine .token rfl (Joined.node ?_ _)
    simpa using all
  | loop _ whilePos openPos closePos _ _ stop inner condition =>
    have test := (condition.inParens openPos closePos).before (stop.none rfl)
    have all := inner.append (.token (t := ⟨.keyword .whileKw, whilePos⟩) rfl test)
    refine .token rfl (Joined.node ?_ _)
    simpa using all
  | @declare _ _ _ _ _ pos type name value first second assignPos stopPos _ static typed late _ names _ ih =>
    let node : Node := .stmt (.declare pos type name value (first || second))
    have typed : Joined (node :: value.nodes) _ := typed.joined List.mem_cons_self
    have named : Joined (node :: value.nodes) _ := names.joined (List.mem_cons_of_mem _ List.mem_cons_self)
    have front := ((Joined.of_plain (static.none rfl)).followed typed).before (late.none rfl)
    exact ((front.followed named).followed (.token rfl (ih.node node))).before (by simp [Lexeme.joins])
  | eval _ _ ih => exact (ih.before (by simp [Lexeme.joins])).node _
  | splicedBranch _ ih =>
    refine ih.drop fun name used => ?_
    cases used with
    | pasted held _ => cases held
  | moreStatements _ _ first last =>
    have all := first.append last
    simpa using all

variable {setting : Setting} {b : Body}

theorem DerivesBody.joined (h : DerivesBody setting ts b) : Joined b.nodes ts := by
  cases h with
  | empty => exact .nil
  | statement _ inner | expression _ inner => exact inner.joined

/-- What stands between these tokens is next to a paste mark or right behind `#`. -/
def IsBesideMark (before after : List Token) : Prop :=
  (∃ t, before.getLast? = some t ∧ t.lexeme.joins = true) ∨ ∃ t, after.head? = some t ∧ t.lexeme = .punct .paste

/-- The token behind these is read as a suffix of an integer, alone or with further ones in front of it. -/
def IsIntegerSuffix (before : List Token) (t : Token) : Prop :=
  ∃ front text pos value suffixes marks,
    before = front ++ ⟨.number text, pos⟩ :: suffixes ∧ Number.ofText? text = some value ∧
      value.isFloat = false ∧ Suffixes value.marks (suffixes ++ [t]) marks

theorem IsIntegerSuffix.behind {before : List Token} {t : Token} (h : IsIntegerSuffix before t) (us : List Token) :
    IsIntegerSuffix (us ++ before) t := by
  obtain ⟨front, text, pos, value, suffixes, marks, rfl, found, whole, pasted⟩ := h
  exact ⟨us ++ front, text, pos, value, suffixes, marks, (List.append_assoc _ _ _).symm, found, whole, pasted⟩

theorem PastedNames.mem_fragments {fragments : List String} {text : String} {pos : Pos}
    (h : PastedNames ts fragments) (member : ⟨.name text, pos⟩ ∈ ts) : text ∈ fragments := by
  induction h with
  | nil => cases member
  | cons _ _ _ _ ih =>
    rcases List.mem_cons.mp member with same | member
    · cases same
    · rcases List.mem_cons.mp member with same | member
      · cases same
        exact List.mem_cons_self
      · exact List.mem_cons_of_mem _ (ih member)

theorem Names.mem_fragments {text : String} {pos : Pos} (h : Names ts ident) (member : ⟨.name text, pos⟩ ∈ ts) :
    ts = [⟨.name text, pos⟩] ∨ text ∈ ident.fragments := by
  cases h with
  | simple =>
    cases List.mem_singleton.mp member
    exact .inl rfl
  | pasted _ _ more _ =>
    refine .inr ?_
    rcases List.mem_cons.mp member with same | member
    · cases same
      exact List.mem_cons_self
    · exact List.mem_cons_of_mem _ (more.mem_fragments member)

theorem Suffixes.upTo {first all : Marks} {text : String} {pos : Pos} {after : List Token}
    (h : Suffixes first (ts ++ ⟨.name text, pos⟩ :: after) all) :
    ∃ marks, Suffixes first (ts ++ [⟨.name text, pos⟩]) marks := by
  generalize same : ts ++ ⟨.name text, pos⟩ :: after = us at h
  induction h generalizing ts with
  | none => simp at same
  | @paste _ _ _ _ pastePos namePos other new more ih =>
    rcases ts with _ | ⟨t, _ | ⟨u, ts⟩⟩
    · cases same
    · cases same
      exact ⟨_, .paste _ _ _ new (.none _)⟩
    · simp only [List.cons_append, List.cons.injEq] at same
      obtain ⟨rfl, rfl, same⟩ := same
      obtain ⟨marks, pasted⟩ := ih same
      exact ⟨marks, .paste _ _ _ new pasted⟩

theorem Suffixes.pastedNames {first all : Marks} (h : Suffixes first ts all) :
    ∃ fragments, PastedNames ts fragments := by
  induction h with
  | none => exact ⟨[], .nil⟩
  | paste _ _ text _ _ ih =>
    obtain ⟨fragments, more⟩ := ih
    exact ⟨text :: fragments, .cons _ _ text more⟩

theorem PastedNames.last {fragments : List String} (h : PastedNames ts fragments) {t : Token}
    (plain : t.lexeme.joins = false) : ∀ last ∈ (t :: ts).getLast?, last.lexeme.joins = false := by
  induction h generalizing t with
  | nil =>
    rintro _ ⟨⟩
    exact plain
  | cons pastePos namePos text _ ih =>
    intro last member
    rw [List.getLast?_cons_cons, List.getLast?_cons_cons] at member
    exact ih rfl last member

namespace Clump

theorem head (h : Clump nodes ts) : ∃ t rest, ts = t :: rest ∧ t.lexeme ≠ .punct .paste := by
  cases h with
  | token plain =>
    refine ⟨_, _, rfl, fun same => ?_⟩
    rw [same] at plain
    cases plain
  | names names _ => cases names <;> exact ⟨_, _, rfl, nofun⟩
  | stringified => exact ⟨_, _, rfl, nofun⟩
  | number => exact ⟨_, _, rfl, nofun⟩

theorem last (h : Clump nodes ts) : ∀ t ∈ ts.getLast?, t.lexeme.joins = false := by
  cases h with
  | token plain => exact PastedNames.nil.last plain
  | names names _ =>
    cases names with
    | simple => exact PastedNames.nil.last rfl
    | pasted _ _ more _ => exact more.last rfl
  | stringified => exact PastedNames.nil.last rfl
  | number _ _ _ pasted _ =>
    obtain ⟨fragments, more⟩ := pasted.pastedNames
    exact more.last rfl

theorem used {before after : List Token} {text : String} {pos : Pos}
    (h : Clump nodes (before ++ ⟨.name text, pos⟩ :: after)) :
    (∃ node ∈ nodes, node.UsesAsName text) ∨ IsIntegerSuffix before ⟨.name text, pos⟩ ∨
      before = [] ∧ after = [] := by
  generalize same : before ++ ⟨.name text, pos⟩ :: after = ts at h
  have member : ⟨.name text, pos⟩ ∈ ts := same ▸ List.mem_append_right before List.mem_cons_self
  cases h with
  | token =>
    obtain ⟨rfl, -, rfl⟩ : before = [] ∧ _ ∧ after = [] := by simpa [List.append_eq_singleton_iff] using same
    exact .inr (.inr ⟨rfl, rfl⟩)
  | names names used =>
    rcases names.mem_fragments member with single | fragment
    · exact .inr (.inr (by simpa [List.append_eq_singleton_iff, single] using same))
    · exact .inl (used text fragment)
  | stringified _ _ _ used =>
    obtain ⟨rfl, -⟩ : text = _ ∧ pos = _ := by simpa using member
    exact .inl used
  | @number suffixes value _ numberPos number found pasted unpasted =>
    match before, same with
    | [], same => cases same
    | _ :: pastes, same =>
      obtain ⟨rfl, rfl⟩ := List.cons.inj same
      obtain ⟨marks, pasted⟩ := pasted.upTo
      have whole : value.isFloat = false := Bool.eq_false_iff.mpr fun float => by simpa using unpasted float
      exact .inr (.inl ⟨[], number, numberPos, value, pastes, marks, rfl, found, whole, pasted⟩)

end Clump

theorem Joined.head (h : Joined nodes ts) : ∀ t ∈ ts.head?, t.lexeme ≠ .punct .paste := by
  cases h with
  | nil => simp
  | clump clump _ =>
    obtain ⟨t, rest, rfl, plain⟩ := clump.head
    rintro _ ⟨⟩
    exact plain

theorem IsBesideMark.of_behind {us before after : List Token} (h : IsBesideMark (us ++ before) after)
    (plain : ∀ t ∈ us.getLast?, t.lexeme.joins = false) : IsBesideMark before after := by
  rcases h with ⟨t, last, joins⟩ | paste
  · rw [List.getLast?_append, Option.or_eq_some_iff] at last
    rcases last with last | ⟨-, last⟩
    · exact .inl ⟨t, last, joins⟩
    · rw [plain t last] at joins
      cases joins
  · exact .inr paste

theorem Joined.used {before after : List Token} {text : String} {pos : Pos}
    (h : Joined nodes (before ++ ⟨.name text, pos⟩ :: after)) (beside : IsBesideMark before after) :
    (∃ node ∈ nodes, node.UsesAsName text) ∨ IsIntegerSuffix before ⟨.name text, pos⟩ := by
  generalize same : before ++ ⟨.name text, pos⟩ :: after = ts at h
  induction h generalizing before with
  | nil => simp at same
  | @clump us ts clump more ih =>
    have later (rest : List Token) (split : before = us ++ rest) (more : rest ++ ⟨.name text, pos⟩ :: after = ts) :
        (∃ node ∈ nodes, node.UsesAsName text) ∨ IsIntegerSuffix before ⟨.name text, pos⟩ := by
      subst split
      exact (ih (beside.of_behind clump.last) more).imp id fun suffix => suffix.behind us
    rcases List.append_eq_append_iff.mp same with ⟨rest, split, same⟩ | ⟨rest, split, same⟩
    · cases rest with
      | nil => exact later [] (by simpa using split.symm) same
      | cons t rest =>
        obtain ⟨rfl, rfl⟩ := List.cons.inj same
        subst split
        rcases clump.used with used | suffix | ⟨rfl, rfl⟩
        · exact .inl used
        · exact .inr suffix
        · -- by itself, the name has the mark behind it, where the next clump starts
          rcases beside with ⟨_, last, -⟩ | ⟨t, first, paste⟩
          · cases last
          · exact absurd paste (more.head t first)
    · exact later rest split same.symm

variable {signatureText : String} {bodyLines : List String} {analysis : Analysis} {stream : Token.Stream}
  {parameter : String} {usage : Usage} {before after : List Token} {pos : Pos}

/-- A parameter whose name stands next to a paste mark or right behind `#` is an identifier, so that the macro
    becomes a pattern, unless the name is there read as a suffix of an integer. -/
theorem identifier_of_beside_mark (analyzed : analyze signatureText bodyLines = .ok analysis)
    (read : tokenize (Text.unlines bodyLines) (signatureFile signatureText) 1 = .ok stream)
    (listed : (parameter, usage) ∈ analysis.parameters)
    (place : stream.tokens = before ++ ⟨.name (bindingName parameter), pos⟩ :: after)
    (beside : IsBesideMark before after)
    (noSuffix : ¬ IsIntegerSuffix before ⟨.name (bindingName parameter), pos⟩) :
    usage = .identifier ∧ analysis.isPattern = true ∧
      ∀ tables text, translate tables signatureText bodyLines = .ok text →
        text = "\n".intercalate (Rust.patternLines tables analysis) := by
  obtain ⟨signature, stream', body, -, read', parsed, rfl⟩ := analyze_eq_ok_iff.mp analyzed
  obtain rfl : stream = stream' := Attempt.ok.inj (read.symm.trans read')
  have joined : Joined body.nodes stream.tokens := (readsBody_of_body parsed).derives.joined
  rw [place] at joined
  have used : body.UsesAsName (bindingName parameter) := (joined.used beside).resolve_right noSuffix
  obtain rfl := Analysis.identifier_of_usesAsName listed used
  have isPattern := Analysis.isPattern_of_identifier listed
  refine ⟨rfl, isPattern, fun tables text translated => ?_⟩
  rw [text_eq_item analyzed translated, Rust.item, if_pos isPattern]

theorem identifier_of_beside_mark_prefix :
    ∃ analysis usage,
      analyze "F(x)" ["prefix ## x"] = .ok analysis ∧ analysis.parameters = [("x", usage)] ∧
        usage = .identifier ∧ analysis.isPattern = true ∧
        ∀ tables text, translate tables "F(x)" ["prefix ## x"] = .ok text →
          text = "\n".intercalate (Rust.patternLines tables analysis) := by
  obtain ⟨analysis, analyzed, parameters⟩ : ∃ analysis,
      analyze "F(x)" ["prefix ## x"] = .ok analysis ∧ analysis.parameters = [("x", .identifier)] :=
    exists_ok_of_map (by decide +kernel)
  obtain ⟨stream, read, tokens⟩ : ∃ stream,
      tokenize (Text.unlines ["prefix ## x"]) (signatureFile "F(x)") 1 = .ok stream ∧
        stream.tokens =
          [⟨.name "prefix", ⟨1, 1⟩⟩, ⟨.punct .paste, ⟨1, 8⟩⟩] ++ ⟨.name (bindingName "x"), ⟨1, 11⟩⟩ :: [] :=
    exists_ok_of_map (by decide +kernel)
  refine ⟨analysis, .identifier, analyzed, parameters, ?_⟩
  refine identifier_of_beside_mark analyzed read (by simp [parameters]) tokens (.inl ⟨_, rfl, rfl⟩) ?_
  rintro ⟨front, text, pos, value, suffixes, marks, split, -⟩
  have number : ⟨.number text, pos⟩ ∈ front ++ ⟨.number text, pos⟩ :: suffixes := by simp
  rw [← split] at number
  simp at number

/-- In `1 ## u` the parameter `u` stands next to a paste mark and is read as a suffix. Nothing is then known of it,
    and the macro becomes a function. -/
theorem suffix_parameter_unknown :
    ∃ analysis stream,
      analyze "F(u)" ["1 ## u"] = .ok analysis ∧
        tokenize (Text.unlines ["1 ## u"]) (signatureFile "F(u)") 1 = .ok stream ∧
        stream.tokens = [⟨.number "1", ⟨1, 1⟩⟩, ⟨.punct .paste, ⟨1, 3⟩⟩, ⟨.name "u", ⟨1, 6⟩⟩] ∧
        analysis.parameters = [("u", .unknown)] ∧ analysis.isPattern = false := by
  obtain ⟨analysis, analyzed, parameters⟩ : ∃ analysis,
      analyze "F(u)" ["1 ## u"] = .ok analysis ∧ analysis.parameters = [("u", .unknown)] :=
    exists_ok_of_map (by decide +kernel)
  obtain ⟨stream, read, tokens⟩ : ∃ stream,
      tokenize (Text.unlines ["1 ## u"]) (signatureFile "F(u)") 1 = .ok stream ∧
        stream.tokens = [⟨.number "1", ⟨1, 1⟩⟩, ⟨.punct .paste, ⟨1, 3⟩⟩, ⟨.name "u", ⟨1, 6⟩⟩] :=
    exists_ok_of_map (by decide +kernel)
  exact ⟨analysis, stream, analyzed, read, tokens, parameters, by rw [Analysis.isPattern, parameters]; rfl⟩

end MacroLift
