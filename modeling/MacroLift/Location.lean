namespace MacroLift

structure Pos where
  line : Int
  column : Int
  deriving Repr, DecidableEq, Inhabited

namespace Pos

def next (p : Pos) (c : Char) : Pos :=
  if c = '\n' then ⟨p.line + 1, 1⟩ else ⟨p.line, p.column + 1⟩

def after (p : Pos) (text : List Char) : Pos :=
  text.foldl next p

protected def lt (p q : Pos) : Prop :=
  p.line < q.line ∨ p.line = q.line ∧ p.column < q.column

instance : LT Pos := ⟨Pos.lt⟩

instance (p q : Pos) : Decidable (p < q) :=
  inferInstanceAs (Decidable (p.line < q.line ∨ p.line = q.line ∧ p.column < q.column))

@[simp] theorem after_nil (p : Pos) : p.after [] = p := rfl

@[simp] theorem after_cons (p : Pos) (c : Char) (text : List Char) :
    p.after (c :: text) = (p.next c).after text := rfl

theorem after_append (p : Pos) (first second : List Char) :
    p.after (first ++ second) = (p.after first).after second :=
  List.foldl_append

theorem lt_iff (p q : Pos) : p < q ↔ p.line < q.line ∨ p.line = q.line ∧ p.column < q.column := Iff.rfl

end Pos

structure Location where
  file : String
  pos : Pos
  deriving Repr, DecidableEq

def Location.text (location : Location) : String :=
  location.file ++ ":" ++ toString location.pos.line ++ ":" ++ toString location.pos.column

end MacroLift
