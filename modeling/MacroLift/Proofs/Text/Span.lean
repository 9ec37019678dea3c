import Mathlib.Data.List.TakeWhile

namespace MacroLift.Text

variable {p : Char → Bool} {run follow run' follow' : List Char}

section

variable (inside : ∀ c ∈ run, p c = true) (outside : ∀ c ∈ follow.head?, p c = false)

include inside outside

theorem takeWhile_run : (run ++ follow).takeWhile p = run := by
  rw [List.takeWhile_append_of_pos inside]
  cases follow with
  | nil => simp
  | cons c follow => simp [outside c rfl]

theorem dropWhile_run : (run ++ follow).dropWhile p = follow := by
  rw [List.dropWhile_append_of_pos inside]
  cases follow with
  | nil => simp
  | cons c follow => simp [outside c rfl]

theorem run_append_inj (inside' : ∀ c ∈ run', p c = true) (outside' : ∀ c ∈ follow'.head?, p c = false)
    (same : run ++ follow = run' ++ follow') : run = run' ∧ follow = follow' := by
  have taken := congrArg (List.takeWhile p) same
  have left := congrArg (List.dropWhile p) same
  rw [takeWhile_run inside outside, takeWhile_run inside' outside'] at taken
  rw [dropWhile_run inside outside, dropWhile_run inside' outside'] at left
  exact ⟨taken, left⟩

end

end MacroLift.Text
