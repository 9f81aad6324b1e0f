/-! The longest run of characters of a sort at the start of a text. -/

namespace Shoutmark.Text

variable {p : Char → Bool}

/-- Where a run ends by what follows it, taking its characters takes just the run. -/
theorem takeWhile_run {run rest : List Char} (hr : ∀ c ∈ run, p c = true)
    (hs : ∀ c, rest.head? = some c → p c = false) : (run ++ rest).takeWhile p = run := by
  rw [List.takeWhile_append_of_pos hr]
  cases rest with
  | nil => simp
  | cons c rest => rw [List.takeWhile_cons, hs c rfl]; simp

theorem dropWhile_run {run rest : List Char} (hr : ∀ c ∈ run, p c = true)
    (hs : ∀ c, rest.head? = some c → p c = false) : (run ++ rest).dropWhile p = rest := by
  rw [List.dropWhile_append_of_pos hr]
  cases rest with
  | nil => rfl
  | cons c rest => rw [List.dropWhile_cons, hs c rfl]; simp

theorem not_head_dropWhile {cs : List Char} {c : Char} (h : (cs.dropWhile p).head? = some c) :
    p c = false := by
  have := List.head?_dropWhile_not p cs
  rw [h] at this
  simpa using this

theorem mem_takeWhile {cs : List Char} {c : Char} (h : c ∈ cs.takeWhile p) : p c = true :=
  List.all_eq_true.mp List.all_takeWhile c h

end Shoutmark.Text
