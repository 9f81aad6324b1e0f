/-! Byte order marks, line ends, and texts cut at a separator. -/

namespace Shoutmark.Text

/-- The text without the byte order mark before it, if there is one. -/
def dropByteOrderMark : List Char → List Char
  | '\uFEFF' :: rest => rest
  | cs => cs

/-- Every CR LF pair and every other CR becomes one LF. -/
def unifyLineEnds : List Char → List Char
  | [] => []
  | '\r' :: '\n' :: rest => '\n' :: unifyLineEnds rest
  | c :: rest => (if c = '\r' then '\n' else c) :: unifyLineEnds rest

/-- The parts of a text between the places where a character stands: one more than there are such
places. -/
def splitOn (separator : Char) : List Char → List (List Char)
  | [] => [[]]
  | c :: rest =>
    if c = separator then [] :: splitOn separator rest
    else
      match splitOn separator rest with
      | [] => [[c]]
      | part :: parts => (c :: part) :: parts

theorem splitOn_ne_nil (separator : Char) (cs : List Char) : splitOn separator cs ≠ [] := by
  cases cs with
  | nil => simp [splitOn]
  | cons c rest =>
    rw [splitOn]
    split
    · simp
    · split <;> simp

theorem splitOn_of_not_mem {separator : Char} {cs : List Char} (h : separator ∉ cs) :
    splitOn separator cs = [cs] := by
  induction cs with
  | nil => rfl
  | cons c rest ih =>
    rw [List.mem_cons, not_or] at h
    rw [splitOn, if_neg (Ne.symm h.1), ih h.2]

theorem splitOn_append {separator : Char} {a b part : List Char} {parts : List (List Char)}
    (h : separator ∉ a) (hb : splitOn separator b = part :: parts) :
    splitOn separator (a ++ b) = (a ++ part) :: parts := by
  induction a with
  | nil => exact hb
  | cons c a ih =>
    rw [List.mem_cons, not_or] at h
    rw [List.cons_append, splitOn, if_neg (Ne.symm h.1), ih h.2]
    rfl

theorem not_mem_of_mem_splitOn {separator : Char} {cs part : List Char}
    (h : part ∈ splitOn separator cs) : separator ∉ part := by
  induction cs generalizing part with
  | nil =>
    rw [splitOn, List.mem_singleton] at h
    rw [h]
    exact List.not_mem_nil
  | cons c rest ih =>
    obtain ⟨first, parts, hrest⟩ := List.exists_cons_of_ne_nil (splitOn_ne_nil separator rest)
    rw [hrest] at ih
    rw [splitOn, hrest] at h
    split at h
    · rcases List.mem_cons.mp h with rfl | h
      · exact List.not_mem_nil
      · exact ih h
    · rename_i hc
      rcases List.mem_cons.mp h with rfl | h
      · exact List.not_mem_cons_of_ne_of_not_mem (Ne.symm hc) (ih List.mem_cons_self)
      · exact ih (List.mem_cons_of_mem _ h)

theorem intercalate_splitOn (separator : Char) (cs : List Char) :
    [separator].intercalate (splitOn separator cs) = cs := by
  induction cs with
  | nil => simp [splitOn]
  | cons c rest ih =>
    rw [splitOn]
    have hne := splitOn_ne_nil separator rest
    split
    · rename_i h
      cases hs : splitOn separator rest with
      | nil => exact absurd hs hne
      | cons p ps =>
        rw [hs] at ih
        simp [List.intercalate, h] at ih ⊢
        exact ih
    · cases hs : splitOn separator rest with
      | nil => exact absurd hs hne
      | cons p ps =>
        rw [hs] at ih
        cases ps <;> simp_all [List.intercalate]

end Shoutmark.Text
