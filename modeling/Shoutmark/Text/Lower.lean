import Shoutmark.Text.LowerTable

/-! Full lower-casing of a text. Nearly every capital has one small letter; U+0130 has two
characters, and the capital sigma looks at its neighbours: it takes its final form after a letter
when no letter follows. -/

namespace Shoutmark.Text

private def inRanges (ranges : List (Nat × Nat)) (c : Char) : Bool :=
  ranges.any fun r => r.1 ≤ c.toNat && c.toNat ≤ r.2

/-- The character is passed over when looking for the letter beside a sigma. -/
def isCaseIgnorable (c : Char) : Bool := inRanges caseIgnorableRanges c

/-- The character is a letter that has a case. -/
def isCased (c : Char) : Bool := inRanges casedRanges c

/-- The first character that is not passed over is a letter. -/
def startsWithLetter (cs : List Char) : Bool :=
  match cs.dropWhile isCaseIgnorable with
  | c :: _ => isCased c
  | [] => false

/-- The small letters of a character on its own. -/
def lowerChar (c : Char) : List Char :=
  if c = '\u0130' then ['i', '\u0307']
  else
    match capitalRuns.find? fun (first, last, step, _) =>
        first ≤ c.toNat && c.toNat ≤ last && (c.toNat - first) % step == 0 with
    | some (_, _, _, shift) => [Char.ofNat (c.toNat + shift).toNat]
    | none => [c]

/-- Lower-cases what follows `before`, which holds the characters passed, nearest first. -/
def lowerAfter (before : List Char) : List Char → List Char
  | [] => []
  | c :: rest =>
    let small :=
      if c = 'Σ' then
        if startsWithLetter before && !startsWithLetter rest then ['ς'] else ['σ']
      else lowerChar c
    small ++ lowerAfter (c :: before) rest

/-- Only the dotted capital I has more than one small letter. -/
theorem length_lowerChar (c : Char) :
    (lowerChar c).length = if c = '\u0130' then 2 else 1 := by
  rw [lowerChar]
  split
  · rfl
  · split <;> rfl

/-- What stands before a text does not change how many small letters it has. -/
theorem length_lowerAfter (before cs : List Char) :
    (lowerAfter before cs).length = cs.length + cs.count '\u0130' := by
  induction cs generalizing before with
  | nil => rfl
  | cons c rest ih =>
    rw [lowerAfter, List.length_append, ih, List.length_cons, List.count_cons]
    by_cases hs : c = 'Σ'
    · subst hs
      have hd : ('Σ' == '\u0130') = false := by decide
      rw [if_pos rfl, hd]
      split <;> simp <;> omega
    · rw [if_neg hs, length_lowerChar]
      by_cases hd : c = '\u0130'
      · simp [hd]
        omega
      · simp [hd]
        omega

/-- A text in small letters ends in its own ending in small letters, as written where it stands. -/
theorem lowerAfter_append (before a b : List Char) :
    ∃ x, lowerAfter before (a ++ b) = x ++ lowerAfter (a.reverse ++ before) b := by
  induction a generalizing before with
  | nil => exact ⟨[], rfl⟩
  | cons c a ih =>
    obtain ⟨x, hx⟩ := ih (c :: before)
    rw [List.cons_append, lowerAfter, hx, List.reverse_cons, List.append_assoc]
    exact ⟨_, (List.append_assoc _ _ _).symm⟩

/-- Without a capital sigma no character looks at its neighbours. -/
theorem lowerAfter_of_no_sigma {cs : List Char} (h : 'Σ' ∉ cs) (before : List Char) :
    lowerAfter before cs = cs.flatMap lowerChar := by
  induction cs generalizing before with
  | nil => rfl
  | cons c rest ih =>
    rw [List.mem_cons, not_or] at h
    rw [lowerAfter, if_neg (Ne.symm h.1), ih h.2, List.flatMap_cons]

def lower (s : String) : String := String.ofList (lowerAfter [] s.toList)

theorem lower_of_small {s : String} (h : ∀ c ∈ s.toList, lowerChar c = [c]) : lower s = s := by
  have hsigma : 'Σ' ∉ s.toList := fun hmem => absurd (h 'Σ' hmem) (by decide)
  rw [lower, lowerAfter_of_no_sigma hsigma]
  have hsame (cs : List Char) (hcs : ∀ c ∈ cs, lowerChar c = [c]) : cs.flatMap lowerChar = cs := by
    induction cs with
    | nil => rfl
    | cons c cs ih =>
      obtain ⟨hc, hcs⟩ := List.forall_mem_cons.mp hcs
      rw [List.flatMap_cons, hc, ih hcs, List.singleton_append]
  rw [hsame _ h, String.ofList_toList]

theorem length_lower (s : String) :
    (lower s).length = s.length + s.toList.count '\u0130' := by
  rw [lower, String.length_ofList, length_lowerAfter, String.length_toList]

/-- The text ends with `ending` once both are in small letters. -/
def endsWithAnyCase (s ending : String) : Bool :=
  (lower ending).toList.isSuffixOf (lower s).toList

end Shoutmark.Text
