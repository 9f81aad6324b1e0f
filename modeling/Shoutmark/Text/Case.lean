/-! ASCII letters without their case. Keywords are compared this way, so the letters of other
scripts never take the place of a keyword's letters. -/

namespace Shoutmark.Text

/-- The text with a–z raised to A–Z and every other character as it is. -/
def upper (s : String) : String := String.ofList (s.toList.map Char.toUpper)

/-- Two words are the same when they differ at most in the case of ASCII letters. -/
def sameWord (a b : String) : Bool := upper a == upper b

/-- Every character lies below U+0080. -/
def isAscii (s : String) : Bool := s.toList.all fun c => c.toNat < 128

@[simp] theorem toList_upper (s : String) : (upper s).toList = s.toList.map Char.toUpper := by
  simp [upper]

@[simp] theorem upper_empty : upper "" = "" := rfl

theorem upper_eq_empty {s : String} : upper s = "" ↔ s = "" := by
  constructor
  · intro h
    simpa using congrArg String.toList h
  · rintro rfl
    rfl

theorem sameWord_iff {a b : String} : sameWord a b = true ↔ upper a = upper b := by
  simp [sameWord]

theorem ne_empty_of_sameWord {a b : String} (hb : b ≠ "") (h : sameWord a b = true) : a ≠ "" := by
  intro ha
  rw [sameWord_iff, ha, upper_empty] at h
  exact hb (upper_eq_empty.mp h.symm)

theorem toNat_toUpper (c : Char) :
    c.toUpper.toNat = if 97 ≤ c.toNat ∧ c.toNat ≤ 122 then c.toNat - 32 else c.toNat := by
  unfold Char.toUpper
  split
  · rename_i h
    have hlo : 97 ≤ c.val.toNat := h.1
    have hhi : c.val.toNat ≤ 122 := h.2
    have hd : ('A'.val - 'a'.val).toNat = 4294967264 := by decide
    rw [if_pos ⟨hlo, hhi⟩]
    show (c.val + ('A'.val - 'a'.val)).toNat = c.val.toNat - 32
    rw [UInt32.toNat_add, hd]
    omega
  · rename_i h
    have hc : ¬ (97 ≤ c.toNat ∧ c.toNat ≤ 122) := h
    rw [if_neg hc]

theorem toNat_toLower (c : Char) :
    c.toLower.toNat = if 65 ≤ c.toNat ∧ c.toNat ≤ 90 then c.toNat + 32 else c.toNat := by
  unfold Char.toLower
  split
  · rename_i h
    have hlo : 65 ≤ c.val.toNat := h.1
    have hhi : c.val.toNat ≤ 90 := h.2
    have hd : ('a'.val - 'A'.val).toNat = 32 := by decide
    rw [if_pos ⟨hlo, hhi⟩]
    show (c.val + ('a'.val - 'A'.val)).toNat = c.val.toNat + 32
    rw [UInt32.toNat_add, hd]
    omega
  · rename_i h
    have hc : ¬ (65 ≤ c.toNat ∧ c.toNat ≤ 90) := h
    rw [if_neg hc]

theorem toLower_eq_toLower_iff {c d : Char} :
    c.toLower = d.toLower ↔ c.toUpper = d.toUpper := by
  rw [← Char.toNat_inj, ← Char.toNat_inj, toNat_toLower, toNat_toLower, toNat_toUpper,
    toNat_toUpper]
  split <;> split <;> split <;> split <;> omega

theorem toUpper_eq_iff {c d : Char} (hd : d.toNat < 65 ∨ 122 < d.toNat) :
    c.toUpper = d ↔ c = d := by
  rw [← Char.toNat_inj, ← Char.toNat_inj, toNat_toUpper]
  split <;> omega

theorem upper_eq_iff {s t : String} (ht : ∀ c ∈ t.toList, c.toNat < 65 ∨ 122 < c.toNat) :
    upper s = t ↔ s = t := by
  have chars (l m : List Char) (hm : ∀ c ∈ m, c.toNat < 65 ∨ 122 < c.toNat) :
      l.map Char.toUpper = m ↔ l = m := by
    induction l generalizing m with
    | nil => simp
    | cons c l ih =>
      cases m with
      | nil => simp
      | cons d m =>
        have hl := ih m fun e he => hm e (List.mem_cons_of_mem d he)
        rw [List.map_cons, List.cons.injEq, List.cons.injEq, hl,
          toUpper_eq_iff (hm d List.mem_cons_self)]
  rw [← String.toList_inj, ← String.toList_inj, toList_upper, chars _ _ ht]

theorem upper_append (a b : String) : upper (a ++ b) = upper a ++ upper b := by
  apply String.toList_inj.mp
  simp

theorem upper_join (l : List String) : upper (String.join l) = String.join (l.map upper) := by
  induction l with
  | nil => rfl
  | cons s l ih => rw [String.join_cons, upper_append, ih, List.map_cons, String.join_cons]

theorem upper_intercalate (s : String) (l : List String) :
    upper (s.intercalate l) = (upper s).intercalate (l.map upper) := by
  induction l with
  | nil => rfl
  | cons a l ih =>
    cases l with
    | nil => simp
    | cons b l => rw [String.intercalate_cons_cons, upper_append, upper_append, ih]; simp

theorem isAscii_upper (s : String) : isAscii (upper s) = isAscii s := by
  unfold isAscii
  rw [toList_upper, List.all_map]
  congr 1
  funext c
  have hc : c.toUpper.toNat < 128 ↔ c.toNat < 128 := by
    rw [toNat_toUpper]
    split <;> omega
  simp [hc]

end Shoutmark.Text
