import Shoutmark.Text.Case

/-! Blank characters, and texts without the blanks around them. -/

namespace Shoutmark.Text

/-- The white space of Unicode together with the four separators U+001C to U+001F. -/
def isBlank (c : Char) : Bool :=
  let n := c.toNat
  (0x09 ≤ n && n ≤ 0x0D) || (0x1C ≤ n && n ≤ 0x20) || n == 0x85 || n == 0xA0 || n == 0x1680 ||
    (0x2000 ≤ n && n ≤ 0x200A) || n == 0x2028 || n == 0x2029 || n == 0x202F || n == 0x205F ||
    n == 0x3000

/-- The text from its first to its last character that is not blank. -/
def strip (s : String) : String :=
  String.ofList ((s.toList.dropWhile isBlank).reverse.dropWhile isBlank).reverse

theorem strip_eq_self {s : String}
    (first : ∀ c, s.toList.head? = some c → isBlank c = false)
    (last : ∀ c, s.toList.getLast? = some c → isBlank c = false) : strip s = s := by
  have kept (cs : List Char) (h : ∀ c, cs.head? = some c → isBlank c = false) :
      cs.dropWhile isBlank = cs := by
    cases cs with
    | nil => rfl
    | cons c cs => rw [List.dropWhile_cons, h c rfl, if_neg Bool.false_ne_true]
  have hlast : ∀ c, s.toList.reverse.head? = some c → isBlank c = false := by
    simpa only [List.head?_reverse] using last
  rw [strip, kept _ first, kept _ hlast, List.reverse_reverse, String.ofList_toList]

/-- No letter is blank, so blanks are not changed by capitals. -/
theorem isBlank_toUpper (c : Char) : isBlank c.toUpper = isBlank c := by
  unfold isBlank
  rw [toNat_toUpper]
  split
  · rename_i h
    have hc : c.toNat = c.toNat - 32 + 32 := by omega
    grind
  · rfl

theorem isBlank_toLower (c : Char) : isBlank c.toLower = isBlank c := by
  unfold isBlank
  rw [toNat_toLower]
  split
  · rename_i h
    grind
  · rfl

theorem upper_strip (s : String) : upper (strip s) = strip (upper s) := by
  have hb : isBlank ∘ Char.toUpper = isBlank := funext isBlank_toUpper
  apply String.toList_inj.mp
  simp only [strip, toList_upper, String.toList_ofList, List.dropWhile_map, hb,
    ← List.map_reverse]

end Shoutmark.Text
