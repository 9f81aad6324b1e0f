import Shoutmark.Token.Scan

/-! A scanner that can be driven one character at a time. It holds a source, a position in it, the
pieces of the word being built and the words finished so far; whatever a step leaves behind, the
next whole reading starts from nothing. -/

namespace Shoutmark.Token

structure Scanner where
  source : String
  position : Nat
  pending : List String
  tokens : List String
  deriving DecidableEq, Repr

namespace Scanner

def fresh : Scanner := ⟨"", 0, [], []⟩

def lexeme (s : Scanner) : String := String.join s.pending

/-- Puts another source under the scanner and leaves the rest as it is. -/
def load (source : String) (s : Scanner) : Scanner := { s with source }

/-- The next character, empty at the end of the source, and the scanner past it. -/
def next (s : Scanner) : String × Scanner :=
  match s.source.toList[s.position]? with
  | some c => (String.singleton c, { s with position := s.position + 1 })
  | none => ("", s)

def push (piece : String) (s : Scanner) : Scanner :=
  { s with pending := s.pending ++ [piece] }

/-- Finishes the word being built, if a piece of one was added. -/
def flush (s : Scanner) : Scanner :=
  if s.pending.isEmpty then s else { s with tokens := s.tokens ++ [s.lexeme], pending := [] }

/-- Every character of a nonempty text is an ASCII letter or digit, or the text is one URL sign. -/
def canContinue (piece : String) : Bool :=
  match piece.toList with
  | [] => false
  | [c] => continuesSpecial c
  | cs => cs.all Char.isAlphanum

/-- Takes the special word whose first character has just been read, whatever that character is.
A word that is not valid is the failure, and the scanner has passed it too. -/
def special (s : Scanner) : Except String String × Scanner :=
  let cs := s.source.toList
  let stop := s.position + ((cs.drop s.position).takeWhile continuesSpecial).length
  let start := if s.position = 0 then cs.length - 1 else s.position - 1
  let word := String.ofList ((cs.drop start).take (stop - start))
  (if isValidSpecial word then .ok word else .error word, { s with position := stop })

/-- Takes the special word whose first character has just been read for the next word. -/
def addSpecial (s : Scanner) : Except String Unit × Scanner :=
  match s.special with
  | (.ok word, s) => (.ok (), { s with tokens := s.tokens ++ [word] })
  | (.error word, s) => (.error word, s)

/-- Does with the character just read what it asks for. A separator finishes the word being built, a
mark finishes it and opens a special word, and every other character goes into it. -/
def digest (c : Char) (s : Scanner) : Except String Unit × Scanner :=
  if isSeparator c then (.ok (), s.flush)
  else if c = specialMark then s.flush.addSpecial
  else (.ok (), s.push (String.singleton c))

theorem flush_source (s : Scanner) : s.flush.source = s.source := by
  rw [flush]
  split <;> rfl

theorem flush_position (s : Scanner) : s.flush.position = s.position := by
  rw [flush]
  split <;> rfl

theorem addSpecial_onward (s : Scanner) :
    s.addSpecial.2.source = s.source ∧ s.position ≤ s.addSpecial.2.position := by
  have hs : s.special.2.source = s.source ∧ s.position ≤ s.special.2.position :=
    ⟨rfl, Nat.le_add_right _ _⟩
  rw [addSpecial]
  split
  · rename_i h
    rw [h] at hs
    exact hs
  · rename_i h
    rw [h] at hs
    exact hs

/-- No character makes the scanner read another source or go back in it. -/
theorem digest_onward (c : Char) (s : Scanner) :
    (digest c s).2.source = s.source ∧ s.position ≤ (digest c s).2.position := by
  rw [digest]
  split
  · exact ⟨flush_source s, Nat.le_of_eq (flush_position s).symm⟩
  · split
    · have h := addSpecial_onward s.flush
      rwa [flush_source, flush_position] at h
    · exact ⟨rfl, Nat.le_refl _⟩

/-- Reads on from where the scanner is. A special word that is not valid is the failure, and nothing
after it is read. -/
def readOn (s : Scanner) : Except String Unit × Scanner :=
  match _hc : s.source.toList[s.position]? with
  | none => (.ok (), s.flush)
  | some c =>
    match _hd : digest c s.next.2 with
    | (.ok (), after) => readOn after
    | (.error word, after) => (.error word, after)
termination_by s.source.length - s.position
decreasing_by
  have hlt : s.position < s.source.length := (List.getElem?_eq_some_iff.mp _hc).1
  obtain ⟨hsource, hposition⟩ := digest_onward c s.next.2
  rw [_hd] at hsource hposition
  simp only [next, _hc] at hsource hposition
  rw [hsource]
  omega

/-- Reads a whole source from a clean start, whatever the scanner held before. -/
def tokenize (source : String) (s : Scanner) : Except String (List String) × Scanner :=
  match readOn { s with source, position := 0, pending := [], tokens := [] } with
  | (.ok (), s) => (.ok s.tokens, s)
  | (.error word, s) => (.error word, s)

end Scanner

end Shoutmark.Token
