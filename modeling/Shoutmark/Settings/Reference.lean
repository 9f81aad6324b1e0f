import Shoutmark.Named
import Shoutmark.Settings.EnvironmentFile

/-! References to variables inside the values of a settings file. A reference is written with a
dollar sign and the name in braces; behind the name there may stand ':-' and what to put where
nothing is known of the name. -/

namespace Shoutmark.EnvironmentFile

inductive Piece
  | plain (c : Char)
  | reference (name fallback : String)
  deriving DecidableEq, Repr

/-- The brace that ends a reference. -/
def closingBrace : Char := '\x7d'

def isReferenceName (c : Char) : Bool := c != closingBrace && c != ':'

/-- What follows the opening brace of a reference, and the text behind it. -/
def reference (inside : List Char) : Option (Piece × List Char) :=
  let name := String.ofList (inside.takeWhile isReferenceName)
  match inside.dropWhile isReferenceName with
  | ':' :: '-' :: rest =>
    match rest.dropWhile (· != closingBrace) with
    | _ :: behind =>
      some (.reference name (String.ofList (rest.takeWhile (· != closingBrace))), behind)
    | [] => none
  | c :: rest => if c = closingBrace then some (.reference name "", rest) else none
  | [] => none

theorem length_le_of_reference {inside behind : List Char} {p : Piece}
    (h : reference inside = some (p, behind)) : behind.length ≤ inside.length := by
  have hi := (List.dropWhile_sublist (l := inside) isReferenceName).length_le
  unfold reference at h
  split at h
  · rename_i rest hr
    have hd := (List.dropWhile_sublist (l := rest) (· != closingBrace)).length_le
    split at h
    · rename_i behind' hb
      cases h
      simp only [hr, hb, List.length_cons] at hi hd
      omega
    · cases h
  · rename_i c rest _ hr
    split at h
    · cases h
      simp only [hr, List.length_cons] at hi
      omega
    · cases h
  · cases h

/-- The pieces of a value. A dollar sign that opens no reference stands as it is. -/
def pieces : List Char → List Piece
  | [] => []
  | '$' :: '\x7b' :: inside =>
    match _ : reference inside with
    | some (p, behind) => p :: pieces behind
    | none => .plain '$' :: pieces ('\x7b' :: inside)
  | c :: rest => .plain c :: pieces rest
termination_by cs => cs.length
decreasing_by
  · have := length_le_of_reference ‹_›
    simp only [List.length_cons]
    omega
  · simp
  · simp

/-- What a piece stands for, given what is known of the names. -/
def Piece.expand (known : String → Option String) : Piece → List Char
  | .plain c => [c]
  | .reference name fallback => ((known name).getD fallback).toList

def expand (known : String → Option String) (value : String) : String :=
  String.ofList ((pieces value.toList).flatMap (Piece.expand known))

/-- What is known of a name: its value in the file so far, which is empty if it stands alone there,
and else its value in the environment. -/
def known (environment : List (String × String)) (file : List (String × Option String))
    (name : String) : Option String :=
  match file.lookup name with
  | some value => some (value.getD "")
  | none => environment.lookup name

/-- The names of a file, each with the value it is given last. A value may refer to the names before
it and to the environment. -/
def assignments (environment : List (String × String)) (entries : List Entry) :
    List (String × Option String) :=
  entries.foldl (fun file e =>
    Named.put e.name (e.value.map (expand (known environment file))) file) []

def namesReferredTo (entries : List Entry) : List String :=
  (entries.flatMap fun e => pieces (e.value.getD "").toList).filterMap fun p =>
    match p with
    | .reference name _ => some name
    | .plain _ => none

end Shoutmark.EnvironmentFile
