import Shoutmark.Named

/-! The values of a page's variables. -/

namespace Shoutmark

/-- Names with their values, in the order in which the names were first given one. -/
structure Variables where
  entries : List (String × String)
  deriving DecidableEq, Repr

namespace Variables

def empty : Variables := ⟨[]⟩

def names (v : Variables) : List String := v.entries.map Prod.fst

def get? (name : String) (v : Variables) : Option String := v.entries.lookup name

/-- Gives a name a value. A name that has one keeps its place. -/
def set (name value : String) (v : Variables) : Variables := ⟨Named.put name value v.entries⟩

theorem get?_set_self (name value : String) (v : Variables) :
    (v.set name value).get? name = some value :=
  Named.lookup_put_self name value v.entries

theorem get?_set_of_ne {name other : String} (h : other ≠ name) (value : String)
    (v : Variables) : (v.set name value).get? other = v.get? other :=
  Named.lookup_put_of_ne h value v.entries

theorem names_set (name value : String) (v : Variables) :
    (v.set name value).names = if name ∈ v.names then v.names else v.names ++ [name] :=
  Named.map_fst_put name value v.entries

end Variables

end Shoutmark
