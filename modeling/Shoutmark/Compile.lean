import Shoutmark.Grammar.Program
import Shoutmark.Token.Scan

/-! From a source text to a page. -/

namespace Shoutmark

/-- A finished page, with the words it was read from and what was learnt on the way. -/
structure Page where
  html : String
  tokens : List String
  values : Variables
  title : Option String
  diagnostics : List String
  deriving DecidableEq, Repr

/-- How a compilation ended and what there was to tell. -/
structure Compilation where
  outcome : Except CompileError Page
  events : List Event

namespace Compilation

/-- The diagnostics of a compilation, as lines; those before an error are among them. -/
def diagnostics (c : Compilation) : List String := diagnosticLines c.events

end Compilation

/-- The page that a finished draft stands for. -/
def Draft.toPage (tokens : List String) (d : Draft) : Page :=
  ⟨d.page, tokens, d.values, d.title, d.diagnostics⟩

/-- Reads the words of a source and writes its page, up to the first error. -/
def compile (lists : Bool) (source : String) : Compilation :=
  match Token.tokenize source with
  | .error word => ⟨.error (.lexical word), [.tokenizing]⟩
  | .ok [] => ⟨.error (.input .noTokens), [.tokenizing, .tokensProduced 0]⟩
  | .ok tokens =>
    let opening := [.tokenizing, .tokensProduced tokens.length, .parsing tokens.length]
    match Grammar.program lists (.start tokens) with
    | .error f d => ⟨.error (.fault f), opening ++ d.events.toList⟩
    | .ok () d =>
      let page := d.toPage tokens
      ⟨.ok page, opening ++ d.events.toList ++ [.charactersGenerated page.html.length]⟩

end Shoutmark
