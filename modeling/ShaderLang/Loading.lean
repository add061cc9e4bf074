import ShaderLang.Grammar.Declaration
import ShaderLang.Progress
import ShaderLang.Token.Tree

/-!
# Loading a source

A source is masked, read as tokens and as declarations, and the declarations are recorded one after
the other.  Some diagnostics are only recorded; a critical one ends the loading.
-/

namespace ShaderLang

/-- The outcome of loading a source: a module unless a critical diagnostic was found. -/
structure Loaded where
  module : Option Module
  diagnostics : List Diagnostic
  events : List Event
deriving Repr

namespace Loaded

/-- Loading ended at a critical diagnostic. -/
def failed (p : Progress) (diagnostic : Diagnostic) : Loaded :=
  ⟨none, p.diagnostics ++ [diagnostic], p.events⟩

/-- Record the declarations that tokens spell.  A declaration that cannot be recorded is reported
before a later one that cannot be read; what stands in a comment marker after its text is reported
last. -/
def ofTokens (diagnostics : List Diagnostic) (tokens : List Token) : Loaded :=
  let (declarations, unread) := Grammar.declarations tokens
  let (p, unrecorded) := (Progress.start diagnostics).declareAll declarations
  match unrecorded.or unread with
  | some fault => failed p (.malformed fault)
  | none =>
    match Grammar.strays tokens with
    | some span => failed p (.malformed ⟨.leftOver, span⟩)
    | none => ⟨some p.registry.toModule, p.diagnostics, p.events⟩

end Loaded

/-- Load a source; the diagnostics follow some earlier ones. -/
def load (diagnostics : List Diagnostic) (source : List Char) : Loaded :=
  match Masked.ofSource source with
  | .error offset => .failed (.start diagnostics) (.unclosedComment offset)
  | .ok masked =>
    match tokenize (String.ofList masked.text) with
    | .error place => .failed (.start diagnostics) (.unreadable place)
    | .ok tokens => .ofTokens diagnostics tokens

end ShaderLang
