import ShaderLang.Composition
import ShaderLang.Grammar.Name
import ShaderLang.SourceFile

/-!
# Diagnostics

What a source is reported for, and how a report looks: a message with annotations at the places that
are blamed.
-/

namespace ShaderLang

/-- What a source is reported for. -/
inductive Diagnostic where
  /-- No token starts at a place, or delimiters do not match. -/
  | unreadable (place : Pos)
  /-- A block comment, at an offset in bytes, is not closed. -/
  | unclosedComment (offset : Nat)
  | malformed (fault : Fault)
  | cannotCompose (name down up : Ident) (mismatch : Mismatch)
  | wrongStage (program shader : Ident) (expected found : Stage)
  | unresolvedName (declaration : Ident) (name : String)
deriving DecidableEq, Repr

namespace Diagnostic

/-- Loading stops at this diagnostic. -/
def isCritical : Diagnostic → Bool
  | unreadable _ | unclosedComment _ | malformed _ => true
  | _ => false

/-- It counts as an error and not only as a warning. -/
def isError : Diagnostic → Bool
  | wrongStage .. | unresolvedName .. => false
  | _ => true

/-- The message of a text that no tokens can be read from. -/
def unreadableMessage : String := "cannot parse string into token stream"

/-- The report of a diagnostic. -/
def render (file : SourceFile) (color : Bool) : Diagnostic → String
  | unreadable place =>
    file.report color .error ("cannot tokenize source: " ++ unreadableMessage)
      [file.annotate .error "here" (.point place)]
  | unclosedComment offset =>
    file.report color .error "unterminated block comment"
      [SourceFile.annotation .error "comment starts here" (file.offsetRange offset)]
  | malformed fault =>
    file.report color .error fault.cause.message [file.annotate .error "here" fault.span]
  | cannotCompose name down up mismatch =>
    file.report color .error
      ("cannot compose `" ++ down.text ++ "` after `" ++ up.text ++ "`: " ++ mismatch.message)
      [file.annotate .error "shader not declared" name.span,
        file.annotate .info "downstream" down.span,
        file.annotate .info "upstream" up.span]
  | wrongStage program shader expected found =>
    file.report color .warning
      ("program `" ++ program.text ++ "` uses " ++ found.label ++ " shader `" ++ shader.text ++
        "` as its " ++ expected.label ++ " shader")
      [file.annotate .warning "wrong stage" shader.span]
  | unresolvedName declaration name =>
    file.report color .warning
      ("no binding named `" ++ name ++ "` is visible in `" ++ declaration.text ++ "`")
      [file.annotate .warning "referenced in this declaration" declaration.span]

end Diagnostic

end ShaderLang
