import ShaderLang.Command
import ShaderLang.Composition
import ShaderLang.Declaration
import ShaderLang.Diagnostic
import ShaderLang.Disk
import ShaderLang.Event
import ShaderLang.Expr.Basic
import ShaderLang.Expr.Description
import ShaderLang.Floating.Decimal
import ShaderLang.Floating.Format
import ShaderLang.Grammar.Block
import ShaderLang.Grammar.Comment
import ShaderLang.Grammar.Declaration
import ShaderLang.Grammar.Expr
import ShaderLang.Grammar.Fault
import ShaderLang.Grammar.Mark
import ShaderLang.Grammar.Name
import ShaderLang.Grammar.Numeral
import ShaderLang.Grammar.Ty
import ShaderLang.Lexeme.Basic
import ShaderLang.Lexeme.Comment
import ShaderLang.Lexeme.Literal
import ShaderLang.Lexeme.Number
import ShaderLang.Loading
import ShaderLang.Main
import ShaderLang.Masked
import ShaderLang.Module
import ShaderLang.Operator
import ShaderLang.Progress
import ShaderLang.Proofs.Annotations
import ShaderLang.Proofs.Assembly
import ShaderLang.Proofs.Associativity
import ShaderLang.Proofs.Capture
import ShaderLang.Proofs.Climbing
import ShaderLang.Proofs.ClosedText
import ShaderLang.Proofs.Commands
import ShaderLang.Proofs.CommentText
import ShaderLang.Proofs.Comments
import ShaderLang.Proofs.Composite
import ShaderLang.Proofs.Continuation
import ShaderLang.Proofs.Coordinates
import ShaderLang.Proofs.Declarators
import ShaderLang.Proofs.Delimiting
import ShaderLang.Proofs.Diagnosis
import ShaderLang.Proofs.Endings
import ShaderLang.Proofs.Execution
import ShaderLang.Proofs.Files
import ShaderLang.Proofs.FreeNames
import ShaderLang.Proofs.FunctionForms
import ShaderLang.Proofs.Generation
import ShaderLang.Proofs.Hygiene
import ShaderLang.Proofs.Integers
import ShaderLang.Proofs.Junction
import ShaderLang.Proofs.Ladder
import ShaderLang.Proofs.Layout
import ShaderLang.Proofs.Lexing
import ShaderLang.Proofs.Linting
import ShaderLang.Proofs.Mapping
import ShaderLang.Proofs.Markers
import ShaderLang.Proofs.Masking
import ShaderLang.Proofs.Outcome
import ShaderLang.Proofs.Parentheses
import ShaderLang.Proofs.Pipeline
import ShaderLang.Proofs.Placement
import ShaderLang.Proofs.PrefixForms
import ShaderLang.Proofs.Printing
import ShaderLang.Proofs.Reading
import ShaderLang.Proofs.Recording
import ShaderLang.Proofs.Redeclaration
import ShaderLang.Proofs.Refusals
import ShaderLang.Proofs.Remarks
import ShaderLang.Proofs.Rendering
import ShaderLang.Proofs.Resolution
import ShaderLang.Proofs.RoundTrip
import ShaderLang.Proofs.Routing
import ShaderLang.Proofs.Scanning
import ShaderLang.Proofs.Separation
import ShaderLang.Proofs.Signature
import ShaderLang.Proofs.Simulation
import ShaderLang.Proofs.Slashes
import ShaderLang.Proofs.Snapshot
import ShaderLang.Proofs.Spelling
import ShaderLang.Proofs.Steadiness
import ShaderLang.Proofs.Stepping
import ShaderLang.Proofs.Stretch
import ShaderLang.Proofs.TypeText
import ShaderLang.Proofs.Uses
import ShaderLang.Proofs.Vocabulary
import ShaderLang.Proofs.Wording
import ShaderLang.Registry
import ShaderLang.Scope
import ShaderLang.Snippet
import ShaderLang.SourceFile
import ShaderLang.Target.Expr
import ShaderLang.Target.Page
import ShaderLang.Target.Stage
import ShaderLang.Target.Trace
import ShaderLang.Target.Ty
import ShaderLang.Text.Blank
import ShaderLang.Text.Bytes
import ShaderLang.Text.Identifier
import ShaderLang.Text.Position
import ShaderLang.Text.Printable
import ShaderLang.Text.Quoted
import ShaderLang.Text.Quoted.Lemmas
import ShaderLang.Text.Ranges
import ShaderLang.Text.Width
import ShaderLang.Token.Basic
import ShaderLang.Token.Tree
import ShaderLang.Ty
import ShaderLang.Word
