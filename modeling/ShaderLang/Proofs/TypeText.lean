import ShaderLang.Proofs.Declarators
import ShaderLang.Proofs.FunctionForms
import ShaderLang.Proofs.RoundTrip

/-!
# Types read back

The text of a type is its name, or the text of another type and a size in brackets.  However deep
the brackets are nested, the text is read as one token, a name or a group, and the token is read as
the type.  Its first token tells that a type follows, so that the text alone between the colon and
the equals sign of a function is the type of the result.

Main results:

- Theorem `lexes_display`: the text of a type is read as one token that spells the type.
- Theorem `SpellsTy.readsTy`: a token that spells a type is read as that type.
- Theorem `lexes_bareFunction`: the text of a function that names only the type of its result.
- Theorem `display_reads_back`: the text of every type is read as that type.
-/

namespace ShaderLang

namespace Grammar

open Lexeme

/-! ## Tokens of a type -/

/-- Tokens are read as a type: in full, as far as their first token tells, and as the result of a
function before its equals sign, whatever stands after it. -/
structure ReadsTy (T : Ty) (tokens : List Token) : Prop where
  whole : readAll ty tokens = .ok T
  starts : ∀ rest, startsTy (tokens ++ rest) = true
  bare : ∀ stop joint span rest, funcSignature stop (tokens ++ .punct '=' joint span :: rest) =
    .ok ⟨([], some T), tokens.length⟩

/-- No comment marker stands in a type. -/
theorem SpellsTy.strays_eq_none {T : Ty} {token : Token} (h : SpellsTy T token) :
    strays [token] = none := by
  have hnil : strays [] = none := by rw [strays]
  have hstrays := (SpellsSignature.bare h).strays_eq false .origin []
  rw [strays_append_of_startsGroup _ rfl, hnil, Option.or_eq_none_iff] at hstrays
  exact hstrays.1

/-- A token that spells a type is read as that type. -/
theorem SpellsTy.readsTy {T : Ty} {token : Token} (h : SpellsTy T token) : ReadsTy T [token] where
  whole := by
    apply bind_eq_ok.mpr
    exact ⟨_, h.reads .origin [], complete_eq_ok_iff.mpr ⟨rfl, rfl, h.strays_eq_none⟩⟩
  starts rest := h.startsTy rest
  bare stop joint span rest := by
    rcases (SpellsSignature.bare h).reads stop joint span rest with ⟨found, hfound, hnone⟩
    rw [List.map_eq_nil_iff] at hnone
    rw [hfound, hnone]

/-! ## Texts of types -/

/-- The name of a type is read as one token that spells the type. -/
theorem lexes_named {T : Ty} (hname : isIdentifier T.display.toList = true)
    (hlookup : Ty.named.lookup T.display = some T) :
    Lexes Ends T.display.toList fun tokens => ∃ token, tokens = [token] ∧ SpellsTy T token := by
  apply (lexes_identifier hname).imp
  rintro _ ⟨span, rfl⟩
  exact ⟨_, rfl, .named hlookup span⟩

/-- The text of an array is that of its items and its size in brackets. -/
theorem toList_display_array (item : Ty) (size : Nat) :
    (Ty.array item size).display.toList =
      '[' :: (item.display.toList ++ ([';', ' '] ++ Nat.toDigits 10 size)) ++ [']'] := by
  simp [Ty.display, Nat.toString_eq_repr, Nat.toList_repr]

/-- A semicolon, a blank and a size are read as two tokens. -/
theorem lexes_size (size : Nat) :
    Lexes Ends ([';', ' '] ++ Nat.toDigits 10 size) fun tokens => ∃ mark place,
      tokens = [.punct ';' false mark, .literal (.number (Nat.toDigits 10 size)) place] := by
  apply (@Target.lexes_mark_blank ';' (by decide)).append (lexes_digits size) (fun _ _ => trivial)
  rintro _ _ ⟨mark, rfl⟩ ⟨place, rfl⟩
  exact ⟨mark, place, rfl⟩

/-- The text of a type is read as one token that spells the type. -/
theorem lexes_display {T : Ty} (h : ∀ n ∈ T.sizes, n < 2 ^ 64) :
    Lexes Ends T.display.toList fun tokens => ∃ token, tokens = [token] ∧ SpellsTy T token := by
  induction T with
  | array item size ih =>
    rcases List.forall_mem_cons.mp h with ⟨hsize, hitem⟩
    have hcontent : Lexes Ends (item.display.toList ++ ([';', ' '] ++ Nat.toDigits 10 size))
        fun tokens => ∃ token mark place, SpellsTy item token ∧ tokens =
          [token, .punct ';' false mark, .literal (.number (Nat.toDigits 10 size)) place] := by
      apply (ih hitem).append (lexes_size size) (fun rest _ => .mark _ (by decide))
      rintro _ _ ⟨token, rfl, htoken⟩ ⟨mark, place, rfl⟩
      exact ⟨token, mark, place, htoken, rfl⟩
    rw [toList_display_array]
    apply hcontent.group rfl rfl (fun rest => .mark rest (by decide))
    rintro _ span ⟨token, mark, place, htoken, rfl⟩
    exact ⟨_, rfl, .array htoken (Numeral.ofText_toDigits size) hsize false mark place span⟩
  | _ => exact lexes_named (by decide) rfl

/-! ## Functions with the type of their result alone -/

/-- A text is read as a block wherever it stands before a closing brace. -/
def SpellsBody (text : String) (b : Block) : Prop :=
  Lexes (fun rest => ∃ more, rest = '\x7d' :: more) text.toList fun tokens =>
    readBlock tokens = .ok b

/-- The text of a definition: an equals sign and a body in braces. -/
def definitionText (body : String) : String :=
  " = \x7b" ++ body ++ "\x7d"

/-- The text of a function whose signature is a type alone. -/
def bareFunction (name : String) (T : Ty) (body : String) : String :=
  name ++ ": " ++ T.display ++ definitionText body

/-- A definition is read as an equals sign and a body in braces. -/
theorem lexes_definitionText {body : String} {b : Block} (h : SpellsBody body b) :
    Lexes (fun _ => True) (definitionText body).toList fun tokens =>
      ∃ content equals brace, readBlock content = .ok b ∧
        tokens = [.punct '=' false equals, .group .brace content brace] := by
  have htext : (definitionText body).toList =
      [' '] ++ (['=', ' '] ++ ('\x7b' :: body.toList ++ ['\x7d'])) := by
    simp [definitionText]
  have hbraces : Lexes (fun _ => True) ('\x7b' :: body.toList ++ ['\x7d']) fun tokens =>
      ∃ content brace, readBlock content = .ok b ∧ tokens = [.group .brace content brace] :=
    h.group rfl rfl (fun rest => ⟨rest, rfl⟩) fun content brace hcontent =>
      ⟨content, brace, hcontent, rfl⟩
  have hequals : Lexes (fun _ => True) (['=', ' '] ++ ('\x7b' :: body.toList ++ ['\x7d']))
      fun tokens => ∃ content equals brace, readBlock content = .ok b ∧
        tokens = [.punct '=' false equals, .group .brace content brace] := by
    apply (@Target.lexes_mark_blank '=' (by decide)).append hbraces (fun _ _ => trivial)
    rintro _ _ ⟨equals, rfl⟩ ⟨content, brace, hcontent, rfl⟩
    exact ⟨content, equals, brace, hcontent, rfl⟩
  rw [htext]
  apply (@lexes_space fun _ => True).append hequals (fun _ _ => trivial)
  rintro _ tokens rfl htokens
  exact htokens

/-- The text of a function whose signature is a type alone is read as tokens of such a function. -/
theorem lexes_bareFunction {name body : String} {T : Ty} {b : Block}
    (hname : isIdentifier name.toList = true) (hsizes : ∀ n ∈ T.sizes, n < 2 ^ 64)
    (hbody : SpellsBody body b) :
    Lexes (fun _ => True) (bareFunction name T body).toList fun tokens =>
      ∃ token content place colon equals brace, SpellsTy T token ∧ readBlock content = .ok b ∧
        tokens = functionTokens name place [token] content colon equals brace false false := by
  have htext : (bareFunction name T body).toList =
      name.toList ++ ([':', ' '] ++ (T.display.toList ++ (definitionText body).toList)) := by
    simp [bareFunction]
  have htyped : Lexes (fun _ => True) (T.display.toList ++ (definitionText body).toList)
      fun tokens => ∃ token content equals brace, SpellsTy T token ∧ readBlock content = .ok b ∧
        tokens = [token, .punct '=' false equals, .group .brace content brace] := by
    apply (lexes_display hsizes).append (lexes_definitionText hbody)
    · -- a blank follows the type
      intro rest _
      rw [definitionText, String.toList_append, String.toList_append]
      exact .mark _ (by decide)
    · rintro _ _ ⟨token, rfl, htoken⟩ ⟨content, equals, brace, hcontent, rfl⟩
      exact ⟨token, content, equals, brace, htoken, hcontent, rfl⟩
  have hsigned : Lexes (fun _ => True)
      ([':', ' '] ++ (T.display.toList ++ (definitionText body).toList)) fun tokens =>
        ∃ token content colon equals brace, SpellsTy T token ∧ readBlock content = .ok b ∧
          tokens = [.punct ':' false colon, token, .punct '=' false equals,
            .group .brace content brace] := by
    apply (@Target.lexes_mark_blank ':' (by decide)).append htyped (fun _ _ => trivial)
    rintro _ _ ⟨colon, rfl⟩ ⟨token, content, equals, brace, htoken, hcontent, rfl⟩
    exact ⟨token, content, colon, equals, brace, htoken, hcontent, rfl⟩
  rw [htext]
  apply (lexes_identifier hname).append hsigned (fun _ _ => .mark _ (by decide))
  rintro _ _ ⟨place, rfl⟩ ⟨token, content, colon, equals, brace, htoken, hcontent, rfl⟩
  exact ⟨token, content, place, colon, equals, brace, htoken, hcontent, rfl⟩

/-- The text of every type reads back.  Let the sizes of nested arrays be numbers of 64 bits.  The
text of the type is read as tokens, and these are read as the type in full; their first token tells
that a type follows; and before an equals sign they are the signature of a function without
parameters and with this type of its result.  So a text of such a function is read as the function,
whatever its name and its body are. -/
theorem display_reads_back {T : Ty} (h : ∀ n ∈ T.sizes, n < 2 ^ 64) :
    (∃ tokens, tokenize T.display = .ok tokens ∧ ReadsTy T tokens) ∧
      ∀ name body b, Expr.IsPlainName name → startsLower name = true → SpellsBody body b →
        ∃ tokens place, tokenize (bareFunction name T body) = .ok tokens ∧
          declarations tokens = ([.function ⟨name, place⟩ [] (some T) b], none) := by
  constructor
  · rcases tokenize_of_lexes (lexes_display h) .nil with ⟨_, ⟨token, rfl, htoken⟩, htokenize⟩
    exact ⟨[token], htokenize, htoken.readsTy⟩
  · intro name body b hname hlower hbody
    rcases tokenize_of_lexes (lexes_bareFunction hname.1 h hbody) trivial with
      ⟨_, ⟨token, content, place, colon, equals, brace, htoken, hcontent, rfl⟩, htokenize⟩
    rcases declarations_function hname.2 hlower (.bare htoken) hcontent place colon equals brace
      false false with ⟨⟨params, hdeclarations, hnone⟩, -⟩
    rw [List.map_eq_nil_iff] at hnone
    rw [hnone] at hdeclarations
    exact ⟨_, place, htokenize, hdeclarations⟩

/-- An array of no arrays of the greatest size. -/
def emptyArray : Ty :=
  .array (.array .float 18446744073709551615) 0

/-- The text of nested arrays with the greatest and the least size reads back. -/
theorem display_reads_back_extreme :
    (∀ n ∈ emptyArray.sizes, n < 2 ^ 64) ∧
      emptyArray.display = "[[Float; 18446744073709551615]; 0]" ∧
      (∃ tokens, tokenize "[[Float; 18446744073709551615]; 0]" = .ok tokens ∧
        ReadsTy emptyArray tokens) ∧
      Expr.IsPlainName "half" ∧ startsLower "half" = true ∧
      SpellsBody "a" (Block.ofStmts [.ref "a"]) ∧
      ∃ tokens place,
        tokenize "half: [[Float; 18446744073709551615]; 0] = \x7ba\x7d" = .ok tokens ∧
          declarations tokens = ([.function ⟨"half", place⟩ [] (some emptyArray)
            (Block.ofStmts [.ref "a"])], none) := by
  have hsizes : ∀ n ∈ emptyArray.sizes, n < 2 ^ 64 := by decide
  have hdisplay : emptyArray.display = "[[Float; 18446744073709551615]; 0]" := by decide
  have htext : bareFunction "half" emptyArray "a" =
      "half: [[Float; 18446744073709551615]; 0] = \x7ba\x7d" := by decide
  have hname : Expr.IsPlainName "half" := ⟨by decide, by decide⟩
  have hlower : startsLower "half" = true := by decide
  have hbody : SpellsBody "a" (Block.ofStmts [.ref "a"]) := by
    rintro pos _ ⟨more, rfl⟩
    have hends : Ends ('\x7d' :: more) := .mark more (by decide)
    rcases @lexes_identifier "a" (by decide) pos _ hends with ⟨_, ⟨span, rfl⟩, hread⟩
    exact ⟨_, by cbv, hread⟩
  rcases display_reads_back hsizes with ⟨hread, hfunction⟩
  rw [hdisplay] at hread
  have hhalf := hfunction "half" "a" _ hname hlower hbody
  rw [htext] at hhalf
  exact ⟨hsizes, hdisplay, hread, hname, hlower, hbody, hhalf⟩

end Grammar

end ShaderLang
