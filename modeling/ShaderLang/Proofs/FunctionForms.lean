import ShaderLang.Proofs.Endings
import ShaderLang.Proofs.Recording

/-!
# The spellings of a function

The signature of a function is spelled in several ways: its parameters stand in parentheses, with a
comma after the last one or without; a single parameter may stand without parentheses; and for a
function without parameters the type of the result may stand alone.  A type alone and a parameter
start with the same token, so the token after it decides.  All spellings record the same function.

Main results:

- Theorem `SpellsTy.reads`: a type is read, however deep its arrays are nested.
- Theorem `SpellsParams.reads`: parameters are read in order, with or without a last comma.
- Theorem `SpellsSignature.reads`: each spelling of a signature is read as that signature.
- Theorem `declaration_function`: a function is read from each of its spellings.
- Theorem `spellings_record`: all spellings of a function record the same function.
-/

namespace ShaderLang

namespace Grammar

/-! ## Spellings -/

/-- A token that spells a type. -/
inductive SpellsTy : Ty → Token → Prop where
  /-- The name of a type. -/
  | named {text : String} {ty : Ty} (h : Ty.named.lookup text = some ty) (span : Span) :
    SpellsTy ty (.ident text span)
  /-- A type and a size in brackets. -/
  | array {item : Ty} {token : Token} {digits : List Char} {size : Nat} {suffix : String}
    (h : SpellsTy item token) (hsize : Numeral.ofText digits = .integer size suffix)
    (hbits : size < 2 ^ 64) (joint : Bool) (mark place span : Span) :
    SpellsTy (.array item size)
      (.group .bracket [token, .punct ';' joint mark, .literal (.number digits) place] span)

/-- Tokens that spell a parameter: its type and its name. -/
inductive SpellsParam : String × Ty → List Token → Prop where
  | mk {name : String} {ty : Ty} {token : Token} (hty : SpellsTy ty token)
    (hname : Word.isReserved name = false) (place : Span) :
    SpellsParam (name, ty) [token, .ident name place]

/-- Tokens that spell parameters, with commas between them and perhaps one after the last. -/
inductive SpellsParams : List (String × Ty) → List Token → Prop where
  | nil : SpellsParams [] []
  | last {param : String × Ty} {tokens : List Token} (h : SpellsParam param tokens) :
    SpellsParams [param] tokens
  | cons {param : String × Ty} {params : List (String × Ty)} {tokens rest : List Token}
    (h : SpellsParam param tokens) (hrest : SpellsParams params rest) (joint : Bool) (span : Span) :
    SpellsParams (param :: params) (tokens ++ .punct ',' joint span :: rest)

/-- Tokens that spell a result: an arrow and its type, or nothing. -/
inductive SpellsResult : Option Ty → List Token → Prop where
  | none : SpellsResult none []
  | some {ty : Ty} {token : Token} (h : SpellsTy ty token) (first : Span) (joint : Bool)
    (second : Span) :
    SpellsResult (some ty) [.punct '-' true first, .punct '>' joint second, token]

/-- Tokens that spell the parameters and the result of a function. -/
inductive SpellsSignature : List (String × Ty) → Option Ty → List Token → Prop where
  /-- The parameters in parentheses. -/
  | list {params : List (String × Ty)} {result : Option Ty} {content tokens : List Token}
    (hparams : SpellsParams params content) (hresult : SpellsResult result tokens) (span : Span) :
    SpellsSignature params result (.group .paren content span :: tokens)
  /-- A single parameter without parentheses. -/
  | single {param : String × Ty} {result : Option Ty} {tokens more : List Token}
    (hparam : SpellsParam param tokens) (hresult : SpellsResult result more) :
    SpellsSignature [param] result (tokens ++ more)
  /-- The type of the result alone. -/
  | bare {ty : Ty} {token : Token} (h : SpellsTy ty token) : SpellsSignature [] (some ty) [token]

/-! ## Reading signatures -/

/-- The size of an array is read where nothing follows. -/
theorem size_eq {digits : List Char} {n : Nat} {suffix : String}
    (h : Numeral.ofText digits = .integer n suffix) (hn : n < 2 ^ 64) (stop place : Span) :
    size stop [.literal (.number digits) place] = .ok ⟨.ok n, 1⟩ := by
  have hliteral : literal? [.literal (.number digits) place] =
      some ⟨(.number false (.integer n suffix), place), 1⟩ := by
    rw [literal?, h]
  have hn : n < 1 <<< 64 := hn
  rw [size, hliteral]
  dsimp only
  rw [if_neg Bool.false_ne_true, if_pos hn]

/-- A type is read, whatever follows. -/
theorem SpellsTy.reads {T : Ty} {token : Token} (h : SpellsTy T token) (stop : Span)
    (rest : List Token) : ty stop (token :: rest) = .ok ⟨T, 1⟩ := by
  induction h generalizing stop rest with
  | named h span =>
    rw [ty, h]
  | array h hsize hbits joint mark place span ih =>
    rw [ty]
    refine bind_eq_ok.mpr ⟨_, ih span.last _, ?_⟩
    refine bind_eq_ok.mpr ⟨⟨(), 1⟩, rfl, ?_⟩
    exact bind_eq_ok.mpr ⟨_, size_eq hsize hbits span.last place, rfl⟩

/-- A type starts with a token of its own. -/
theorem SpellsTy.startsTy {T : Ty} {token : Token} (h : SpellsTy T token) (rest : List Token) :
    startsTy (token :: rest) = true := by
  cases h with
  | named h span =>
    rw [Grammar.startsTy, h]
    rfl
  | array h hsize hbits joint mark place span => rfl

/-- No type stands in parentheses. -/
theorem SpellsTy.ne_paren {T : Ty} {token : Token} (h : SpellsTy T token) (content : List Token)
    (span : Span) : token ≠ .group .paren content span := by
  cases h with
  | named h span => simp
  | array h hsize hbits joint mark place span => simp

/-- A program is no type. -/
theorem SpellsTy.ne_prog {T : Ty} {token : Token} (h : SpellsTy T token) (rest : List Token) :
    startsWord "Prog" (token :: rest) = false := by
  cases h with
  | @named text ty h span =>
    apply beq_false_of_ne
    rintro rfl
    cases h
  | array h hsize hbits joint mark place span => rfl

/-- A parameter is read, whatever follows. -/
theorem SpellsParam.reads {entry : String × Ty} {tokens : List Token} (h : SpellsParam entry tokens)
    (stop : Span) (rest : List Token) :
    ∃ found, param stop (tokens ++ rest) = .ok ⟨found, 2⟩ ∧
      (found.name.text, found.ty) = entry := by
  cases h with
  | @mk name ty token hty hname place =>
    refine ⟨⟨⟨name, place⟩, ty⟩, ?_, rfl⟩
    rw [List.cons_append, param, hty.reads]
    simp [bind, Except.bind, Grammar.name, hname]
    rfl

/-- Parameters are read in order, with or without a comma after the last one. -/
theorem SpellsParams.reads {entries : List (String × Ty)} {tokens : List Token}
    (h : SpellsParams entries tokens) (stop : Span) :
    ∃ found, params stop tokens = .ok found ∧
      found.map (fun param => (param.name.text, param.ty)) = entries := by
  induction h with
  | nil => exact ⟨[], by rw [params], rfl⟩
  | last h =>
    rcases h.reads stop [] with ⟨found, hfound, hentry⟩
    cases h with
    | mk hty hname place =>
      rw [List.append_nil] at hfound
      refine ⟨[found], ?_, by rw [← hentry]; rfl⟩
      rw [params, hfound]
      rfl
  | cons h hrest joint span ih =>
    rename_i entry entries tokens rest
    rcases h.reads stop (.punct ',' joint span :: rest) with ⟨first, hfirst, hentry⟩
    rcases ih with ⟨found, hfound, hentries⟩
    cases h with
    | mk hty hname place =>
      refine ⟨first :: found, ?_, by rw [← hentry, ← hentries]; rfl⟩
      rw [List.cons_append] at hfirst ⊢
      rw [params, hfirst]
      simp [bind, Except.bind, mark, startsMark, hfound]
      rfl

/-- A result is read before an equals sign. -/
theorem SpellsResult.reads {r : Option Ty} {tokens : List Token} (h : SpellsResult r tokens)
    (stop : Span) (joint : Bool) (span : Span) (rest : List Token) :
    result stop (tokens ++ .punct '=' joint span :: rest) = .ok ⟨r, tokens.length⟩ := by
  cases h with
  | none => rfl
  | some h first joint' second =>
    rename_i T token
    have hpair : startsPair '-' '>' ([.punct '-' true first, .punct '>' joint' second, token] ++
        .punct '=' joint span :: rest) = true :=
      startsPair_iff.mpr ⟨first, joint', second, _, rfl⟩
    rw [result, if_pos hpair]
    exact bind_eq_ok.mpr ⟨_, h.reads stop _, rfl⟩

/-- Where no type stands alone, parameters and a result are read. -/
theorem funcSignature_of_params {stop : Span} {tokens : List Token} {found : List Param}
    {r : Option Ty} {m n : Nat} (hbare : (startsTy tokens && startsBareResult stop tokens) = false)
    (hparams : signature stop tokens = .ok ⟨found, m⟩)
    (hresult : result stop (tokens.drop m) = .ok ⟨r, n⟩) :
    funcSignature stop tokens = .ok ⟨(found, r), m + n⟩ := by
  rw [funcSignature, hbare, if_neg Bool.false_ne_true]
  exact bind_eq_ok.mpr ⟨_, hparams, bind_eq_ok.mpr ⟨_, hresult, rfl⟩⟩

/-- Each spelling of a signature is read as that signature before an equals sign. -/
theorem SpellsSignature.reads {entries : List (String × Ty)} {r : Option Ty} {tokens : List Token}
    (h : SpellsSignature entries r tokens) (stop : Span) (joint : Bool) (span : Span)
    (rest : List Token) :
    ∃ found, funcSignature stop (tokens ++ .punct '=' joint span :: rest) =
        .ok ⟨(found, r), tokens.length⟩ ∧
      found.map (fun param => (param.name.text, param.ty)) = entries := by
  cases h with
  | list hparams hresult place =>
    rcases hparams.reads place.last with ⟨found, hfound, hentries⟩
    refine ⟨found, ?_, hentries⟩
    rw [List.cons_append, List.length_cons, Nat.add_comm]
    apply funcSignature_of_params
    · rfl
    · exact bind_eq_ok.mpr ⟨found, hfound, rfl⟩
    · exact hresult.reads stop joint span rest
  | single hparam hresult =>
    rename_i entry tokens more
    rcases hparam.reads stop (more ++ .punct '=' joint span :: rest) with ⟨found, hfound, hentry⟩
    refine ⟨[found], ?_, by rw [← hentry]; rfl⟩
    cases hparam with
    | mk hty hname place =>
      rename_i token
      rw [List.append_assoc, List.length_append]
      apply funcSignature_of_params
      · -- the name after the type is no equals sign
        simp [startsBareResult, hty.reads, startsMark]
      · rw [List.cons_append] at hfound ⊢
        rw [signature]
        · exact bind_eq_ok.mpr ⟨_, hfound, rfl⟩
        · rintro content span' _ heq
          exact hty.ne_paren content span' (List.cons.inj heq).1
      · exact hresult.reads stop joint span rest
  | bare h =>
    rename_i ty token
    refine ⟨[], ?_, rfl⟩
    have hbare : startsBareResult stop ([token] ++ .punct '=' joint span :: rest) = true := by
      rw [startsBareResult, List.singleton_append, h.reads]
      exact beq_self_eq_true '='
    rw [funcSignature, hbare, List.singleton_append, h.startsTy]
    exact bind_eq_ok.mpr ⟨_, h.reads stop _, rfl⟩

/-! ## Reading functions -/

/-- A signature does not start like a program. -/
theorem SpellsSignature.ne_prog {entries : List (String × Ty)} {r : Option Ty}
    {tokens : List Token} (h : SpellsSignature entries r tokens) (rest : List Token) :
    startsWord "Prog" (tokens ++ rest) = false := by
  cases h with
  | list hparams hresult place => rfl
  | single hparam hresult =>
    cases hparam with
    | mk hty hname place => exact hty.ne_prog _
  | bare h => exact h.ne_prog rest

/-- No comment marker stands in a signature. -/
theorem SpellsSignature.strays_eq {entries : List (String × Ty)} {r : Option Ty}
    {tokens : List Token} (h : SpellsSignature entries r tokens) (joint : Bool) (span : Span)
    (rest : List Token) : strays (tokens ++ .punct '=' joint span :: rest) = strays rest := by
  rcases h.reads .origin joint span rest with ⟨found, hfound, -⟩
  have hequals : beforeEquals funcSignature .origin (tokens ++ .punct '=' joint span :: rest) =
      .ok ⟨(found, r), tokens.length⟩ := by
    refine bind_eq_ok.mpr ⟨_, hfound, bind_eq_ok.mpr ⟨⟨(), 1⟩, ?_, rfl⟩⟩
    rw [List.drop_left]
    rfl
  rw [(steady_funcSignature .origin).strays_drop hequals, List.drop_length_add_append]
  rfl

/-- The tokens of a function: its name, a colon, the signature, an equals sign and the body. -/
def functionTokens (name : String) (place : Span) (signature body : List Token)
    (colon equals brace : Span) (joint joint' : Bool) : List Token :=
  .ident name place :: .punct ':' joint colon ::
    (signature ++ [.punct '=' joint' equals, .group .brace body brace])

section Functions

variable {name : String} {entries : List (String × Ty)} {r : Option Ty}
  {signature body : List Token} {b : Block} (hname : Word.isReserved name = false)
  (hlower : startsLower name = true) (hsignature : SpellsSignature entries r signature)
  (hbody : readBlock body = .ok b) (place colon equals brace : Span) (joint joint' : Bool)

include hname hlower hsignature hbody

/-- A function is read from each spelling of its signature. -/
theorem declaration_function :
    ∃ params, declaration .origin
        (functionTokens name place signature body colon equals brace joint joint') =
      .ok ⟨.function ⟨name, place⟩ params r b, signature.length + 4⟩ ∧
      params.map (fun param => (param.name.text, param.ty)) = entries := by
  rcases hsignature.reads .origin joint' equals [.group .brace body brace] with
    ⟨params, hparams, hentries⟩
  refine ⟨params, ?_, hentries⟩
  have hfunction : function ⟨name, place⟩ .origin
      (signature ++ [.punct '=' joint' equals, .group .brace body brace]) =
      .ok ⟨.function ⟨name, place⟩ params r b, signature.length + 2⟩ := by
    refine bind_eq_ok.mpr ⟨_, hparams, ?_⟩
    simp only [List.drop_left]
    refine bind_eq_ok.mpr ⟨⟨(), 1⟩, rfl, ?_⟩
    exact bind_eq_ok.mpr ⟨b, braced_of_readBlock hbody .origin brace [], rfl⟩
  have hword : ∀ text, Word.isReserved text = true →
      startsWord text (functionTokens name place signature body colon equals brace joint joint') =
        false := by
    intro text htext
    apply beq_false_of_ne
    rintro rfl
    rw [hname] at htext
    cases htext
  rw [declaration_eq, hword "uniform" (by decide), hword "vert" (by decide),
    hword "frag" (by decide)]
  simp only [Bool.false_eq_true, if_false]
  have hdeclName : declName .origin
      (functionTokens name place signature body colon equals brace joint joint') =
      .ok ⟨⟨name, place⟩, 1⟩ := by
    simp [functionTokens, declName, Grammar.name, hname, hlower, bind, Except.bind, pure,
      Except.pure]
  refine bind_eq_ok.mpr ⟨_, hdeclName, bind_eq_ok.mpr ⟨⟨(), 1⟩, rfl, ?_⟩⟩
  have hprog := hsignature.ne_prog [.punct '=' joint' equals, .group .brace body brace]
  rw [functionTokens, List.drop_succ_cons, List.drop_succ_cons, List.drop_zero, hprog,
    if_neg Bool.false_ne_true]
  exact bind_eq_ok.mpr ⟨_, hfunction, rfl⟩

/-- A function is the only declaration that it spells, and no comment marker in it holds a stray. -/
theorem declarations_function :
    (∃ params, declarations
        (functionTokens name place signature body colon equals brace joint joint') =
      ([.function ⟨name, place⟩ params r b], none) ∧
      params.map (fun param => (param.name.text, param.ty)) = entries) ∧
    strays (functionTokens name place signature body colon equals brace joint joint') = none := by
  rcases declaration_function hname hlower hsignature hbody place colon equals brace joint joint'
    with ⟨params, hdeclaration, hentries⟩
  have hlength : (functionTokens name place signature body colon equals brace joint joint').length =
      signature.length + 4 := by
    simp [functionTokens]
  constructor
  · refine ⟨params, ?_, hentries⟩
    rw [declarations_declaration hdeclaration, ← hlength, List.drop_length, declarations]
  · rcases readBlock_eq_ok_iff.mp hbody with ⟨found, -, -, hstrays⟩
    rw [functionTokens, strays_ident, strays_punct (by decide), hsignature.strays_eq, strays_group,
      hstrays, strays]
    rfl

end Functions

end Grammar

/-! ## Recording functions -/

/-- A parameter at no certain place. -/
def Param.unplaced (entry : String × Ty) : Param :=
  ⟨⟨entry.1, .origin⟩, entry.2⟩

/-- What is recorded for a function does not depend on the places of its parameters. -/
theorem Progress.addFunction_unplaced (p : Progress) (name : Ident) (params : List Param)
    (result : Option Ty) (body : Block) :
    p.addFunction name ((params.map fun param => (param.name.text, param.ty)).map Param.unplaced)
      result body = p.addFunction name params result body := by
  simp [addFunction, Function.comp_def, Param.unplaced]

namespace Grammar

/-- All spellings of a function record the same function.  Let a name that is not reserved start
with a lower-case letter, let tokens spell some parameters and a result as a signature in any way,
and let the tokens of a body be read as a block.  Then the function is recorded after anything that
was recorded before, with these parameters in order, this result and this block, whatever the
spelling and the places of the tokens; and it is all that a source of these tokens declares. -/
theorem spellings_record {name : String} {entries : List (String × Ty)} {r : Option Ty}
    {signature body : List Token} {b : Block} (hname : Word.isReserved name = false)
    (hlower : startsLower name = true) (hsignature : SpellsSignature entries r signature)
    (hbody : readBlock body = .ok b) (place colon equals brace : Span) (joint joint' : Bool)
    (p : Progress) (diagnostics : List Diagnostic) :
    p.advance (functionTokens name place signature body colon equals brace joint joint') =
        (p.addFunction ⟨name, place⟩ (entries.map Param.unplaced) r b, none) ∧
      (p.addFunction ⟨name, place⟩ (entries.map Param.unplaced) r b).registry =
        p.registry.addFunction ⟨name, entries, r, .body name b⟩ ∧
      (Loaded.ofTokens diagnostics
          (functionTokens name place signature body colon equals brace joint joint')).module =
        some ⟨[⟨name, entries, r, .body name b⟩], []⟩ := by
  rcases declarations_function hname hlower hsignature hbody place colon equals brace joint joint'
    with ⟨⟨params, hdeclarations, rfl⟩, hstrays⟩
  have hadvance : ∀ q : Progress,
      q.advance (functionTokens name place signature body colon equals brace joint joint') =
        (q.addFunction ⟨name, place⟩ params r b, none) := by
    intro q
    rw [Progress.advance, hdeclarations]
    rfl
  rw [p.addFunction_unplaced]
  refine ⟨hadvance p, rfl, ?_⟩
  rw [Loaded.ofTokens_eq, Progress.ofTokens, hadvance, hstrays]
  rfl

/-- The token of the type `[[Float; 2]; 3]`. -/
def nestedArray : Token :=
  .group .bracket [.group .bracket [.ident "Float" .origin, .punct ';' false .origin,
      .literal (.number ['2']) .origin] .origin,
    .punct ';' false .origin, .literal (.number ['3']) .origin] .origin

/-- The tokens of `-> Int`. -/
def integerResult : List Token :=
  [.punct '-' true .origin, .punct '>' false .origin, .ident "Int" .origin]

/-- The tokens of the single parameter `[[Float; 2]; 3] a`. -/
def arrayParam : List Token :=
  [nestedArray, .ident "a" .origin]

/-- A function `f` with some signature and the body `{ a }`. -/
def functionOf (signature : List Token) : List Token :=
  functionTokens "f" .origin signature [.ident "a" .origin] .origin .origin .origin false false

/-- A function of a nested array is the same with its parameter in parentheses, before a comma or
without one, and with the parameter alone; and the nested array alone is the type of a result. -/
theorem spellings_record_nested :
    Word.isReserved "f" = false ∧ startsLower "f" = true ∧
      readBlock [.ident "a" .origin] = .ok (Block.ofStmts [.ref "a"]) ∧
      (∀ signature ∈ [.group .paren (arrayParam ++ [.punct ',' false .origin]) .origin ::
            integerResult, .group .paren arrayParam .origin :: integerResult,
          arrayParam ++ integerResult],
        SpellsSignature [("a", .array (.array .float 2) 3)] (some .int) signature ∧
          (Loaded.ofTokens [] (functionOf signature)).module =
            some ⟨[⟨"f", [("a", .array (.array .float 2) 3)], some .int,
              .body "f" (Block.ofStmts [.ref "a"])⟩], []⟩) ∧
      ∀ signature ∈ [[.group .paren [] .origin, .punct '-' true .origin, .punct '>' false .origin,
          nestedArray], [nestedArray]],
        SpellsSignature [] (some (.array (.array .float 2) 3)) signature ∧
          (Loaded.ofTokens [] (functionOf signature)).module =
            some ⟨[⟨"f", [], some (.array (.array .float 2) 3),
              .body "f" (Block.ofStmts [.ref "a"])⟩], []⟩ := by
  have hname : Word.isReserved "f" = false := by decide
  have hlower : startsLower "f" = true := by decide
  have hbody : readBlock [.ident "a" .origin] = .ok (Block.ofStmts [.ref "a"]) := by cbv
  have hmodule : ∀ {entries r signature}, SpellsSignature entries r signature →
      SpellsSignature entries r signature ∧ (Loaded.ofTokens [] (functionOf signature)).module =
        some ⟨[⟨"f", entries, r, .body "f" (Block.ofStmts [.ref "a"])⟩], []⟩ := by
    intro entries r signature hsignature
    have hrecord := spellings_record hname hlower hsignature hbody .origin .origin .origin .origin
      false false (.start []) []
    exact ⟨hsignature, hrecord.2.2⟩
  have harray : SpellsTy (.array (.array .float 2) 3) nestedArray :=
    .array (.array (.named rfl _) (Numeral.ofText_toDigits 2) (by decide) _ _ _ _)
      (Numeral.ofText_toDigits 3) (by decide) _ _ _ _
  have hparam : SpellsParam ("a", .array (.array .float 2) 3) arrayParam :=
    .mk harray (by decide) _
  have hresult : SpellsResult (some .int) integerResult := .some (.named rfl _) _ _ _
  refine ⟨hname, hlower, hbody, List.forall_mem_cons.mpr ⟨?_, List.forall_mem_cons.mpr ⟨?_, ?_⟩⟩,
    List.forall_mem_cons.mpr ⟨?_, ?_⟩⟩
  · exact hmodule (.list (.cons hparam .nil _ _) hresult _)
  · exact hmodule (.list (.last hparam) hresult _)
  · exact List.forall_mem_singleton.mpr (hmodule (.single hparam hresult))
  · exact hmodule (.list .nil (.some harray _ _ _) _)
  · exact List.forall_mem_singleton.mpr (hmodule (.bare harray))

end Grammar

end ShaderLang
