import ShaderLang.Proofs.Lexing
import ShaderLang.Proofs.Vocabulary

/-!
# Words of a text

The names among the tokens of a text, at any depth, are identifiers that stand in it: putting
lexemes together adds no names.  So no slash stands in a name of what a source amounts to.

Main results:

- Theorem `hasName_assemble`: a name among assembled tokens is one of the lexemes.
- Theorem `slash_not_mem_of_tokenize`: no slash stands in a name of a text.
- Theorem `suitsSource_slashless`: names without slashes suit every source.
-/

namespace ShaderLang

/-! ## Names among tokens -/

namespace Token

variable {text : String}

/-- A name stands among some tokens, at any depth. -/
def HasName (text : String) (tokens : List Token) : Prop :=
  ∃ span, Within (.ident text span) tokens

@[simp]
theorem not_hasName_nil : ¬ HasName text [] := by
  rintro ⟨span, h⟩
  cases h

theorem hasName_cons_iff {token : Token} {rest : List Token} :
    HasName text (token :: rest) ↔ HasName text [token] ∨ HasName text rest := by
  constructor
  · rintro ⟨span, h⟩
    cases h with
    | head => exact .inl ⟨span, .head⟩
    | tail h => exact .inr ⟨span, h⟩
    | inside h => exact .inl ⟨span, .inside h⟩
  · rintro (⟨span, h⟩ | ⟨span, h⟩)
    · cases h with
      | head => exact ⟨span, .head⟩
      | tail h => cases h
      | inside h => exact ⟨span, .inside h⟩
    · exact ⟨span, .tail h⟩

@[simp]
theorem hasName_group_iff {delim : Delim} {content : List Token} {place : Span} :
    HasName text [.group delim content place] ↔ HasName text content := by
  constructor
  · rintro ⟨span, h⟩
    cases h with
    | tail h => cases h
    | inside h => exact ⟨span, h⟩
  · rintro ⟨span, h⟩
    exact ⟨span, .inside h⟩

@[simp]
theorem hasName_ident_iff {word : String} {place : Span} :
    HasName text [.ident word place] ↔ word = text := by
  constructor
  · rintro ⟨span, h⟩
    cases h with
    | head => rfl
    | tail h => cases h
  · rintro rfl
    exact ⟨place, .head⟩

@[simp]
theorem not_hasName_punct {mark : Char} {joint : Bool} {place : Span} :
    ¬ HasName text [.punct mark joint place] := by
  rintro ⟨span, h⟩
  cases h with
  | tail h => cases h

@[simp]
theorem not_hasName_literal {value : Literal} {place : Span} :
    ¬ HasName text [.literal value place] := by
  rintro ⟨span, h⟩
  cases h with
  | tail h => cases h

/-- A name stands among tokens exactly if it stands in one of them. -/
theorem hasName_iff {tokens : List Token} :
    HasName text tokens ↔ ∃ token ∈ tokens, HasName text [token] := by
  induction tokens with
  | nil => simp
  | cons token rest ih =>
    rw [hasName_cons_iff, ih]
    simp

@[simp]
theorem hasName_reverse_iff {tokens : List Token} :
    HasName text tokens.reverse ↔ HasName text tokens := by
  rw [hasName_iff, @hasName_iff text tokens]
  simp

/-- A name among assembled tokens stands in one of the lexemes, or among the tokens before them. -/
theorem hasName_assemble {frames : List Frame} {done : List Token} {lexemes : List Lexeme}
    {tokens : List Token} (h : assemble frames done lexemes = .ok tokens)
    (hname : HasName text tokens) :
    (∃ token, .leaf token ∈ lexemes ∧ HasName text [token]) ∨ HasName text done ∨
      ∃ frame ∈ frames, HasName text frame.outer := by
  fun_induction assemble frames done lexemes with
  | case1 done =>
    cases h
    exact .inr (.inl (hasName_reverse_iff.mp hname))
  | case3 frames done token rest ih =>
    rcases ih h with ⟨leaf, hleaf, hin⟩ | hdone | houter
    · exact .inl ⟨leaf, List.mem_cons_of_mem _ hleaf, hin⟩
    · rcases hasName_cons_iff.mp hdone with hin | hdone
      · exact .inl ⟨token, List.mem_cons_self, hin⟩
      · exact .inr (.inl hdone)
    · exact .inr (.inr houter)
  | case4 frames done delim place rest ih =>
    rcases ih h with ⟨leaf, hleaf, hin⟩ | hdone | houter
    · exact .inl ⟨leaf, List.mem_cons_of_mem _ hleaf, hin⟩
    · exact (not_hasName_nil hdone).elim
    · rcases houter with ⟨frame, hframe, hin⟩
      rcases List.mem_cons.mp hframe with rfl | hframe
      · exact .inr (.inl hin)
      · exact .inr (.inr ⟨frame, hframe, hin⟩)
  | case6 frame frames done place rest span ih =>
    rcases ih h with ⟨leaf, hleaf, hin⟩ | hdone | houter
    · exact .inl ⟨leaf, List.mem_cons_of_mem _ hleaf, hin⟩
    · rcases hasName_cons_iff.mp hdone with hin | hdone
      · rw [hasName_group_iff, hasName_reverse_iff] at hin
        exact .inr (.inl hin)
      · exact .inr (.inr ⟨frame, List.mem_cons_self, hdone⟩)
    · rcases houter with ⟨outer, houter, hin⟩
      exact .inr (.inr ⟨outer, List.mem_cons_of_mem _ houter, hin⟩)
  | _ => cases h

end Token

/-! ## Names of lexemes -/

namespace Lexeme

open Text

/-- No slash stands in an identifier. -/
theorem slash_not_mem_of_identifier? {cs : List Char} {n : Nat} (h : identifier? cs = some n) :
    '/' ∉ cs.take n := by
  have hlength : ∀ cs : List Char, '/' ∉ cs.take (identLength cs) := by
    intro cs
    cases cs with
    | nil => simp [identLength]
    | cons c cs =>
      rw [identLength]
      split
      · rename_i hstart
        have htake : cs.take (cs.takeWhile isIdentContinue).length = cs.takeWhile isIdentContinue :=
          (List.prefix_iff_eq_take.mp (List.takeWhile_prefix _)).symm
        rw [List.take_succ_cons, htake, List.mem_cons, not_or]
        refine ⟨?_, fun hmem => ?_⟩
        · rintro rfl
          exact absurd hstart (by decide)
        · have hslash := List.mem_takeWhile_imp hmem
          exact absurd hslash (by decide)
      · simp
  unfold identifier? at h
  split at h
  · rename_i cs
    simp only at h
    split at h
    · cases h
    · cases h
      simpa using hlength cs
  · simp only at h
    split at h
    · cases h
    · cases h
      exact hlength cs

/-- No slash stands in a name of a leaf token. -/
theorem slash_not_mem_of_leaf? {place : Pos} {cs : List Char} {token : Token} {n : Nat}
    {text : String} (h : leaf? place cs = some (token, n)) (hname : Token.HasName text [token]) :
    '/' ∉ text.toList := by
  unfold leaf? at h
  simp only at h
  split at h
  · cases h
    simp at hname
  · split at h
    · cases h
      simp at hname
    · rcases Option.map_eq_some_iff.mp h with ⟨length, hlength, htoken⟩
      cases htoken
      rw [← Token.hasName_ident_iff.mp hname, String.toList_ofList]
      unfold name? at hlength
      split at hlength
      · cases hlength
      · exact slash_not_mem_of_identifier? hlength

/-- No slash stands in a name of an item. -/
theorem slash_not_mem_of_item {place : Pos} {cs : List Char} {token : Token} {text : String}
    (h : .leaf token ∈ (item place cs).1) (hname : Token.HasName text [token]) :
    '/' ∉ text.toList := by
  unfold item at h
  split at h
  · cases h
  · split at h
    · rename_i doc _
      rcases List.mem_map.mp h with ⟨found, hfound, heq⟩
      cases heq
      have htext : "doc" = text := by
        rw [documentationTokens, List.mem_append, List.mem_cons, List.mem_singleton] at hfound
        rcases hfound with (rfl | hmark) | rfl
        · simp at hname
        · split at hmark
          · rw [List.mem_singleton.mp hmark] at hname
            simp at hname
          · cases hmark
        · rw [Token.hasName_group_iff, Token.hasName_iff] at hname
          simpa using hname
      rw [← htext]
      decide
    · split at h
      · simp at h
      · split at h
        · simp at h
        · split at h
          · rename_i found n hleaf
            simp only [List.mem_singleton, Lexeme.leaf.injEq] at h
            exact slash_not_mem_of_leaf? hleaf (h ▸ hname)
          · simp at h

/-- No slash stands in a name of a lexeme. -/
theorem slash_not_mem_of_lexemes {place : Pos} {cs : List Char} {token : Token} {text : String}
    (h : .leaf token ∈ lexemes place cs) (hname : Token.HasName text [token]) :
    '/' ∉ text.toList := by
  fun_induction lexemes place cs with
  | case1 => cases h
  | case2 place c rest found hitem =>
    have hleaf : .leaf token ∈ (item place (c :: rest)).1 := by rwa [hitem]
    exact slash_not_mem_of_item hleaf hname
  | case3 place c rest found n hitem ih =>
    rcases List.mem_append.mp h with hfound | hmore
    · have hleaf : .leaf token ∈ (item place (c :: rest)).1 := by rwa [hitem]
      exact slash_not_mem_of_item hleaf hname
    · exact ih hmore

end Lexeme

/-- No slash stands in a name of a text. -/
theorem slash_not_mem_of_tokenize {cs : String} {tokens : List Token} {text : String}
    (h : tokenize cs = .ok tokens) (hname : Token.HasName text tokens) : '/' ∉ text.toList := by
  rcases Token.hasName_assemble h hname with ⟨token, htoken, hin⟩ | hnil | ⟨frame, hnil, -⟩
  · unfold Lexeme.ofText at htoken
    split at htoken
    · exact Lexeme.slash_not_mem_of_lexemes htoken hin
    · exact Lexeme.slash_not_mem_of_lexemes htoken hin
  · exact (Token.not_hasName_nil hnil).elim
  · cases hnil

/-- Names and fields without slashes, and any comments. -/
def Vocabulary.slashless : Vocabulary :=
  ⟨fun name => '/' ∉ name.toList, fun name => '/' ∉ name.toList, fun _ => True⟩

/-- Names without slashes suit every source. -/
theorem Vocabulary.suitsSource_slashless (source : List Char) : slashless.SuitsSource source := by
  intro masked tokens _ htokens
  exact ⟨fun hname _ => slash_not_mem_of_tokenize htokens ⟨_, hname⟩,
    fun hname => slash_not_mem_of_tokenize htokens ⟨_, hname⟩, fun _ _ => trivial⟩

end ShaderLang
