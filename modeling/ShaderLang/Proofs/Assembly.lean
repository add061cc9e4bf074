import ShaderLang.Proofs.Lexing

/-!
# Texts that are read as tokens

A text is read item by item, so the tokens of two texts one after the other are those of the first
and those of the second, if the first is not continued by the second.  `Lexes follow text kind` says
that a text is read as tokens of a kind wherever it stands, inside any groups and after any tokens,
before what `follow` allows.

Main results:

- Theorem `Lexes.append`: two texts are read one after the other.
- Theorem `Lexes.group`: a text between delimiters is read as a group.
- Theorem `tokenize_of_lexes`: a text that is read as tokens by itself is the text of those tokens.
-/

namespace ShaderLang

namespace Lexeme

open Text

/-! ## The whole text -/

/-- The lexemes of a text are those of its first item and those of the rest. -/
theorem lexemes_append {place : Pos} {text rest : List Char} {found : List Lexeme}
    (hne : text ≠ []) (h : item place (text ++ rest) = (found, some text.length)) :
    lexemes place (text ++ rest) = found ++ lexemes (place.after text) rest := by
  obtain ⟨c, cs, rfl⟩ := List.exists_cons_of_ne_nil hne
  rw [List.cons_append] at h ⊢
  rw [lexemes, h]
  simp only [List.length_cons, Nat.add_sub_cancel, List.take_left, List.drop_left]

/-- The lexemes of a text whose first item is one character. -/
theorem lexemes_cons {place : Pos} {c : Char} {rest : List Char} {found : List Lexeme}
    (h : item place (c :: rest) = (found, some 1)) :
    lexemes place (c :: rest) = found ++ lexemes (place.after [c]) rest :=
  @lexemes_append place [c] rest found (List.cons_ne_nil c []) h

/-! ## Texts and tokens -/

/-- A text is read as tokens of a kind, whatever stands before it and around it, where what follows
is as it has to be. -/
def Lexes (follow : List Char → Prop) (text : List Char) (kind : List Token → Prop) : Prop :=
  ∀ place rest, follow rest → ∃ tokens, kind tokens ∧ ∀ frames done,
    Token.assemble frames done (lexemes place (text ++ rest)) =
      Token.assemble frames (tokens.reverse ++ done) (lexemes (place.after text) rest)

section Lexes

variable {follow next : List Char → Prop} {text more : List Char}
  {kind other both : List Token → Prop}

/-- The kind of the tokens may be a weaker one. -/
theorem Lexes.imp (h : Lexes follow text kind) (hkind : ∀ tokens, kind tokens → other tokens) :
    Lexes follow text other := by
  intro place rest hrest
  obtain ⟨tokens, htokens, hread⟩ := h place rest hrest
  exact ⟨tokens, hkind tokens htokens, hread⟩

/-- No text is read as no tokens. -/
theorem Lexes.nil (h : kind []) : Lexes follow [] kind :=
  fun _ _ _ => ⟨[], h, fun _ _ => rfl⟩

/-- A text whose first item is one token of it is read as that token. -/
theorem Lexes.leaf (hne : text ≠ []) (h : ∀ place rest, follow rest →
      ∃ token, kind [token] ∧ item place (text ++ rest) = ([.leaf token], some text.length)) :
    Lexes follow text kind := by
  intro place rest hrest
  obtain ⟨token, htoken, hitem⟩ := h place rest hrest
  refine ⟨[token], htoken, fun frames done => ?_⟩
  rw [lexemes_append hne hitem, List.cons_append, Token.assemble]
  rfl

/-- A blank is read as no tokens. -/
theorem lexes_space : Lexes follow [' '] (· = []) := by
  intro place rest _
  refine ⟨[], rfl, fun frames done => ?_⟩
  rw [List.singleton_append, lexemes_cons (item_space place rest)]
  rfl

/-- Two texts are read one after the other. -/
theorem Lexes.append (h : Lexes follow text kind) (hmore : Lexes next more other)
    (hfollow : ∀ rest, next rest → follow (more ++ rest))
    (hboth : ∀ tokens tokens', kind tokens → other tokens' → both (tokens ++ tokens')) :
    Lexes next (text ++ more) both := by
  intro place rest hrest
  obtain ⟨tokens, htokens, hread⟩ := h place (more ++ rest) (hfollow rest hrest)
  obtain ⟨tokens', htokens', hread'⟩ := hmore (place.after text) rest hrest
  refine ⟨tokens ++ tokens', hboth tokens tokens' htokens htokens', fun frames done => ?_⟩
  rw [List.append_assoc, hread, hread', List.reverse_append, List.append_assoc, Pos.after_append]

/-- A text between delimiters is read as a group. -/
theorem Lexes.group {first last : Char} {delim : Delim} (hfirst : openDelim? first = some delim)
    (hlast : closeDelim? last = some delim) (h : Lexes follow text kind)
    (hfollow : ∀ rest, follow (last :: rest))
    (hgroup : ∀ tokens span, kind tokens → other [.group delim tokens span]) :
    Lexes next (first :: text ++ [last]) other := by
  intro place rest _
  obtain ⟨tokens, htokens, hread⟩ := h (place.after [first]) (last :: rest) (hfollow rest)
  have htext : first :: text ++ [last] ++ rest = first :: (text ++ last :: rest) := by simp
  have hafter : place.after (first :: text ++ [last]) =
      ((place.after [first]).after text).after [last] := by
    rw [← Pos.after_append, ← Pos.after_append]
    rfl
  let stop := (place.after [first]).after text
  refine ⟨_, hgroup tokens ⟨place, ⟨stop.line, stop.column + 1⟩⟩ htokens, fun frames done => ?_⟩
  rw [htext, lexemes_cons (item_opener hfirst place _), List.singleton_append, Token.assemble,
    hread, lexemes_cons (item_closer hlast _ rest), List.singleton_append, Token.assemble,
    if_pos rfl, hafter, List.append_nil, List.reverse_reverse]
  rfl

/-- An identifier is read as a name. -/
theorem lexes_identifier {name : String} (h : isIdentifier name.toList = true) :
    Lexes Ends name.toList fun tokens => ∃ span, tokens = [.ident name span] := by
  refine Lexes.leaf ?_ fun place rest hrest =>
    ⟨.ident name ⟨place, place.after name.toList⟩, ⟨_, rfl⟩, ?_⟩
  · obtain ⟨c, cs, hname, -⟩ := exists_of_isIdentifier h
    rw [hname]
    exact List.cons_ne_nil c cs
  · rw [item_identifier h hrest.stop hrest.opensQuote_eq_false place, String.ofList_toList]

/-- Decimal digits are read as a literal. -/
theorem lexes_number {digits : List Char} (hdigits : ∀ c ∈ digits, c.isDigit = true)
    (hne : digits ≠ []) : Lexes Ends digits fun tokens =>
      ∃ span, tokens = [.literal (.number digits) span] :=
  Lexes.leaf hne fun place _ hrest => ⟨_, ⟨_, rfl⟩, item_digits hdigits hne hrest place⟩

/-- The decimal digits of a number are read as a literal. -/
theorem lexes_digits (n : Nat) : Lexes Ends (Nat.toDigits 10 n) fun tokens =>
    ∃ span, tokens = [.literal (.number (Nat.toDigits 10 n)) span] :=
  lexes_number (isDigit_of_toDigits n) Nat.toDigits_ne_nil

/-- A mark is read as one, joint if a mark follows. -/
theorem lexes_mark {c : Char} {joint : Bool} (hc : c ∈ plainMarks)
    (hfollow : ∀ rest, follow rest → startsMark rest = joint ∧
      (c = '/' → startsWith (fun x => x == '/' || x == '*') rest = false)) :
    Lexes follow [c] fun tokens => ∃ span, tokens = [.punct c joint span] := by
  refine Lexes.leaf (List.cons_ne_nil c []) fun place rest hrest =>
    ⟨.punct c joint ⟨place, place.after [c]⟩, ⟨_, rfl⟩, ?_⟩
  obtain ⟨hjoint, hslash⟩ := hfollow rest hrest
  rw [List.singleton_append, item_mark hc hslash place, hjoint]
  rfl

/-- No item starts with a byte order mark. -/
theorem item_byteOrderMark (place : Pos) (cs : List Char) :
    item place ('\uFEFF' :: cs) = ([fault place], none) := by
  have hblank : isBlank '\uFEFF' = false := by decide
  have hcontinue : isIdentContinue '\uFEFF' = false := by decide +kernel
  have hstart : isIdentStart '\uFEFF' = false := by decide +kernel
  have hmark : '\uFEFF' ∉ marks := by decide
  have hquotes : opensQuote ('\uFEFF' :: cs) = false := by
    rw [opensQuote, List.dropWhile_cons_of_neg (by simp [hcontinue])]
    rfl
  have hpunctuation : punctuation? ('\uFEFF' :: cs) = none := by
    simp [punctuation?, startsMark, hmark]
  have hidentifier : identifier? ('\uFEFF' :: cs) = none := by
    simp [identifier?, identLength, hstart]
  have hleaf : leaf? place ('\uFEFF' :: cs) = none := by
    rw [leaf?, literal?_eq_number hquotes, number?_eq_none (by decide)]
    simp [hpunctuation, name?_eq_identifier hquotes, hidentifier]
  rw [item, blank?_eq_none (by decide) hblank, documentation?_eq_none (by decide)]
  simp [openDelim?, closeDelim?, hleaf]

/-- A text that is read as tokens by itself is the text of those tokens. -/
theorem tokenize_of_lexes {text : String} (h : Lexes follow text.toList kind)
    (hfollow : follow []) : ∃ tokens, kind tokens ∧ tokenize text = .ok tokens := by
  obtain ⟨tokens, htokens, hread⟩ := h .start [] hfollow
  refine ⟨tokens, htokens, ?_⟩
  have hassemble : Token.assemble [] [] (lexemes .start text.toList) = .ok tokens := by
    rw [List.append_nil] at hread
    rw [hread, lexemes, Token.assemble]
    simp
  rw [tokenize, ofText]
  · exact hassemble
  · intro cs hmark
    rw [hmark, lexemes, item_byteOrderMark, Token.assemble] at hassemble
    cases hassemble

end Lexes

end Lexeme

end ShaderLang
