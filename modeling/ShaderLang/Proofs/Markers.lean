import ShaderLang.Proofs.Junction

/-!
# Markers among tokens

The tokens of a masked text are those of its code with markers strewn among them, at any depth.
`Token.separate` takes the markers out again.  Lexemes with and without markers are put together to
trees in step: both readings open and close the same groups, and where one fails the other does.

Main results:

- Theorem `Strewn.separate`: separating strewn tokens gives the comments and the tokens alone.
- Theorem `agree_assemble`: lexemes that differ in markers give trees that differ in markers.
- Theorem `assemble_of_mem_fault`: a text with a fault is not put together.
-/

namespace ShaderLang

namespace Token

/-! ## Tokens without their places and without markers -/

mutual

/-- A token that does not tell where it stands. -/
def bare : Token → Token
  | ident text _ => ident text .origin
  | punct mark joint _ => punct mark joint .origin
  | literal value _ => literal value .origin
  | group delim content _ => group delim (bareAll content) .origin

/-- Tokens that do not tell where they stand. -/
def bareAll : List Token → List Token
  | [] => []
  | token :: rest => token.bare :: bareAll rest

end

/-- The comment that the brackets of a marker hold. -/
def comment? : List Token → Option Piece
  | [ident kind _, punct '=' _ _, literal (.string text) _] =>
    if kind = "line" then some (.line text)
    else if kind = "block" then some (.block text)
    else none
  | _ => none

/-- The comment of the marker that stands first, and the tokens after it. -/
def marker? : List Token → Option (Piece × List Token)
  | punct '#' _ _ :: group .bracket content _ :: rest => (comment? content).map (·, rest)
  | _ => none

/-- Fewer tokens are left after a marker. -/
theorem sizeOf_marker? {tokens rest : List Token} {comment : Piece}
    (h : marker? tokens = some (comment, rest)) : sizeOf rest < sizeOf tokens := by
  unfold marker? at h
  split at h
  · rcases Option.map_eq_some_iff.mp h with ⟨found, -, hfound⟩
    cases hfound
    simp only [List.cons.sizeOf_spec]
    omega
  · cases h

/-- Take the markers out of some tokens: the comments in order, and the tokens that are left.  A
mark directly before a marker is not joint with it. -/
def separate (tokens : List Token) : List Piece × List Token :=
  match _h : marker? tokens with
  | some (comment, rest) => (comment :: (separate rest).1, (separate rest).2)
  | none =>
    match tokens with
    | [] => ([], [])
    | group delim content span :: rest =>
      ((separate content).1 ++ (separate rest).1,
        group delim (separate content).2 span :: (separate rest).2)
    | punct mark joint span :: rest =>
      ((separate rest).1, punct mark (joint && (marker? rest).isNone) span :: (separate rest).2)
    | token :: rest => ((separate rest).1, token :: (separate rest).2)
termination_by sizeOf tokens
decreasing_by
  all_goals first
    | exact sizeOf_marker? _h
    | (simp only [List.cons.sizeOf_spec, group.sizeOf_spec]; omega)

/-! ## Strewn tokens -/

/-- Tokens that hold markers of comments, and the same tokens without them.  The flag tells that a
marker stands first; a mark before it is joint only with the marker. -/
inductive Strewn : Bool → List Piece → List Token → List Token → Prop where
  | nil : Strewn false [] [] []
  | name {flag : Bool} {comments : List Piece} {tokens left : List Token} (text : String)
      (span span' : Span) (hrest : Strewn flag comments tokens left) :
      Strewn false comments (ident text span :: tokens) (ident text span' :: left)
  | number {flag : Bool} {comments : List Piece} {tokens left : List Token} (text : List Char)
      (span span' : Span) (hrest : Strewn flag comments tokens left) :
      Strewn false comments (literal (.number text) span :: tokens)
        (literal (.number text) span' :: left)
  | mark {flag : Bool} {comments : List Piece} {tokens left : List Token} (mark : Char)
      (joint : Bool) (span span' : Span) (hrest : Strewn flag comments tokens left) :
      Strewn false comments (punct mark joint span :: tokens)
        (punct mark (joint && !flag) span' :: left)
  | group {flag flag' : Bool} {inside comments : List Piece} {content kept tokens left : List Token}
      (delim : Delim) (span span' : Span) (hcontent : Strewn flag inside content kept)
      (hrest : Strewn flag' comments tokens left) :
      Strewn false (inside ++ comments) (group delim content span :: tokens)
        (group delim kept span' :: left)
  | marker {flag : Bool} {comments : List Piece} {content tokens left : List Token}
      {comment : Piece} (joint : Bool) (span span' : Span) (hcomment : comment? content = some comment)
      (hrest : Strewn flag comments tokens left) :
      Strewn true (comment :: comments)
        (punct '#' joint span :: Token.group .bracket content span' :: tokens) left

section Strewn

variable {flag : Bool} {comments : List Piece} {tokens left : List Token}

/-- No strewn tokens are what the brackets of a marker hold, since no string stands among them. -/
theorem Strewn.comment?_eq_none (h : Strewn flag comments tokens left) :
    comment? tokens = none := by
  unfold comment?
  split
  · rcases h with _ | ⟨_, _, _, h⟩
    rcases h with _ | _ | _ | ⟨_, _, _, _, h⟩
    cases h
  · rfl

/-- The flag tells that a marker stands first. -/
theorem Strewn.isNone_marker? (h : Strewn flag comments tokens left) :
    (marker? tokens).isNone = !flag := by
  cases h with
  | nil => rfl
  | name text span span' hrest => rfl
  | number text span span' hrest => rfl
  | group delim span span' hcontent hrest => rfl
  | marker joint span span' hcomment hrest => simp [marker?, hcomment]
  | mark mark joint span span' hrest =>
    unfold marker?
    split
    · rename_i heq
      cases heq
      -- A group after a number sign is one of the code.
      cases hrest with
      | group delim span span' hcontent hrest => simp [hcontent.comment?_eq_none]
    · rfl

/-- Separating strewn tokens gives the comments and the tokens alone. -/
theorem Strewn.separate (h : Strewn flag comments tokens left) :
    (separate tokens).1 = comments ∧ bareAll (separate tokens).2 = bareAll left := by
  have hfirst := h.isNone_marker?
  induction h with
  | nil => simp [Token.separate, marker?]
  | name text span span' hrest ih =>
    have hleft := ih hrest.isNone_marker?
    rw [Token.separate]
    simp [marker?, hleft, bareAll, bare]
  | number text span span' hrest ih =>
    have hleft := ih hrest.isNone_marker?
    rw [Token.separate]
    simp [marker?, hleft, bareAll, bare]
  | mark mark joint span span' hrest ih =>
    have hleft := ih hrest.isNone_marker?
    rw [Token.separate]
    split
    · simp_all
    · simp [hleft, bareAll, bare, hrest.isNone_marker?]
  | group delim span span' hcontent hrest ihcontent ihrest =>
    have hinside := ihcontent hcontent.isNone_marker?
    have hleft := ihrest hrest.isNone_marker?
    rw [Token.separate]
    simp [marker?, hinside, hleft, bareAll, bare]
  | marker joint span span' hcomment hrest ih =>
    have hleft := ih hrest.isNone_marker?
    rw [Token.separate]
    split
    · rename_i heq
      rw [marker?, hcomment, Option.map_some, Option.some.injEq, Prod.mk.injEq] at heq
      rcases heq with ⟨rfl, rfl⟩
      simp [hleft]
    · simp_all

end Strewn

/-! ## Putting lexemes together in step -/

/-- Lexemes of a spaced text and of the masked text, and the comments between them.  The flag tells
that a marker stands first in the masked text; a mark before it is joint only with the marker. -/
inductive Marked : Bool → List Piece → List Lexeme → List Lexeme → Prop where
  | nil : Marked false [] [] []
  /-- Neither text is read any further. -/
  | fault (comments : List Piece) (place place' : Pos) :
      Marked false comments [.fault place] [.fault place']
  | name {flag : Bool} {comments : List Piece} {spaced masked : List Lexeme} (text : String)
      (span span' : Span) (hrest : Marked flag comments spaced masked) :
      Marked false comments (.leaf (ident text span) :: spaced) (.leaf (ident text span') :: masked)
  | token {flag : Bool} {comments : List Piece} {spaced masked : List Lexeme} {first first' : Lexeme}
      (hfirst : Lexeme.Alike first first') (hrest : Marked flag comments spaced masked) :
      Marked false comments (first :: spaced) (first' :: masked)
  | mark {flag : Bool} {comments : List Piece} {spaced masked : List Lexeme} (mark : Char)
      (joint : Bool) (span span' : Span) (hrest : Marked flag comments spaced masked) :
      Marked false comments (.leaf (punct mark (joint && !flag) span) :: spaced)
        (.leaf (punct mark joint span') :: masked)
  | marker {flag : Bool} {comments : List Piece} {spaced masked : List Lexeme}
      {content : List Token} {comment : Piece} (span : Span) (place place' : Pos)
      (hcomment : comment? content = some comment) (hrest : Marked flag comments spaced masked) :
      Marked true (comment :: comments) spaced
        (.leaf (punct '#' false span) :: .opener .bracket place ::
          (content.map .leaf ++ .closer .bracket place' :: masked))

/-- Tokens that are read already, latest first, with and without markers: whatever strewn tokens
follow, all together are strewn. -/
def Precedes (flag : Bool) (comments : List Piece) (done done' : List Token) : Prop :=
  ∀ more tokens left, Strewn flag more tokens left →
    ∃ flag', Strewn flag' (comments ++ more) (done'.reverse ++ tokens) (done.reverse ++ left)

/-- The same groups are open, with strewn tokens before each. -/
inductive Nested : List Piece → List Frame → List Frame → Prop where
  | nil : Nested [] [] []
  | cons {comments before : List Piece} {frames frames' : List Frame} {outer outer' : List Token}
      (delim : Delim) (place place' : Pos) (houter : Precedes false before outer outer')
      (hframes : Nested comments frames frames') :
      Nested (comments ++ before) (⟨delim, place, outer⟩ :: frames) (⟨delim, place', outer'⟩ :: frames')

/-- Either both readings fail, or the trees of the masked text are strewn with the comments. -/
def Agree (comments : List Piece) : Except Pos (List Token) → Except Pos (List Token) → Prop
  | .ok left, .ok tokens => ∃ flag, Strewn flag comments tokens left
  | .error _, .error _ => True
  | _, _ => False

section Assemble

variable {flag : Bool} {comments before more : List Piece} {frames frames' : List Frame}
  {done done' : List Token} {spaced masked : List Lexeme}

/-- Leaf tokens are added one after the other. -/
theorem assemble_leaves (frames : List Frame) (done tokens : List Token) (rest : List Lexeme) :
    assemble frames done (tokens.map .leaf ++ rest) =
      assemble frames (tokens.reverse ++ done) rest := by
  induction tokens generalizing done with
  | nil => rfl
  | cons token tokens ih => simp [assemble, ih]

/-- A text with a fault is not put together. -/
theorem assemble_of_mem_fault {place : Pos} {lexemes : List Lexeme}
    (h : .fault place ∈ lexemes) (frames : List Frame) (done tokens : List Token) :
    assemble frames done lexemes ≠ .ok tokens := by
  fun_induction assemble frames done lexemes <;> simp_all

/-- At the start nothing precedes. -/
theorem precedes_nil : Precedes flag [] [] [] :=
  fun _ _ _ hrest => ⟨flag, hrest⟩

/-- One more token precedes on both sides. -/
theorem Precedes.token {flag' : Bool} {token token' : Token} (h : Precedes flag before done done')
    (htoken : ∀ more tokens left, Strewn flag' more tokens left →
      Strewn flag more (token' :: tokens) (token :: left)) :
    Precedes flag' before (token :: done) (token' :: done') := by
  intro more tokens left hrest
  simpa using h _ _ _ (htoken more tokens left hrest)

/-- A group that is closed precedes on both sides. -/
theorem Precedes.group {flag' : Bool} {inside : List Piece} {content kept : List Token}
    (h : Precedes false before done done') (hcontent : Strewn flag inside content kept)
    (delim : Delim) (span span' : Span) :
    Precedes flag' (before ++ inside) (.group delim kept span :: done)
      (.group delim content span' :: done') := by
  intro more tokens left hrest
  simpa using h _ _ _ (.group delim span' span hcontent hrest)

/-- A marker precedes on one side. -/
theorem Precedes.marker {flag' : Bool} {content : List Token} {comment : Piece}
    (h : Precedes true before done done') (hcomment : comment? content = some comment)
    (joint : Bool) (span span' : Span) :
    Precedes flag' (before ++ [comment]) done
      (.group .bracket content span' :: punct '#' joint span :: done') := by
  intro more tokens left hrest
  simpa using h _ _ _ (.marker joint span span' hcomment hrest)

/-- Lexemes that differ in markers give trees that differ in markers: by induction on the lexemes,
with the tokens read so far and the open groups in step. -/
theorem agree_assemble (h : Marked flag more spaced masked)
    (hframes : Nested comments frames frames') (hdone : Precedes flag before done done') :
    Agree (comments ++ before ++ more) (assemble frames done spaced)
      (assemble frames' done' masked) := by
  induction h generalizing comments before frames frames' done done' with
  | nil =>
    cases hframes with
    | nil => simpa [assemble, Agree] using hdone _ _ _ .nil
    | cons delim place place' houter hframes => simp [assemble, Agree]
  | fault more place place' => cases hframes <;> simp [assemble, Agree]
  | name text span span' hrest ih =>
    have hread := ih hframes (hdone.token fun _ _ _ => .name text span' span)
    simpa [assemble] using hread
  | token hfirst hrest ih =>
    cases hfirst with
    | number text span span' =>
      have hread := ih hframes (hdone.token fun _ _ _ => .number text span' span)
      simpa [assemble] using hread
    | opener delim place place' =>
      have hread := ih (hframes.cons delim place place' hdone) precedes_nil
      simpa [assemble] using hread
    | closer delim place place' =>
      cases hframes with
      | nil => simp [assemble, Agree]
      | cons delim' start start' houter hframes =>
        by_cases hdelim : delim' = delim
        · rcases hdone _ _ _ .nil with ⟨_, hcontent⟩
          have hread := ih hframes (houter.group hcontent delim
            ⟨start, ⟨place.line, place.column + 1⟩⟩ ⟨start', ⟨place'.line, place'.column + 1⟩⟩)
          simpa [assemble, hdelim] using hread
        · simp [assemble, hdelim, Agree]
  | mark mark joint span span' hrest ih =>
    have hread := ih hframes (hdone.token fun _ _ _ => .mark mark joint span' span)
    simpa [assemble] using hread
  | marker span place place' hcomment hrest ih =>
    have hread := ih hframes
      (hdone.marker hcomment false span ⟨place, ⟨place'.line, place'.column + 1⟩⟩)
    simpa [assemble, assemble_leaves] using hread

end Assemble

end Token

end ShaderLang
