import ShaderLang.Proofs.Markers

/-!
# Masking and tokens

The marker of a comment stands directly between the code before and after the comment.  A masked
text is read as the text in which a blank stands for each comment, with one marker for each comment
strewn among the tokens: no token of the code reaches into a marker.  There is one exception: a
number sign makes the names `r`, `br` and `cr` the start of something raw, so a comment directly
after one of them leaves a masked text that cannot be read.

Main results:

- Theorem `Follows.code`: code is read in the same way before a blank and before a marker.
- Theorem `lexemes_marker`: a marker is read as its tokens.
- Theorem `tokenize_masked`: the tokens of a masked text are those of the spaced text with markers.
-/

namespace ShaderLang

open Text

/-! ## Spaced text -/

namespace Piece

/-- What stands for a piece where a blank and the line feeds of a comment stand for the comment. -/
def spaced : Piece → List Char
  | code text => text
  | line text | block text => ' ' :: text.filter (· == '\n')

/-- The comment of a piece as its marker holds it: without carriage returns. -/
def remark? : Piece → Option Piece
  | code _ => none
  | line text => some (.line (text.filter (· != '\r')))
  | block text => some (.block (text.filter (· != '\r')))

end Piece

/-- Some text leads to another place. -/
theorem Pos.after_ne {cs : List Char} (hne : cs ≠ []) (place : Pos) : place.after cs ≠ place := by
  have hafter : ∀ (cs : List Char) (place : Pos), place.line < (place.after cs).line ∨
      (place.after cs).line = place.line ∧ (place.after cs).column = place.column + cs.length := by
    intro cs
    induction cs with
    | nil => exact fun place => .inr ⟨rfl, rfl⟩
    | cons c cs ih =>
      intro place
      have hnext := ih (place.next c)
      rw [Pos.after_cons, List.length_cons]
      by_cases hc : c = '\n'
      · simp only [Pos.next, hc, if_true] at hnext ⊢
        omega
      · simp only [Pos.next, hc, if_false] at hnext ⊢
        omega
  intro heq
  have hplace := hafter cs place
  have hlength := List.length_pos_iff.mpr hne
  rw [heq] at hplace
  omega

namespace Lexeme

/-! ## Code item by item -/

/-- The last token of some code is one of the names that a number sign makes raw, and nothing stands
after it. -/
def EndsRaw (place : Pos) (code : List Char) (read : List Lexeme) : Prop :=
  ∃ text start, read.getLast? = some (.leaf (.ident text ⟨start, place.after code⟩)) ∧
    text.toList ∈ rawPrefixes

section Items

variable {place : Pos} {cs rest : List Char} {found : List Lexeme} {n : Nat}

/-- The lexemes of some code are those of its first item and those of the rest. -/
theorem lexemes_take (hn : 0 < n ∧ n ≤ cs.length)
    (h : item place (cs ++ rest) = (found, some n)) :
    lexemes place (cs ++ rest) =
      found ++ lexemes (place.after (cs.take n)) (cs.drop n ++ rest) := by
  have hlength : (cs.take n).length = n := by
    rw [List.length_take]
    omega
  have hne : cs.take n ≠ [] := by
    intro hnil
    rw [hnil, List.length_nil] at hlength
    omega
  have hsplit : cs ++ rest = cs.take n ++ (cs.drop n ++ rest) := by
    rw [← List.append_assoc, List.take_append_drop]
  have hitem : item place (cs.take n ++ (cs.drop n ++ rest)) =
      (found, some (cs.take n).length) := by
    rw [hlength, ← hsplit, h]
  rw [hsplit]
  exact lexemes_append hne hitem

/-- The lexemes of some code alone. -/
theorem lexemes_take_self (hn : 0 < n ∧ n ≤ cs.length)
    (h : item place (cs ++ []) = (found, some n)) :
    lexemes place cs = found ++ lexemes (place.after (cs.take n)) (cs.drop n) := by
  have hread := lexemes_take hn h
  rwa [List.append_nil, List.append_nil] at hread

/-- Some code ends raw if it does after its first item. -/
theorem EndsRaw.of_drop {read more : List Lexeme} (hread : read = found ++ more)
    (h : EndsRaw (place.after (cs.take n)) (cs.drop n) more) : EndsRaw place cs read := by
  rcases h with ⟨text, start, hlast, htext⟩
  refine ⟨text, start, ?_, htext⟩
  rw [hread, List.getLast?_append, hlast, ← Pos.after_append, List.take_append_drop]
  rfl

/-- Some code that ends raw does so after its first item, or that item is its last token. -/
theorem EndsRaw.drop {read more : List Lexeme} (hread : read = found ++ more)
    (h : EndsRaw place cs read) :
    EndsRaw (place.after (cs.take n)) (cs.drop n) more ∨
      ∃ text start, found.getLast? = some (.leaf (.ident text ⟨start, place.after cs⟩)) ∧
        text.toList ∈ rawPrefixes := by
  rcases h with ⟨text, start, hlast, htext⟩
  rw [hread, List.getLast?_append] at hlast
  cases hmore : more.getLast? with
  | none =>
    rw [hmore] at hlast
    exact .inr ⟨text, start, hlast, htext⟩
  | some last =>
    rw [hmore, Option.some_or] at hlast
    refine .inl ⟨text, start, ?_, htext⟩
    rw [hmore, hlast, ← Pos.after_append, List.take_append_drop]

/-- Some code that ends raw does so after its first item, or all of it is a name that a number sign
makes raw. -/
theorem EndsRaw.drop_or_mem (hn : 0 < n ∧ n ≤ cs.length)
    (hitem : item place (cs ++ []) = (found, some n))
    (hname : ∀ text start stop, found.getLast? = some (.leaf (.ident text ⟨start, stop⟩)) →
      text.toList = cs.take n ∧ stop = place.after (cs.take n))
    (h : EndsRaw place cs (lexemes place cs)) :
    EndsRaw (place.after (cs.take n)) (cs.drop n)
        (lexemes (place.after (cs.take n)) (cs.drop n)) ∨ cs ∈ rawPrefixes := by
  rcases h.drop (lexemes_take_self hn hitem) with hmore | ⟨text, first, hlast, htext⟩
  · exact .inl hmore
  · rcases hname _ _ _ hlast with ⟨hcs, hstop⟩
    have hwhole : cs.drop n = [] := by
      by_contra hdrop
      refine Pos.after_ne hdrop (place.after (cs.take n)) ?_
      rw [← Pos.after_append, List.take_append_drop, hstop]
    rw [hcs, ← List.append_nil (cs.take n), ← hwhole, List.take_append_drop] at htext
    exact .inr htext

/-- One of the names that a number sign makes raw ends raw. -/
theorem endsRaw_of_mem (hraw : cs ∈ rawPrefixes) (place : Pos) :
    EndsRaw place cs (lexemes place cs) := by
  have hpos : 0 < cs.length := by
    have hall : ∀ cs ∈ rawPrefixes, 0 < cs.length := by decide
    exact hall cs hraw
  have hread := lexemes_take_self ⟨hpos, le_refl _⟩
    (by rw [List.append_nil]; exact item_rawPrefix hraw place)
  rw [List.drop_length, lexemes, List.append_nil] at hread
  refine ⟨String.ofList cs, place, ?_, ?_⟩
  · rw [hread]
    rfl
  · rwa [String.toList_ofList]

/-- Nothing is read after a fault. -/
theorem lexemes_fault (hne : cs ≠ []) (h : item place cs = (found, none)) :
    lexemes place cs = found := by
  rcases List.exists_cons_of_ne_nil hne with ⟨c, cs, rfl⟩
  rw [lexemes, h]

end Items

/-- Induction on code, from the rest after its first item to all of it. -/
theorem Plain.induct {motive : (cs : List Char) → Plain cs → Prop}
    (nil : ∀ h, motive [] h)
    (cons : ∀ cs h, cs ≠ [] → Starts cs → (∀ n, 0 < n → motive (cs.drop n) (h.drop n)) →
      motive cs h)
    (cs : List Char) (h : Plain cs) : motive cs h := by
  induction hlength : cs.length using Nat.strongRecOn generalizing cs with
  | ind k ih =>
    cases cs with
    | nil => exact nil h
    | cons c tail =>
      refine cons _ h (List.cons_ne_nil c tail) h.starts fun n hn => ?_
      refine ih ((c :: tail).drop n).length ?_ _ (h.drop n) rfl
      rw [List.length_drop, ← hlength, List.length_cons]
      omega

/-! ## Code before blanks and markers -/

/-- Two texts, the second with markers where the first has blanks, are read as lexemes that differ
in markers.  A mark before both is joint in the first just if it is joint in the second with more
than a marker. -/
def Follows (comments : List Piece) (spaced masked : List Char) : Prop :=
  ∀ place place', ∃ flag, Token.Marked flag comments (lexemes place spaced) (lexemes place' masked) ∧
    startsMark spaced = (startsMark masked && !flag)

section Follows

variable {comments : List Piece} {spaced masked : List Char} {cs : List Char}

theorem follows_nil : Follows [] [] [] := by
  intro place place'
  rw [lexemes, lexemes]
  exact ⟨false, .nil, rfl⟩

/-- Code is read in the same way before a blank and before a marker, if it does not end in a name
that is lost there. -/
theorem Follows.code (h : Plain cs) (hspaced : Breaks spaced) (hmasked : Breaks masked)
    (hblank : ∀ rest, spaced ≠ '#' :: '[' :: rest)
    (hraw : (∃ rest, masked = '#' :: '[' :: rest) → ∃ place, ¬ EndsRaw place cs (lexemes place cs))
    (hfollows : Follows comments spaced masked) :
    Follows comments (cs ++ spaced) (cs ++ masked) := by
  induction cs, h using Plain.induct with
  | nil h => exact hfollows
  | cons cs h hne hstarts ih =>
    have hname : cs ∈ rawPrefixes → ∀ rest, masked ≠ '#' :: '[' :: rest := by
      intro hmem rest hrest
      rcases hraw ⟨rest, hrest⟩ with ⟨place, hends⟩
      exact hends (endsRaw_of_mem hmem place)
    -- The rest after the first item does not end raw either.
    have hrest : ∀ n, 0 < n ∧ n ≤ cs.length →
        (∀ place, ∃ found, item place (cs ++ []) = (found, some n)) →
        Follows comments (cs.drop n ++ spaced) (cs.drop n ++ masked) := by
      intro n hn hitem
      refine ih n hn.1 fun hmarker => ?_
      rcases hraw hmarker with ⟨place, hends⟩
      rcases hitem place with ⟨found, hfound⟩
      refine ⟨place.after (cs.take n), fun hdrop => hends ?_⟩
      exact hdrop.of_drop (lexemes_take_self hn hfound)
    have hmark : ∀ {rest : List Char}, Breaks rest → startsMark (cs ++ rest) = startsMark cs := by
      intro rest hbreaks
      rcases List.exists_cons_of_ne_nil hne with ⟨c, tail, rfl⟩
      have halone := h.startsMark_append .nil
      rw [List.append_nil] at halone
      rw [h.startsMark_append hbreaks, halone]
    have hsame : startsMark (cs ++ spaced) = (startsMark (cs ++ masked) && !false) := by
      rw [hmark hspaced, hmark hmasked, Bool.not_false, Bool.and_true]
    intro place place'
    cases hstarts with
    | blank hn hblank hitem =>
      have hone : 0 < 1 ∧ 1 ≤ cs.length := ⟨Nat.one_pos, hn⟩
      rcases hrest 1 hone (fun place => ⟨_, hitem place [] .nil⟩) (place.after (cs.take 1))
        (place'.after (cs.take 1)) with ⟨flag, hmarked, -⟩
      refine ⟨flag, ?_, ?_⟩
      · rw [lexemes_take hone (hitem place _ hspaced), lexemes_take hone (hitem place' _ hmasked)]
        exact hmarked
      · rw [hmark hspaced, hmark hmasked, hblank]
        rfl
    | token lexeme n hn halike hitem =>
      rcases hrest n hn (fun place => ⟨_, hitem place [] .nil⟩) (place.after (cs.take n))
        (place'.after (cs.take n)) with ⟨flag, hmarked, -⟩
      refine ⟨false, ?_, hsame⟩
      rw [lexemes_take hn (hitem place _ hspaced), lexemes_take hn (hitem place' _ hmasked)]
      exact .token (halike place place') hmarked
    | name n hn hitem =>
      rcases hrest n hn (fun place => ⟨_, hitem place [] .nil (by simp)⟩) (place.after (cs.take n))
        (place'.after (cs.take n)) with ⟨flag, hmarked, -⟩
      refine ⟨false, ?_, hsame⟩
      rw [lexemes_take hn (hitem place _ hspaced fun _ => hblank),
        lexemes_take hn (hitem place' _ hmasked hname)]
      exact .name _ _ _ hmarked
    | mark c tail hcs hitem =>
      subst hcs
      have hone : 0 < 1 ∧ 1 ≤ (c :: tail).length := by simp
      rcases hrest 1 hone (fun place => ⟨_, hitem place [] .nil⟩) (place.after [c])
        (place'.after [c]) with ⟨flag, hmarked, hjoint⟩
      refine ⟨false, ?_, hsame⟩
      rw [lexemes_take hone (hitem place _ hspaced), lexemes_take hone (hitem place' _ hmasked)]
      rw [List.drop_one, List.tail_cons] at hjoint
      rw [hjoint]
      exact .mark c _ _ _ hmarked
    | fault hitem =>
      refine ⟨false, ?_, hsame⟩
      rw [lexemes_fault (by simp [hne]) (hitem place _ hspaced),
        lexemes_fault (by simp [hne]) (hitem place' _ hmasked)]
      exact .fault comments place place'

end Follows

/-! ## Markers -/

/-- The number sign of a marker. -/
theorem item_sign (place : Pos) (rest : List Char) :
    item place ('#' :: '[' :: rest) =
      ([leaf (.punct '#' false ⟨place, place.after ['#']⟩)], some 1) := by
  have hliteral : literal? ('#' :: '[' :: rest) = none := by
    simp [literal?, string?, bytes?, byte?, character?, number?_eq_none]
  refine item_of_leaf? (blank?_eq_none (by decide) (by decide) _)
    (documentation?_eq_none (by decide) _) rfl rfl ?_
  rw [leaf?, hliteral]
  rfl

/-- The text of a marker is read as a string. -/
theorem item_quote (place : Pos) (cs rest : List Char) :
    item place (quote cs ++ ']' :: rest) =
      ([leaf (.literal (.string cs) ⟨place, place.after (quote cs)⟩)], some (quote cs).length) := by
  have hstart : isIdentStart ']' = false := by decide
  have hlength : (quote cs).length = (cs.flatMap quoteChar).length + 2 := by simp [quote]
  have hdrop : (quote cs ++ ']' :: rest).drop (quote cs).length = ']' :: rest := List.drop_left
  have htake : (quote cs ++ ']' :: rest).take (quote cs).length = quote cs := List.take_left
  have htext : quote cs ++ ']' :: rest = '"' :: (cs.flatMap quoteChar ++ '"' :: ']' :: rest) := by
    simp [quote]
  have hstring : string? (quote cs ++ ']' :: rest) = some (cs, (quote cs).length) := by
    rw [htext, string?, readQuoted_quote, Option.map_some]
    simp only [← htext, withTail, ← hlength, hdrop, identLength, hstart, Bool.false_eq_true,
      if_false, Nat.add_zero]
  have hleaf : leaf? place (quote cs ++ ']' :: rest) =
      some (.literal (.string cs) ⟨place, place.after (quote cs)⟩, (quote cs).length) := by
    simp only [leaf?, literal?, hstring, htake]
  rw [htext] at hleaf ⊢
  exact item_of_leaf? (blank?_eq_none (by decide) (by decide) _)
    (documentation?_eq_none (by decide) _) rfl rfl hleaf

/-- A marker is read as its tokens. -/
theorem lexemes_marker {kind : String} (hkind : isIdentifier kind.toList = true)
    (text rest : List Char) (place : Pos) :
    ∃ span first last next name equals string,
      lexemes place (Piece.marker kind text ++ rest) =
        leaf (.punct '#' false span) :: opener .bracket first ::
          ([.ident kind name, .punct '=' false equals,
            .literal (.string (text.filter (· != '\r'))) string].map leaf ++
              closer .bracket last :: lexemes next rest) := by
  have hname : kind.toList ≠ [] := by
    intro hnil
    rw [hnil] at hkind
    cases hkind
  have htext : Piece.marker kind text ++ rest = '#' :: '[' :: (kind.toList ++
      ' ' :: '=' :: ' ' :: (quote (text.filter (· != '\r')) ++ ']' :: rest)) := by
    simp [Piece.marker]
  have hstop : ∀ c ∈ (' ' :: '=' :: ' ' :: (quote (text.filter (· != '\r')) ++ ']' :: rest)).head?,
      isIdentContinue c = false := by
    rintro c ⟨⟩
    decide
  rw [htext, lexemes_cons (item_sign place _), lexemes_cons (item_opener rfl _ _),
    lexemes_append hname (item_identifier hkind hstop rfl _), lexemes_cons (item_space _ _),
    lexemes_cons (item_mark (by decide) (by simp) _), lexemes_cons (item_space _ _),
    lexemes_append (by simp [quote]) (item_quote _ _ rest), lexemes_cons (item_closer rfl _ _),
    String.ofList_toList]
  exact ⟨_, _, _, _, _, _, _, rfl⟩

/-! ## Faults in a masked text -/

/-- Something in a text cannot be read, wherever the text stands. -/
def Unreadable (cs : List Char) : Prop :=
  ∀ place, ∃ place', Lexeme.fault place' ∈ lexemes place cs

section Unreadable

variable {cs masked : List Char}

/-- What follows the first item of some code is read after it. -/
theorem Unreadable.of_drop {n : Nat} (hn : 0 < n ∧ n ≤ cs.length)
    (hitem : ∀ place, ∃ found, item place (cs ++ masked) = (found, some n))
    (h : Unreadable (cs.drop n ++ masked)) : Unreadable (cs ++ masked) := by
  intro place
  rcases h (place.after (cs.take n)) with ⟨place', hmem⟩
  rcases hitem place with ⟨found, hfound⟩
  refine ⟨place', ?_⟩
  rw [lexemes_take hn hfound]
  exact List.mem_append_right _ hmem

/-- Code before an unreadable text is unreadable, and so is code before a marker that ends in a name
that is lost there. -/
theorem Unreadable.code (h : Plain cs) (hmasked : Breaks masked)
    (hbad : Unreadable masked ∨
      (∃ rest, masked = '#' :: '[' :: rest) ∧ ∃ place, EndsRaw place cs (lexemes place cs)) :
    Unreadable (cs ++ masked) := by
  induction cs, h using Plain.induct with
  | nil h =>
    rcases hbad with hbad | ⟨-, place, text, start, hlast, -⟩
    · exact hbad
    · rw [lexemes] at hlast
      cases hlast
  | cons cs h hne hstarts ih =>
    by_cases hraw : cs ∈ rawPrefixes ∧ ∃ rest, masked = '#' :: '[' :: rest
    · rcases hraw with ⟨hmem, rest, rfl⟩
      intro place
      refine ⟨place, ?_⟩
      rw [lexemes_fault (by simp) (item_rawPrefix_marker hmem place rest)]
      exact List.mem_singleton_self _
    -- The first item is read, and what follows it is unreadable.
    have hrest : ∀ n (found : Pos → List Lexeme), 0 < n ∧ n ≤ cs.length →
        (∀ place, item place (cs ++ []) = (found place, some n)) →
        (∀ place, ∃ found', item place (cs ++ masked) = (found', some n)) →
        (∀ place text start stop,
          (found place).getLast? = some (leaf (.ident text ⟨start, stop⟩)) →
            text.toList = cs.take n ∧ stop = place.after (cs.take n)) →
        Unreadable (cs ++ masked) := by
      intro n found hn halone hitem hname
      refine .of_drop hn hitem (ih n hn.1 ?_)
      rcases hbad with hbad | ⟨hmarker, start, hends⟩
      · exact .inl hbad
      · rcases hends.drop_or_mem hn (halone start) (hname start) with hmore | hmem
        · exact .inr ⟨hmarker, _, hmore⟩
        · exact absurd ⟨hmem, hmarker⟩ hraw
    cases hstarts with
    | blank hn hblank hitem =>
      exact hrest 1 (fun _ => []) ⟨Nat.one_pos, hn⟩ (fun place => hitem place [] .nil)
        (fun place => ⟨_, hitem place masked hmasked⟩) (by simp)
    | token lexeme n hn halike hitem =>
      refine hrest n (fun place => [lexeme place]) hn (fun place => hitem place [] .nil)
        (fun place => ⟨_, hitem place masked hmasked⟩) fun place text start stop hlast => ?_
      have hlexeme := halike place place
      rw [List.getLast?_singleton, Option.some.injEq] at hlast
      rw [hlast] at hlexeme
      cases hlexeme
    | name n hn hitem =>
      refine hrest n _ hn (fun place => hitem place [] .nil (by simp))
        (fun place => ⟨_, hitem place masked hmasked fun hmem rest heq => hraw ⟨hmem, rest, heq⟩⟩)
        fun place text start stop hlast => ?_
      cases hlast
      exact ⟨String.toList_ofList, rfl⟩
    | mark c tail hcs hitem =>
      subst hcs
      refine hrest 1 _ (by simp) (fun place => hitem place [] .nil)
        (fun place => ⟨_, hitem place masked hmasked⟩) fun place text start stop hlast => ?_
      cases hlast
    | fault hitem =>
      intro place
      refine ⟨place, ?_⟩
      rw [lexemes_fault (by simp [hne]) (hitem place masked hmasked)]
      exact List.mem_singleton_self _

end Unreadable

/-! ## Comments -/

/-- Line feeds are passed over. -/
theorem lexemes_newlines {breaks : List Char} (h : ∀ c ∈ breaks, c = '\n') (place : Pos)
    (rest : List Char) : lexemes place (breaks ++ rest) = lexemes (place.after breaks) rest := by
  have hblank : isBlank '\n' = true := by decide
  induction breaks generalizing place with
  | nil => rfl
  | cons c breaks ih =>
    rw [List.forall_mem_cons] at h
    rcases h with ⟨rfl, hbreaks⟩
    have hitem : item place ('\n' :: (breaks ++ rest)) = ([], some 1) := by
      rw [item, blank?, hblank]
      rfl
    rw [List.cons_append, lexemes_cons hitem, List.nil_append, ih hbreaks]
    rfl

/-- What stands for a comment: a blank and line feeds in the spaced text, a marker and line feeds in
the masked text. -/
theorem exists_of_remark? {piece remark : Piece} (h : piece.remark? = some remark) :
    ∃ kind text breaks breaks', isIdentifier kind.toList = true ∧
      (∀ c ∈ breaks, c = '\n') ∧ (∀ c ∈ breaks', c = '\n') ∧
      piece.spaced = ' ' :: breaks ∧ piece.masked = Piece.marker kind text ++ breaks' ∧
      ∀ name equals string, Token.comment? [.ident kind name, .punct '=' false equals,
        .literal (.string (text.filter (· != '\r'))) string] = some remark := by
  have hbreaks : ∀ text : List Char, ∀ c ∈ text.filter (· == '\n'), c = '\n' := by
    intro text c hc
    simpa using (List.mem_filter.mp hc).2
  cases piece with
  | code text => cases h
  | line text =>
    cases h
    exact ⟨"line", text, _, [], by decide, hbreaks text, by simp, rfl, by simp [Piece.masked],
      fun _ _ _ => rfl⟩
  | block text =>
    cases h
    exact ⟨"block", text, _, _, by decide, hbreaks text, hbreaks text, rfl, rfl, fun _ _ _ => rfl⟩

section Comment

variable {piece remark : Piece} {comments : List Piece} {spaced masked : List Char}

/-- A comment is read as nothing in the spaced text and as its marker in the masked text. -/
theorem Follows.comment (hcomment : piece.remark? = some remark)
    (h : Follows comments spaced masked) :
    Follows (remark :: comments) (piece.spaced ++ spaced) (piece.masked ++ masked) := by
  rcases exists_of_remark? hcomment with
    ⟨kind, text, breaks, breaks', hkind, hbreaks, hbreaks', hspaced, hmasked, hcontent⟩
  intro place place'
  rcases lexemes_marker hkind text (breaks' ++ masked) place' with
    ⟨span, first, last, next, name, equals, string, hmarker⟩
  rcases h ((place.after [' ']).after breaks) (next.after breaks') with ⟨flag, hmarked, -⟩
  refine ⟨true, ?_, ?_⟩
  · rw [hspaced, List.cons_append, lexemes_cons (item_space place _), List.nil_append,
      lexemes_newlines hbreaks, hmasked, List.append_assoc, hmarker, lexemes_newlines hbreaks']
    exact .marker span first last (hcontent name equals string) hmarked
  · rw [hspaced, Bool.not_true, Bool.and_false]
    rfl

/-- What follows a comment is read after its marker. -/
theorem Unreadable.comment (hcomment : piece.remark? = some remark) (h : Unreadable masked) :
    Unreadable (piece.masked ++ masked) := by
  rcases exists_of_remark? hcomment with
    ⟨kind, text, -, breaks, hkind, -, hbreaks, -, hmasked, -⟩
  intro place
  rcases lexemes_marker hkind text (breaks ++ masked) place with
    ⟨span, first, last, next, name, equals, string, hmarker⟩
  rcases h (next.after breaks) with ⟨place', hmem⟩
  refine ⟨place', ?_⟩
  rw [hmasked, List.append_assoc, hmarker, lexemes_newlines hbreaks]
  simp [hmem]

/-- A blank or a marker follows the code before a comment. -/
theorem breaks_of_remark? (hcomment : piece.remark? = some remark) (spaced masked : List Char) :
    (∃ rest, piece.spaced ++ spaced = ' ' :: rest) ∧
      ∃ rest, piece.masked ++ masked = '#' :: '[' :: rest := by
  rcases exists_of_remark? hcomment with ⟨kind, text, breaks, breaks', -, -, -, hspaced, hmasked, -⟩
  rw [hspaced, hmasked]
  exact ⟨⟨_, rfl⟩, ⟨_, by simp [Piece.marker]; rfl⟩⟩

end Comment

/-! ## Whole texts -/

/-- Induction on the pieces of a text, comment by comment. -/
theorem Cut.comment_induct {motive : (pieces : List Piece) → Piece.Cut pieces → Prop}
    (code : ∀ text h, ¬ Piece.Opens text → motive [.code text] h)
    (comment : ∀ text piece remark rest h hrest, ¬ Piece.Opens text →
      piece.remark? = some remark → motive rest hrest → motive (.code text :: piece :: rest) h)
    (pieces : List Piece) (h : Piece.Cut pieces) : motive pieces h := by
  have hopens : ∀ {text : List Char}, ¬ Piece.Opens (text ++ ['/']) → ¬ Piece.Opens text :=
    fun hcode hopens => hcode hopens.append_slash
  induction h with
  | code hcode => exact code _ _ hcode
  | line hcode hline hend hrest ih => exact comment _ _ _ _ _ hrest (hopens hcode) rfl ih
  | block hcode hblock hrest ih => exact comment _ _ _ _ _ hrest (hopens hcode) rfl ih

/-- Quotes stand in the comments of a text only. -/
def Unquoted (pieces : List Piece) : Prop :=
  ∀ code, .code code ∈ pieces → '"' ∉ code ∧ '\'' ∉ code

section Pieces

variable {pieces : List Piece}

/-- The two texts of some pieces are read as lexemes that differ in markers. -/
theorem follows_pieces (h : Piece.Cut pieces) (hquotes : Unquoted pieces)
    (hraw : ∀ code comment, [.code code, comment] <:+: pieces →
      ∃ place, ¬ EndsRaw place code (lexemes place code)) :
    Follows (pieces.filterMap Piece.remark?) (pieces.flatMap Piece.spaced)
      (pieces.flatMap Piece.masked) := by
  induction pieces, h using Cut.comment_induct with
  | code text h hcode =>
    rcases hquotes text (by simp) with ⟨hdouble, hsingle⟩
    rw [List.filterMap_cons_none rfl, List.flatMap_cons, List.flatMap_cons]
    exact .code ⟨hdouble, hsingle, hcode⟩ .nil .nil (by simp) (by simp) follows_nil
  | comment text piece remark rest h hrest hcode hremark ih =>
    rcases hquotes text (by simp) with ⟨hdouble, hsingle⟩
    have hmore := ih (fun code hmem => hquotes code (by simp [hmem])) fun code comment hpair =>
      hraw code comment (hpair.trans ⟨[.code text, piece], [], by simp⟩)
    rcases breaks_of_remark? hremark (rest.flatMap Piece.spaced) (rest.flatMap Piece.masked) with
      ⟨⟨blank, hblank⟩, ⟨marker, hmarker⟩⟩
    rw [List.filterMap_cons_none rfl, List.filterMap_cons_some hremark, List.flatMap_cons,
      List.flatMap_cons, List.flatMap_cons, List.flatMap_cons]
    exact .code ⟨hdouble, hsingle, hcode⟩ (hblank ▸ .blank blank) (hmarker ▸ .marker marker)
      (by simp [hblank]) (fun _ => hraw text piece ⟨[], rest, by simp⟩) (hmore.comment hremark)

/-- A masked text is unreadable if a name that is lost stands before a comment, or a byte order mark
not at the start of the text. -/
theorem unreadable_pieces (h : Piece.Cut pieces) (hquotes : Unquoted pieces)
    (hraw : ∃ code comment, [.code code, comment] <:+: pieces ∧
      ((∃ place, EndsRaw place code (lexemes place code)) ∨ ∃ rest, code = '\uFEFF' :: rest)) :
    Unreadable (pieces.flatMap Piece.masked) := by
  rcases hraw with ⟨code, comment, hpair, hbad⟩
  induction pieces, h using Cut.comment_induct with
  | code text h hcode =>
    have hlength := hpair.length_le
    simp at hlength
  | comment text piece remark rest h hrest hcode hremark ih =>
    rcases hquotes text (by simp) with ⟨hdouble, hsingle⟩
    rcases breaks_of_remark? hremark [] (rest.flatMap Piece.masked) with ⟨-, marker, hmarker⟩
    have hbreaks : Breaks (piece.masked ++ rest.flatMap Piece.masked) := hmarker ▸ .marker marker
    have hplain : Plain text := ⟨hdouble, hsingle, hcode⟩
    rw [List.flatMap_cons, List.flatMap_cons, Piece.masked]
    rw [List.infix_cons_iff, List.infix_cons_iff] at hpair
    rcases hpair with hhere | hnext | hlater
    · rw [List.cons_prefix_cons, List.cons_prefix_cons] at hhere
      rcases hhere with ⟨hcode, -⟩
      cases hcode
      rcases hbad with hends | ⟨tail, rfl⟩
      · exact .code hplain hbreaks (.inr ⟨⟨marker, hmarker⟩, hends⟩)
      · intro place
        refine ⟨place, ?_⟩
        rw [List.cons_append, lexemes_fault (by simp) (item_byteOrderMark place _)]
        exact List.mem_singleton_self _
    · rw [List.cons_prefix_cons] at hnext
      rw [← hnext.1] at hremark
      cases hremark
    · have hmore := ih (fun code hmem => hquotes code (by simp [hmem])) hlater
      exact .code hplain hbreaks (.inl (hmore.comment hremark))

/-- A byte order mark at the start of the first code is passed over. -/
theorem exists_ofText_append (code : List Char) :
    ∃ place code', (code' = code ∨ code = '\uFEFF' :: code') ∧
      place.after code' = Pos.start.after code ∧
      ∀ rest, Breaks rest → ofText (code ++ rest) = lexemes place (code' ++ rest) := by
  by_cases hmark : ∃ tail, code = '\uFEFF' :: tail
  · rcases hmark with ⟨tail, rfl⟩
    exact ⟨⟨1, 1⟩, tail, .inr rfl, rfl, fun rest _ => rfl⟩
  · refine ⟨.start, code, .inl rfl, rfl, fun rest hrest => ?_⟩
    rw [ofText]
    intro cs heq
    cases code with
    | nil => cases hrest <;> cases heq
    | cons c code =>
      rw [List.cons_append, List.cons.injEq] at heq
      exact hmark ⟨code, by rw [heq.1]⟩

/-- Code that is read from its start ends raw, or it starts with a byte order mark. -/
theorem EndsRaw.of_ofText {code : List Char} (h : EndsRaw .start code (ofText code)) :
    (∃ place, EndsRaw place code (lexemes place code)) ∨ ∃ rest, code = '\uFEFF' :: rest := by
  by_cases hmark : ∃ rest, code = '\uFEFF' :: rest
  · exact .inr hmark
  · refine .inl ⟨.start, ?_⟩
    rwa [ofText] at h
    rintro cs rfl
    exact hmark ⟨cs, rfl⟩

/-- Code does not end raw where it does not when a byte order mark is passed over. -/
theorem EndsRaw.ofText {code : List Char} (h : EndsRaw .start code (lexemes .start code)) :
    EndsRaw .start code (ofText code) := by
  by_cases hmark : ∃ rest, code = '\uFEFF' :: rest
  · rcases hmark with ⟨rest, rfl⟩
    rcases h with ⟨text, start, hlast, -⟩
    rw [lexemes_fault (by simp) (item_byteOrderMark .start rest)] at hlast
    cases hlast
  · rw [Lexeme.ofText]
    · exact h
    · rintro cs rfl
      exact hmark ⟨cs, rfl⟩

/-- The pieces of a text start with code, and what follows it is nothing or a comment. -/
theorem exists_code_of_cut (h : Piece.Cut pieces) :
    ∃ code rest, pieces = .code code :: rest ∧ Breaks (rest.flatMap Piece.spaced) ∧
      Breaks (rest.flatMap Piece.masked) ∧
      ∀ code', code = '\uFEFF' :: code' → Piece.Cut (.code code' :: rest) := by
  have htail : ∀ {c : Char} {cs : List Char}, ¬ Piece.Opens (c :: cs) → ¬ Piece.Opens cs :=
    fun hcode hopens => hcode (Piece.opens_cons_iff.mpr (.inr hopens))
  have hbreaks : ∀ {piece remark : Piece} (rest : List Piece), piece.remark? = some remark →
      Breaks ((piece :: rest).flatMap Piece.spaced) ∧
        Breaks ((piece :: rest).flatMap Piece.masked) := by
    intro piece remark rest hremark
    rcases breaks_of_remark? hremark (rest.flatMap Piece.spaced) (rest.flatMap Piece.masked) with
      ⟨⟨blank, hblank⟩, ⟨marker, hmarker⟩⟩
    rw [List.flatMap_cons, List.flatMap_cons, hblank, hmarker]
    exact ⟨.blank blank, .marker marker⟩
  cases h with
  | @code text hcode =>
    refine ⟨text, [], rfl, .nil, .nil, ?_⟩
    rintro code rfl
    exact .code (htail hcode)
  | @line text comment rest hcode hline hend hrest =>
    refine ⟨text, _, rfl, (hbreaks rest rfl).1, (hbreaks rest rfl).2, ?_⟩
    rintro code rfl
    exact .line (htail hcode) hline hend hrest
  | @block text comment rest hcode hblock hrest =>
    refine ⟨text, _, rfl, (hbreaks rest rfl).1, (hbreaks rest rfl).2, ?_⟩
    rintro code rfl
    exact .block (htail hcode) hblock hrest

/-- Some code is followed by a comment and ends in a name that is lost before its marker. -/
def LosesName (pieces : List Piece) : Prop :=
  ∃ code comment, [.code code, comment] <:+: pieces ∧ EndsRaw .start code (ofText code)

/-- The texts of some pieces are read like those of pieces without a byte order mark at their
start, and the same names are lost. -/
theorem exists_unmarked (h : Piece.Cut pieces) (hquotes : Unquoted pieces) :
    ∃ place pieces', Piece.Cut pieces' ∧ Unquoted pieces' ∧
      pieces'.filterMap Piece.remark? = pieces.filterMap Piece.remark? ∧
      ofText (pieces.flatMap Piece.spaced) = lexemes place (pieces'.flatMap Piece.spaced) ∧
      ofText (pieces.flatMap Piece.masked) = lexemes place (pieces'.flatMap Piece.masked) ∧
      (¬ LosesName pieces → ∀ code comment, [.code code, comment] <:+: pieces' →
        ∃ place, ¬ EndsRaw place code (lexemes place code)) ∧
      (LosesName pieces → ∃ code comment, [.code code, comment] <:+: pieces' ∧
        ((∃ place, EndsRaw place code (lexemes place code)) ∨ ∃ rest, code = '\uFEFF' :: rest)) := by
  rcases exists_code_of_cut h with ⟨code, rest, rfl, hspaced, hmasked, hcut⟩
  rcases exists_ofText_append code with ⟨place, code', hcode, hplace, hread⟩
  -- The first code is one of the names that are lost just if it is after the byte order mark.
  have hfirst : EndsRaw place code' (lexemes place code') ↔ EndsRaw .start code (ofText code) := by
    have halone := hread [] .nil
    rw [List.append_nil, List.append_nil] at halone
    rw [EndsRaw, EndsRaw, halone, hplace]
  have hpair : ∀ {first text : List Char} {comment : Piece},
      [.code text, comment] <:+: .code first :: rest ↔
        (text = first ∧ [comment] <+: rest) ∨ [.code text, comment] <:+: rest := by
    intro first text comment
    rw [List.infix_cons_iff, List.cons_prefix_cons, Piece.code.injEq]
  refine ⟨place, .code code' :: rest, ?_, ?_, rfl, hread _ hspaced, hread _ hmasked, ?_, ?_⟩
  · rcases hcode with rfl | hcode
    · exact h
    · exact hcut code' hcode
  · intro text hmem
    rw [List.mem_cons, Piece.code.injEq] at hmem
    rcases hmem with rfl | hmem
    · have hall := hquotes code List.mem_cons_self
      rcases hcode with rfl | rfl
      · exact hall
      · exact ⟨fun hmem => hall.1 (List.mem_cons_of_mem _ hmem),
          fun hmem => hall.2 (List.mem_cons_of_mem _ hmem)⟩
    · exact hquotes text (List.mem_cons_of_mem _ hmem)
  · intro hraw text comment htext
    rcases hpair.mp htext with ⟨rfl, hcomment⟩ | hlater
    · exact ⟨place, fun hends =>
        hraw ⟨code, comment, hpair.mpr (.inl ⟨rfl, hcomment⟩), hfirst.mp hends⟩⟩
    · exact ⟨.start, fun hends =>
        hraw ⟨text, comment, hpair.mpr (.inr hlater), hends.ofText⟩⟩
  · rintro ⟨text, comment, htext, hends⟩
    rcases hpair.mp htext with ⟨rfl, hcomment⟩ | hlater
    · exact ⟨code', comment, hpair.mpr (.inl ⟨rfl, hcomment⟩), .inl ⟨place, hfirst.mpr hends⟩⟩
    · exact ⟨text, comment, hpair.mpr (.inr hlater), hends.of_ofText⟩

/-- The spaced and the masked text of some pieces give trees that differ in markers. -/
theorem agree_tokenize (h : Piece.Cut pieces) (hquotes : Unquoted pieces)
    (hraw : ¬ LosesName pieces) :
    Token.Agree (pieces.filterMap Piece.remark?)
      (tokenize (String.ofList (pieces.flatMap Piece.spaced)))
      (tokenize (String.ofList (pieces.flatMap Piece.masked))) := by
  rcases exists_unmarked h hquotes with
    ⟨place, pieces', hcut, hquotes', hremarks, hspaced, hmasked, hkeeps, -⟩
  rcases follows_pieces hcut hquotes' (hkeeps hraw) place place with ⟨flag, hmarked, -⟩
  have hagree := Token.agree_assemble hmarked .nil Token.precedes_nil
  rw [← hspaced, ← hmasked, hremarks] at hagree
  rw [tokenize, tokenize, String.toList_ofList, String.toList_ofList]
  exact hagree

/-- A masked text in which a name is lost cannot be read. -/
theorem tokenize_ne_ok_of_losesName (h : Piece.Cut pieces) (hquotes : Unquoted pieces)
    (hraw : LosesName pieces) (found : List Token) :
    tokenize (String.ofList (pieces.flatMap Piece.masked)) ≠ .ok found := by
  rcases exists_unmarked h hquotes with
    ⟨place, pieces', hcut, hquotes', -, -, hmasked, -, hloses⟩
  rcases unreadable_pieces hcut hquotes' (hloses hraw) place with ⟨place', hfault⟩
  rw [tokenize, String.toList_ofList, hmasked]
  exact Token.assemble_of_mem_fault hfault [] [] found

/-- A masked text that can be read is strewn with the comments, and no name is lost in it. -/
theorem exists_strewn (h : Piece.Cut pieces) (hquotes : Unquoted pieces) {found : List Token}
    (hfound : tokenize (String.ofList (pieces.flatMap Piece.masked)) = .ok found) :
    ¬ LosesName pieces ∧ ∃ tokens flag,
      tokenize (String.ofList (pieces.flatMap Piece.spaced)) = .ok tokens ∧
        Token.Strewn flag (pieces.filterMap Piece.remark?) found tokens := by
  have hraw : ¬ LosesName pieces := fun hraw =>
    tokenize_ne_ok_of_losesName h hquotes hraw found hfound
  have hagree := agree_tokenize h hquotes hraw
  rw [hfound] at hagree
  cases htokens : tokenize (String.ofList (pieces.flatMap Piece.spaced)) with
  | error place =>
    rw [htokens] at hagree
    exact hagree.elim
  | ok tokens =>
    rw [htokens] at hagree
    rcases hagree with ⟨flag, hstrewn⟩
    exact ⟨hraw, tokens, flag, rfl, hstrewn⟩

/-- A masked text can be read if the spaced text can and no name is lost. -/
theorem exists_tokenize_masked (h : Piece.Cut pieces) (hquotes : Unquoted pieces)
    (hraw : ¬ LosesName pieces) {tokens : List Token}
    (htokens : tokenize (String.ofList (pieces.flatMap Piece.spaced)) = .ok tokens) :
    ∃ found, tokenize (String.ofList (pieces.flatMap Piece.masked)) = .ok found := by
  have hagree := agree_tokenize h hquotes hraw
  rw [htokens] at hagree
  cases hfound : tokenize (String.ofList (pieces.flatMap Piece.masked)) with
  | error place =>
    rw [hfound] at hagree
    exact hagree.elim
  | ok found => exact ⟨found, rfl⟩

end Pieces

end Lexeme

/-! ## Masked and spaced texts -/

/-- Masking is transparent for code without quotes.  The masked text can be read just if the spaced
text can and no comment directly follows one of the names that its marker makes raw; then taking the
markers out of its tokens gives the tokens of the spaced text and the comments in order. -/
theorem tokenize_masked {source : List Char} {pieces : List Piece}
    (hsplit : Piece.split 0 source = .ok pieces) (hquotes : Lexeme.Unquoted pieces) :
    ((∃ found, tokenize (String.ofList (Masked.ofPieces pieces).text) = .ok found) ↔
      (∃ tokens, tokenize (String.ofList (pieces.flatMap Piece.spaced)) = .ok tokens) ∧
        ¬ Lexeme.LosesName pieces) ∧
    ∀ found, tokenize (String.ofList (Masked.ofPieces pieces).text) = .ok found →
      ∃ tokens, tokenize (String.ofList (pieces.flatMap Piece.spaced)) = .ok tokens ∧
        Token.bareAll (Token.separate found).2 = Token.bareAll tokens ∧
        (Token.separate found).1 = pieces.filterMap Piece.remark? := by
  have hcut := (Piece.split_eq_ok_iff.mp hsplit).1
  refine ⟨⟨?_, ?_⟩, ?_⟩
  · rintro ⟨found, hfound⟩
    rcases Lexeme.exists_strewn hcut hquotes hfound with ⟨hraw, tokens, -, htokens, -⟩
    exact ⟨⟨tokens, htokens⟩, hraw⟩
  · rintro ⟨⟨tokens, htokens⟩, hraw⟩
    exact Lexeme.exists_tokenize_masked hcut hquotes hraw htokens
  · intro found hfound
    rcases Lexeme.exists_strewn hcut hquotes hfound with ⟨-, tokens, flag, htokens, hstrewn⟩
    exact ⟨tokens, htokens, hstrewn.separate.2, hstrewn.separate.1⟩

/-- A comment with a carriage return directly after a mark, and one at the end of a line in a
group. -/
def commentedSum : List Piece :=
  [.code "a+".toList, .block "x\r".toList, .code "(1.5".toList, .line "y".toList,
    .code "\n)".toList]

/-- The comments are taken out of the tokens of the masked text, and the tokens of the text without
them are left. -/
theorem tokenize_commentedSum :
    Piece.split 0 "a+/*x\r*/(1.5//y\n)".toList = .ok commentedSum ∧
    ∃ found tokens,
      tokenize (String.ofList (Masked.ofPieces commentedSum).text) = .ok found ∧
      tokenize "a+ (1.5 \n)" = .ok tokens ∧
      Token.bareAll (Token.separate found).2 = Token.bareAll tokens ∧
      (Token.separate found).1 = [.block ['x'], .line ['y']] := by
  have hsplit : Piece.split 0 "a+/*x\r*/(1.5//y\n)".toList = .ok commentedSum := by
    decide +kernel
  have hquotes : Lexeme.Unquoted commentedSum := by
    intro code hcode
    simp only [commentedSum, List.mem_cons, Piece.code.injEq, reduceCtorEq, false_or,
      List.not_mem_nil, or_false] at hcode
    rcases hcode with rfl | rfl | rfl <;> decide
  have hspaced : String.ofList (commentedSum.flatMap Piece.spaced) = "a+ (1.5 \n)" := by
    decide
  have hread : (tokenize (String.ofList (Masked.ofPieces commentedSum).text)).isOk = true := by
    decide +kernel
  refine ⟨hsplit, ?_⟩
  cases hfound : tokenize (String.ofList (Masked.ofPieces commentedSum).text) with
  | error place => simp [hfound, Except.isOk, Except.toBool] at hread
  | ok found =>
    rcases (tokenize_masked hsplit hquotes).2 found hfound with ⟨tokens, htokens, hleft, hcomments⟩
    rw [hspaced] at htokens
    exact ⟨found, tokens, rfl, htokens, hleft, hcomments⟩

/-- A name that is read before a blank is lost before the marker of a comment. -/
theorem tokenize_masked_lost_name :
    Piece.split 0 "r/*c*/".toList = .ok [.code ['r'], .block ['c'], .code []] ∧
      (tokenize "r ").isOk = true ∧
      (tokenize (String.ofList
        (Masked.ofPieces [.code ['r'], .block ['c'], .code []]).text)).isOk = false := by
  decide +kernel

end ShaderLang
