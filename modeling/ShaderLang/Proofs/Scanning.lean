import ShaderLang.Proofs.Comments
import ShaderLang.Proofs.Outcome

/-!
# Comments among bytes

A source is stored as bytes, and its comments can be looked for there: `Piece.scan` goes over the
bytes one by one, and takes pieces of the source as slices from one offset up to another.  A slice
that starts or ends inside a character fails.  No byte of a longer character is taken for a slash, a
star or a line feed, so no slice fails, and the pieces are those of the characters.

Main results:

- Theorem `slice?_eq_some_iff`: a slice is what stands between two places of a text.
- Theorem `takeWhile_bytes` and `pairIndex?_bytes`: marks are found among bytes where they stand
  among characters.
- Theorem `scan_eq_split`: the bytes of a source are scanned without a failure, and lead to the
  pieces of the source.
- Theorem `comments_recognised`: which comments of a source are masked, and which source is refused.
-/

namespace ShaderLang

namespace Text

/-! ## Bytes of a text -/

/-- The bytes of a text in UTF-8. -/
def bytes (cs : List Char) : List UInt8 :=
  cs.flatMap String.utf8EncodeChar

@[simp]
theorem bytes_nil : bytes [] = [] := rfl

theorem bytes_cons (c : Char) (cs : List Char) :
    bytes (c :: cs) = String.utf8EncodeChar c ++ bytes cs :=
  List.flatMap_cons

theorem bytes_append (cs ds : List Char) : bytes (cs ++ ds) = bytes cs ++ bytes ds :=
  List.flatMap_append

theorem length_bytes (cs : List Char) : (bytes cs).length = byteLength cs := by
  induction cs with
  | nil => rfl
  | cons c cs ih => rw [bytes_cons, List.length_append, String.length_utf8EncodeChar, ih]; rfl

/-- The bytes after the first part of a text are those of the rest. -/
theorem drop_bytes (cs ds : List Char) : (bytes (cs ++ ds)).drop (byteLength cs) = bytes ds := by
  rw [bytes_append, ← length_bytes, List.drop_left]

/-- A mark of ASCII is a byte of its own. -/
theorem utf8EncodeChar_mark {mark : Char} (h : mark.toNat < 128) :
    String.utf8EncodeChar mark = [mark.toUInt8] := by
  have hsize : mark.utf8Size = 1 := by
    rw [Char.utf8Size_eq_one_iff, UInt32.le_iff_toNat_le]
    exact Nat.le_of_lt_succ h
  exact String.utf8EncodeChar_eq_singleton hsize

/-- No byte of a longer character is one of ASCII. -/
theorem le_toNat_of_mem_utf8EncodeChar {c : Char} (hc : 128 ≤ c.toNat) {b : UInt8}
    (hb : b ∈ String.utf8EncodeChar c) : 128 ≤ b.toNat := by
  have hlong : ¬ c.val.toNat ≤ 127 := Nat.not_le.mpr hc
  rw [String.utf8EncodeChar, if_neg hlong] at hb
  split at hb
  · simp only [List.mem_cons, List.not_mem_nil, or_false] at hb
    rcases hb with rfl | rfl <;> rw [UInt8.toNat_ofNat'] <;> omega
  · split at hb
    · simp only [List.mem_cons, List.not_mem_nil, or_false] at hb
      rcases hb with rfl | rfl | rfl <;> rw [UInt8.toNat_ofNat'] <;> omega
    · simp only [List.mem_cons, List.not_mem_nil, or_false] at hb
      rcases hb with rfl | rfl | rfl | rfl <;> rw [UInt8.toNat_ofNat'] <;> omega

/-- A mark of ASCII is no byte of another character. -/
theorem eq_of_mem_utf8EncodeChar {mark c : Char} (h : mark.toNat < 128)
    (hmem : mark.toUInt8 ∈ String.utf8EncodeChar c) : c = mark := by
  have hmark : mark.toUInt8.toNat = mark.toNat := by
    change mark.toNat % 256 = mark.toNat
    omega
  have hc : c.toNat < 128 := by
    by_contra hlong
    have hle := le_toNat_of_mem_utf8EncodeChar (Nat.not_lt.mp hlong) hmem
    omega
  rw [utf8EncodeChar_mark hc, List.mem_singleton] at hmem
  have hsame : mark.toUInt8.toNat = c.toNat % 256 := congrArg UInt8.toNat hmem
  exact Char.toNat_inj.mp (by omega)

/-- A mark of ASCII stands first among bytes exactly if it stands first among characters. -/
theorem head?_bytes_iff {mark : Char} (h : mark.toNat < 128) {cs : List Char} :
    (bytes cs).head? = some mark.toUInt8 ↔ cs.head? = some mark := by
  cases cs with
  | nil => simp
  | cons c cs =>
    rw [bytes_cons, List.head?_append_of_ne_nil _ String.utf8EncodeChar_ne_nil]
    constructor
    · intro hhead
      rw [eq_of_mem_utf8EncodeChar h (List.mem_of_mem_head? hhead)]
      rfl
    · intro hhead
      cases hhead
      rw [utf8EncodeChar_mark h]
      rfl

/-- What stands before a mark of ASCII is found among bytes. -/
theorem takeWhile_bytes {mark : Char} (h : mark.toNat < 128) (cs : List Char) :
    (bytes cs).takeWhile (· != mark.toUInt8) = bytes (cs.takeWhile (· != mark)) := by
  induction cs with
  | nil => rfl
  | cons c cs ih =>
    by_cases hc : c = mark
    · subst hc
      simp [bytes_cons, utf8EncodeChar_mark h]
    · have hother : ∀ b ∈ String.utf8EncodeChar c, (b != mark.toUInt8) = true := by
        intro b hb
        rw [bne_iff_ne]
        rintro rfl
        exact hc (eq_of_mem_utf8EncodeChar h hb)
      rw [bytes_cons, List.takeWhile_append_of_pos hother, ih,
        List.takeWhile_cons_of_pos (by simpa using hc), bytes_cons]

/-! ## Pairs of marks -/

/-- The number of bytes before the first pair of two given ones. -/
def pairIndex? (first second : UInt8) : List UInt8 → Option Nat
  | [] => none
  | b :: bs =>
    if b = first ∧ bs.head? = some second then some 0
    else (pairIndex? first second bs).map (· + 1)

/-- A pair is looked for after bytes that cannot start it. -/
theorem pairIndex?_append {first second : UInt8} {bs : List UInt8} (h : first ∉ bs)
    (more : List UInt8) :
    pairIndex? first second (bs ++ more) = (pairIndex? first second more).map (· + bs.length) := by
  induction bs with
  | nil => simp
  | cons b bs ih =>
    rw [List.mem_cons, not_or] at h
    rw [List.cons_append, pairIndex?, if_neg (fun hpair => h.1 hpair.1.symm), ih h.2,
      Option.map_map]
    congr 1

/-! ## Slices -/

/-- The characters from one offset in bytes up to another, if both lie between characters. -/
def slice? (cs : List Char) (start stop : Nat) : Option (List Char) :=
  let first := charsWithin start cs
  let last := charsWithin stop cs
  if start ≤ stop ∧ byteLength (cs.take first) = start ∧ byteLength (cs.take last) = stop then
    some ((cs.drop first).take (last - first))
  else none

/-- A slice is what stands between two places of a text. -/
theorem slice?_eq_some_iff {cs text : List Char} {start stop : Nat} :
    slice? cs start stop = some text ↔ ∃ before after, cs = before ++ (text ++ after) ∧
      start = byteLength before ∧ stop = byteLength before + byteLength text := by
  constructor
  · intro h
    simp only [slice?, Option.ite_none_right_eq_some, Option.some.injEq] at h
    obtain ⟨⟨hle, hstart, hstop⟩, rfl⟩ := h
    obtain ⟨count, hcount⟩ := Nat.exists_eq_add_of_le (charsWithin_mono hle cs)
    rw [hcount, List.take_add, byteLength_append] at hstop
    refine ⟨cs.take (charsWithin start cs), cs.drop (charsWithin stop cs), ?_, hstart.symm, ?_⟩
    · rw [hcount, Nat.add_sub_cancel_left, ← List.append_assoc, ← List.take_add,
        List.take_append_drop]
    · rw [hcount, Nat.add_sub_cancel_left, hstop]
  · rintro ⟨before, after, rfl, rfl, rfl⟩
    have hfirst := charsWithin_byteLength before (text ++ after)
    have hlast := charsWithin_byteLength (before ++ text) after
    rw [byteLength_append, List.append_assoc, List.length_append] at hlast
    have htake : (before ++ (text ++ after)).take (before.length + text.length) =
        before ++ text := by
      rw [← List.append_assoc, ← List.length_append, List.take_left]
    simp [slice?, hfirst, hlast, htake, byteLength_append]

end Text

namespace Piece

open Text

/-! ## Scanning bytes -/

/-- The byte of a slash. -/
def slash : UInt8 := '/'.toUInt8

/-- The byte of a star. -/
def star : UInt8 := '*'.toUInt8

/-- The byte of a line feed. -/
def feed : UInt8 := '\n'.toUInt8

/-- Cut a source into pieces by going over its bytes from an offset on.  The code since `copied` is
taken only when a comment starts or the source ends.  There is no result if a slice fails. -/
def scan (source : List Char) (copied offset : Nat) : Option (Except Nat (List Piece)) :=
  match h : (bytes source).drop offset with
  | first :: second :: rest =>
    if first = slash ∧ second = slash then do
      let stop := offset + 2 + (rest.takeWhile (· != feed)).length
      let _ ← slice? source offset (byteLength source)
      let code ← slice? source copied offset
      let text ← slice? source (offset + 2) stop
      let pieces ← scan source stop stop
      return pieces.map (.code code :: .line text :: ·)
    else if first = slash ∧ second = star then do
      let _ ← slice? source (offset + 2) (byteLength source)
      match pairIndex? star slash rest with
      | none => return .error offset
      | some length =>
        let text ← slice? source (offset + 2) (offset + 2 + length)
        let code ← slice? source copied offset
        let pieces ← scan source (offset + 4 + length) (offset + 4 + length)
        return pieces.map (.code code :: .block text :: ·)
    else scan source copied (offset + 1)
  | _ => do
    let code ← slice? source copied (byteLength source)
    return .ok [.code code]
termination_by (bytes source).length - offset
decreasing_by
  all_goals
    have := congrArg List.length h
    simp only [List.length_drop, List.length_cons] at this
    omega

section Scan

variable {source : List Char} {copied offset : Nat}

/-- A byte where no comment starts is passed over. -/
theorem scan_step {b : UInt8} {rest : List UInt8} (h : (bytes source).drop offset = b :: rest)
    (hopen : ¬ (b = slash ∧ (rest.head? = some slash ∨ rest.head? = some star))) :
    scan source copied offset = scan source copied (offset + 1) := by
  have hnext : (bytes source).drop (offset + 1) = rest := by
    rw [← List.drop_drop, h]
    rfl
  rw [scan]
  split
  · rename_i first second more hmore
    obtain ⟨rfl, rfl⟩ : b = first ∧ rest = second :: more := by simpa [h] using hmore
    rw [if_neg, if_neg]
    · rintro ⟨hfirst, rfl⟩
      exact hopen ⟨hfirst, .inr rfl⟩
    · rintro ⟨hfirst, rfl⟩
      exact hopen ⟨hfirst, .inl rfl⟩
  · rename_i hlast
    have hrest : rest = [] := by
      cases rest with
      | nil => rfl
      | cons second more => exact (hlast b second more h).elim
    rw [scan, hnext, hrest]

/-- Bytes without a slash are passed over. -/
theorem scan_skip {bs rest : List UInt8} (h : (bytes source).drop offset = bs ++ rest)
    (hslash : slash ∉ bs) :
    scan source copied offset = scan source copied (offset + bs.length) := by
  induction bs generalizing offset with
  | nil => rfl
  | cons b bs ih =>
    rw [List.mem_cons, not_or] at hslash
    have hnext : (bytes source).drop (offset + 1) = bs ++ rest := by
      rw [← List.drop_drop, h]
      rfl
    rw [scan_step h fun hopen => hslash.1 hopen.1.symm, ih hnext hslash.2, List.length_cons,
      Nat.add_assoc, Nat.add_comm 1]

/-- A character where no comment starts is passed over. -/
theorem scan_char {done cs : List Char} {c : Char} (hsource : source = done ++ c :: cs)
    (hopen : ¬ (c = '/' ∧ (cs.head? = some '/' ∨ cs.head? = some '*'))) :
    scan source copied (byteLength done) = scan source copied (byteLength (done ++ [c])) := by
  have hdrop : (bytes source).drop (byteLength done) = String.utf8EncodeChar c ++ bytes cs := by
    rw [hsource, drop_bytes, bytes_cons]
  have hlength : byteLength (done ++ [c]) =
      byteLength done + (String.utf8EncodeChar c).length := by
    rw [byteLength_append, String.length_utf8EncodeChar]
    rfl
  rw [hlength]
  by_cases hc : c = '/'
  · subst hc
    rw [utf8EncodeChar_mark (by decide)] at hdrop ⊢
    refine scan_step hdrop fun hbyte => hopen ⟨rfl, ?_⟩
    exact hbyte.2.imp (head?_bytes_iff (by decide)).mp (head?_bytes_iff (by decide)).mp
  · exact scan_skip hdrop fun hmem => hc (eq_of_mem_utf8EncodeChar (by decide) hmem)

/-- The code before the first comment is passed over. -/
theorem scan_code {done cs : List Char} (hsource : source = done ++ cs) :
    scan source copied (byteLength done) =
      scan source copied (byteLength (done ++ codeBefore cs)) := by
  fun_induction codeBefore cs generalizing done with
  | case1 => rw [List.append_nil]
  | case2 => rw [List.append_nil]
  | case3 => rw [List.append_nil]
  | case4 c cs hline hblock ih =>
    have hopen : ¬ (c = '/' ∧ (cs.head? = some '/' ∨ cs.head? = some '*')) := by
      rintro ⟨rfl, hslash | hstar⟩
      · obtain ⟨rest, rfl⟩ := List.head?_eq_some_iff.mp hslash
        exact hline rest rfl rfl
      · obtain ⟨rest, rfl⟩ := List.head?_eq_some_iff.mp hstar
        exact hblock rest rfl rfl
    rw [scan_char hsource hopen, ih (by simpa using hsource)]
    simp

/-- The end of a block comment is found among bytes where it stands among characters. -/
theorem pairIndex?_bytes (cs : List Char) :
    pairIndex? star slash (bytes cs) = (blockText? cs).map byteLength := by
  fun_induction blockText? cs with
  | case1 => rfl
  | case2 rest =>
    rw [bytes_cons, bytes_cons, utf8EncodeChar_mark (by decide), utf8EncodeChar_mark (by decide)]
    rfl
  | case3 c cs hclose ih =>
    have hlength : ((blockText? cs).map (c :: ·)).map byteLength =
        (pairIndex? star slash (bytes cs)).map (· + (String.utf8EncodeChar c).length) := by
      rw [ih, Option.map_map, Option.map_map, String.length_utf8EncodeChar]
      exact congrArg (Option.map · _) (funext fun text => Nat.add_comm _ _)
    rw [hlength, bytes_cons]
    by_cases hc : c = '*'
    · subst hc
      rw [utf8EncodeChar_mark (by decide)]
      refine if_neg fun hpair => ?_
      obtain ⟨rest, rfl⟩ := List.head?_eq_some_iff.mp ((head?_bytes_iff (by decide)).mp hpair.2)
      exact hclose rest rfl rfl
    · exact pairIndex?_append (fun hmem => hc (eq_of_mem_utf8EncodeChar (by decide) hmem)) _

/-- The slices at the opening mark of a comment: the code before it, all from the mark on, all after
the mark, and any first part of what stands after it. -/
theorem opened_slices {done code rest : List Char} {mark : Char} (hmark : mark.utf8Size = 1)
    (hsource : source = done ++ (code ++ '/' :: mark :: rest)) :
    slice? source (byteLength done) (byteLength (done ++ code)) = some code ∧
      slice? source (byteLength (done ++ code)) (byteLength source) = some ('/' :: mark :: rest) ∧
      slice? source (byteLength (done ++ code) + 2) (byteLength source) = some rest ∧
      ∀ text tail, rest = text ++ tail →
        slice? source (byteLength (done ++ code) + 2)
          (byteLength (done ++ code) + 2 + byteLength text) = some text := by
  have hopening : byteLength (done ++ code ++ ['/', mark]) = byteLength (done ++ code) + 2 := by
    rw [byteLength_append, byteLength_cons, byteLength_cons, hmark]
    rfl
  have htext : ∀ text tail, rest = text ++ tail → slice? source (byteLength (done ++ code) + 2)
      (byteLength (done ++ code) + 2 + byteLength text) = some text := by
    intro text tail hrest
    rw [slice?_eq_some_iff, ← hopening]
    exact ⟨done ++ code ++ ['/', mark], tail, by simp [hsource, hrest], rfl, rfl⟩
  have hlength : byteLength source = byteLength (done ++ code) + 2 + byteLength rest := by
    rw [hsource, ← hopening, ← byteLength_append]
    simp
  refine ⟨?_, ?_, ?_, htext⟩
  · exact slice?_eq_some_iff.mpr ⟨done, '/' :: mark :: rest, hsource, rfl, byteLength_append _ _⟩
  · refine slice?_eq_some_iff.mpr ⟨done ++ code, [], by simp [hsource], rfl, ?_⟩
    rw [← byteLength_append, hsource, List.append_assoc]
  · rw [hlength]
    exact htext rest [] (List.append_nil rest).symm

/-- A line comment is taken with the code before it. -/
theorem scan_line {done code text tail : List Char}
    (hsource : source = done ++ (code ++ '/' :: '/' :: (text ++ tail)))
    (hline : '\n' ∉ text) (hend : ∀ c ∈ tail.head?, c = '\n') :
    scan source (byteLength done) (byteLength (done ++ code)) =
      (scan source (byteLength (done ++ code) + 2 + byteLength text)
        (byteLength (done ++ code) + 2 + byteLength text)).map
      (·.map (.code code :: .line text :: ·)) := by
  have hdrop : (bytes source).drop (byteLength (done ++ code)) =
      slash :: slash :: bytes (text ++ tail) := by
    rw [hsource, ← List.append_assoc, drop_bytes, bytes_cons, bytes_cons,
      utf8EncodeChar_mark (by decide)]
    rfl
  have hstop : ((bytes (text ++ tail)).takeWhile (· != feed)).length = byteLength text := by
    have htake : (text ++ tail).takeWhile (· != '\n') = text :=
      takeWhile_append_stop (fun c hc => by simpa using ne_of_mem_of_not_mem hc hline)
        fun c hc => by simpa using hend c hc
    have hbytes := @takeWhile_bytes '\n' (by decide) (text ++ tail)
    rw [htake] at hbytes
    rw [← length_bytes, ← hbytes]
    rfl
  obtain ⟨hcode, hall, -, htext⟩ := opened_slices rfl hsource
  rw [scan]
  split
  · rename_i first second more hmore
    rw [hdrop] at hmore
    cases hmore
    rw [if_pos ⟨rfl, rfl⟩]
    simp only [hstop, hall, hcode, htext text tail rfl, Option.bind_eq_bind, Option.bind_some]
    exact Option.map_eq_bind.symm
  · rename_i hlast
    exact (hlast _ _ _ hdrop).elim

/-- After the opening mark of a block comment all hangs on where its text ends. -/
theorem scan_opened {done code rest : List Char}
    (hsource : source = done ++ (code ++ '/' :: '*' :: rest)) :
    scan source (byteLength done) (byteLength (done ++ code)) =
      match blockText? rest with
      | none => some (.error (byteLength (done ++ code)))
      | some text =>
        (scan source (byteLength (done ++ code) + 4 + byteLength text)
          (byteLength (done ++ code) + 4 + byteLength text)).map
        (·.map (.code code :: .block text :: ·)) := by
  have hdrop : (bytes source).drop (byteLength (done ++ code)) = slash :: star :: bytes rest := by
    rw [hsource, ← List.append_assoc, drop_bytes, bytes_cons, bytes_cons,
      utf8EncodeChar_mark (by decide), utf8EncodeChar_mark (by decide)]
    rfl
  obtain ⟨hcode, -, hrest, htext⟩ := opened_slices rfl hsource
  rw [scan]
  split
  · rename_i first second more hmore
    rw [hdrop] at hmore
    cases hmore
    rw [if_neg (by decide), if_pos ⟨rfl, rfl⟩, hrest, pairIndex?_bytes]
    cases hblock : blockText? rest with
    | none => rfl
    | some text =>
      simp only [Option.map_some, hcode, htext _ _ (eq_of_blockText? hblock), Option.bind_eq_bind,
        Option.bind_some]
      exact Option.map_eq_bind.symm
  · rename_i hlast
    exact (hlast _ _ _ hdrop).elim

/-- After the last comment all is code. -/
theorem scan_end {done code : List Char} (hsource : source = done ++ code) :
    scan source (byteLength done) (byteLength (done ++ code)) = some (.ok [.code code]) := by
  have hdrop : (bytes source).drop (byteLength (done ++ code)) = [] := by
    rw [← hsource, ← length_bytes, List.drop_length]
  have hcode : slice? source (byteLength done) (byteLength source) = some code :=
    slice?_eq_some_iff.mpr ⟨done, [], by simp [hsource], rfl, by rw [hsource, byteLength_append]⟩
  rw [scan]
  split
  · rename_i hmore
    rw [hdrop] at hmore
    cases hmore
  · rw [hcode]
    rfl

end Scan

/-- The bytes of a source are scanned without a failure, and lead to the pieces of the source. -/
theorem scan_eq_split (done cs : List Char) :
    scan (done ++ cs) (byteLength done) (byteLength done) = some (split (byteLength done) cs) := by
  induction cs using comment_induct generalizing done with
  | code text hcode =>
    rw [scan_code rfl, codeBefore_of_not_opens hcode, scan_end rfl, split_of_not_opens hcode]
  | line text comment tail hcode hline hend ih =>
    have hnext := ih (done ++ text ++ (line comment).source)
    rw [byteLength_append, byteLength_source_line, ← Nat.add_assoc] at hnext
    have hwhole : done ++ text ++ (line comment).source ++ tail =
        done ++ (text ++ '/' :: '/' :: (comment ++ tail)) := by simp [source]
    rw [scan_code rfl, codeBefore_append (.inl rfl) hcode, scan_line rfl hline hend, ← hwhole,
      hnext, split_line hcode hline hend, byteLength_append done text]
    rfl
  | block text comment tail hcode hblock ih =>
    have hnext := ih (done ++ text ++ (block comment).source)
    rw [byteLength_append, byteLength_source_block, ← Nat.add_assoc] at hnext
    have hwhole : done ++ text ++ (block comment).source ++ tail =
        done ++ (text ++ '/' :: '*' :: (comment ++ '*' :: '/' :: tail)) := by simp [source]
    have hskip : (comment ++ '*' :: '/' :: tail).drop (comment.length + 2) = tail := by
      rw [← List.drop_drop, List.drop_left]
      rfl
    rw [scan_code rfl, codeBefore_append (.inr rfl) hcode, scan_opened rfl, split_opened hcode,
      blockText?_append hblock]
    dsimp only
    rw [← hwhole, hnext, hskip, byteLength_append done text]
    rfl
  | unclosed text rest hcode hopen =>
    rw [scan_code rfl, codeBefore_append (.inr rfl) hcode, scan_opened rfl, split_opened hcode,
      blockText?_eq_none_iff.mpr hopen, byteLength_append]

/-! ## Masking -/

/-- What stands for the pieces of a source: code, and a marker for each comment, with as many line
feeds after it as a block comment has. -/
theorem flatMap_masked (pieces : List Piece) :
    pieces.flatMap masked = pieces.flatMap fun
      | .code text => text
      | .line text => marker "line" text
      | .block text => marker "block" text ++ List.replicate (text.count '\n') '\n' := by
  congr 1
  funext piece
  cases piece with
  | code text => rfl
  | line text => rfl
  | block text => rw [masked, List.filter_beq]

/-- Masking recognises exactly the comments of a source.  If the source can be cut at its comments,
masking succeeds, and what stands for the pieces of the source makes up the masked text, which has
as many lines as the source.  If a block comment is not closed, masking fails with the offset of its
opening mark.  One of the two is always the case.  Masking the pieces that are found among the bytes
comes to the same, so every slice of the source starts and ends between characters. -/
theorem comments_recognised (source : List Char) :
    (∀ pieces, Cut pieces → pieces.flatMap Piece.source = source →
      ∃ m, Masked.ofSource source = .ok m ∧
        (m.text = pieces.flatMap fun
          | .code text => text
          | .line text => marker "line" text
          | .block text => marker "block" text ++ List.replicate (text.count '\n') '\n') ∧
        m.text.count '\n' = source.count '\n') ∧
      (∀ start, Unclosed start source → Masked.ofSource source = .error (byteLength start)) ∧
      ((∃ pieces, Cut pieces ∧ pieces.flatMap Piece.source = source) ∨
        ∃ start, Unclosed start source) ∧
      (scan source 0 0).map (·.map Masked.ofPieces) = some (Masked.ofSource source) := by
  refine ⟨?_, ?_, exists_cut_or_unclosed source, ?_⟩
  · rintro pieces hcut rfl
    refine ⟨.ofPieces pieces, map_eq_ok.mpr ⟨pieces, split_of_cut hcut 0, rfl⟩, ?_, ?_⟩
    · exact flatMap_masked pieces
    · exact count_newline_flatMap fun text hmem => hcut.newline_not_mem hmem
  · intro start hopen
    rw [Masked.ofSource, split_of_unclosed hopen, Nat.zero_add]
    rfl
  · have hscan := scan_eq_split [] source
    rw [List.nil_append] at hscan
    exact congrArg (Option.map _) hscan

/-- Slashes and stars side by side: the comment `/*/` is not closed by its own star, `//*` opens no
block comment, and a star after a comment is code. -/
theorem recognised_slashes :
    (∃ m, Masked.ofSource "é/*/\n*/*//*x".toList = .ok m ∧
      m.text = "é#[block = \"/\\n\"]\n*#[line = \"*x\"]".toList) ∧
      Masked.ofSource "é//*\n/*/".toList = .error 6 := by
  have hsplit : split 0 "é/*/\n*/*//*x".toList =
      .ok [.code ['é'], .block ['/', '\n'], .code ['*'], .line ['*', 'x'], .code []] := by
    decide +kernel
  have hbefore : split 0 "é//*\n/".toList = .ok [.code ['é'], .line ['*'], .code ['\n', '/']] := by
    decide +kernel
  obtain ⟨hcut, hsource⟩ := split_eq_ok_iff.mp hsplit
  obtain ⟨m, hmasked, htext, -⟩ := (comments_recognised _).1 _ hcut hsource
  refine ⟨⟨m, hmasked, htext.trans (by decide +kernel)⟩, ?_⟩
  refine (comments_recognised _).2.1 "é//*\n".toList ?_
  exact ⟨[.code ['é'], .line ['*']], ['\n'], ['/'], by decide, by decide,
    (split_eq_ok_iff.mp hbefore).1, by decide⟩

end Piece

end ShaderLang
