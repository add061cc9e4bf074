import ShaderLang.Proofs.Climbing
import ShaderLang.Proofs.Masking

/-!
# The text of a comment

The text of a comment goes through two components that know nothing of each other: masking writes it
as a quoted string in a marker, and the reader of tokens takes the string apart again.  It comes
through both as it was, whatever its characters, but for its carriage returns.

Main results:

- Theorem `tokenize_marker`: a marker is read as its tokens, with the text as a string.
- Theorem `readAll_comment`: the tokens of a marker are read as the comment that it holds.
- Theorem `comment_text_kept`: a source that is one comment is read as that comment.
-/

namespace ShaderLang

/-- A marker with line feeds after it is read as a number sign and the marker's brackets. -/
theorem tokenize_marker {kind : String} (hkind : Lexeme.isIdentifier kind.toList = true)
    (text : List Char) {breaks : List Char} (hbreaks : ∀ c ∈ breaks, c = '\n') :
    ∃ sign name equals string span,
      tokenize (String.ofList (Piece.marker kind text ++ breaks)) =
        .ok [.punct '#' false sign,
          .group .bracket [.ident kind name, .punct '=' false equals,
            .literal (.string (text.filter (· != '\r'))) string] span] := by
  -- No byte order mark is passed over, since the text starts with a number sign.
  have hstart : Lexeme.ofText (Piece.marker kind text ++ breaks) =
      Lexeme.lexemes .start (Piece.marker kind text ++ breaks) := by
    simp [Piece.marker, Lexeme.ofText]
  have hend : ∀ place, Lexeme.lexemes place breaks = [] := by
    intro place
    have hread := Lexeme.lexemes_newlines hbreaks place []
    rw [List.append_nil] at hread
    rw [hread, Lexeme.lexemes]
  obtain ⟨sign, first, last, next, name, equals, string, hmarker⟩ :=
    Lexeme.lexemes_marker hkind text breaks .start
  refine ⟨sign, name, equals, string, ⟨first, ⟨last.line, last.column + 1⟩⟩, ?_⟩
  rw [tokenize, String.toList_ofList, hstart, hmarker, hend]
  rfl

namespace Grammar

/-- The tokens of a marker are read in full as the comment that its brackets hold, if nothing stands
in them after the text. -/
theorem readAll_comment {content : List Token} {span : Span} {e : Expr}
    (hread : commentText span.last content = .ok e) (hshort : content.length ≤ 3) (joint : Bool)
    (sign : Span) :
    readAll comment [.punct '#' joint sign, .group .bracket content span] = .ok e := by
  have htaken : comment .origin [.punct '#' joint sign, .group .bracket content span] =
      .ok ⟨e, 2⟩ := by
    simp only [comment, List.drop_one, List.tail_cons, hread]
    rfl
  have hstrays : strays [.punct '#' joint sign, .group .bracket content span] = none := by
    rw [strays, List.drop_of_length_le hshort, strays]
  rw [readAll, bind_eq_ok]
  exact ⟨⟨e, 2⟩, htaken, complete_eq_ok_iff.mpr ⟨rfl, rfl, hstrays⟩⟩

/-- A source that is one comment is read as the statement that the marker of the comment holds. -/
theorem exists_readAll_comment {piece : Piece} {kind : String} {text breaks : List Char} {e : Expr}
    (hcut : Piece.Cut [.code [], piece, .code []])
    (hmasked : piece.masked = Piece.marker kind text ++ breaks)
    (hkind : Lexeme.isIdentifier kind.toList = true) (hbreaks : ∀ c ∈ breaks, c = '\n')
    (hread : ∀ stop name equals string, commentText stop [.ident kind name,
      .punct '=' false equals, .literal (.string (text.filter (· != '\r'))) string] = .ok e) :
    ∃ masked tokens, Masked.ofSource piece.source = .ok masked ∧
      tokenize (String.ofList masked.text) = .ok tokens ∧ readAll comment tokens = .ok e := by
  have hsplit : Piece.split 0 piece.source = .ok [.code [], piece, .code []] := by
    simpa using Piece.split_of_cut hcut 0
  have htext : (Masked.ofPieces [.code [], piece, .code []]).text =
      Piece.marker kind text ++ breaks := by
    simp [Masked.ofPieces, hmasked]
  obtain ⟨sign, name, equals, string, span, htokens⟩ := tokenize_marker hkind text hbreaks
  refine ⟨Masked.ofPieces [.code [], piece, .code []], _, ?_, htext ▸ htokens,
    readAll_comment (hread span.last name equals string) le_rfl false sign⟩
  rw [Masked.ofSource, hsplit]
  rfl

/-- The text of a comment comes through masking, the tokens of the masked text and the reader of
markers unchanged, but for its carriage returns: a block comment of any text in which it is not
closed, and a line comment of any text on one line. -/
theorem comment_text_kept (text : String) :
    (¬ ['*', '/'] <:+: text.toList →
      ∃ masked tokens, Masked.ofSource ("/*" ++ text ++ "*/").toList = .ok masked ∧
        tokenize (String.ofList masked.text) = .ok tokens ∧
        readAll comment tokens =
          .ok (.blockComment (String.ofList (text.toList.filter (· != '\r'))))) ∧
    ('\n' ∉ text.toList →
      ∃ masked tokens, Masked.ofSource ("//" ++ text).toList = .ok masked ∧
        tokenize (String.ofList masked.text) = .ok tokens ∧
        readAll comment tokens =
          .ok (.lineComment (String.ofList (text.toList.filter (· != '\r'))))) := by
  have hcode : ¬ Piece.Opens [] := by simp [Piece.Opens]
  have hslash : ¬ Piece.Opens ([] ++ ['/']) := by simp [Piece.opens_cons_iff, hcode]
  constructor
  · intro hblock
    have hsource : ("/*" ++ text ++ "*/").toList = (Piece.block text.toList).source := by
      simp [Piece.source]
    have hbreaks : ∀ c ∈ text.toList.filter (· == '\n'), c = '\n' := by
      intro c hc
      simpa using (List.mem_filter.mp hc).2
    rw [hsource]
    exact exists_readAll_comment (.block hslash hblock (.code hcode)) rfl (by decide) hbreaks
      fun _ _ _ _ => rfl
  · intro hline
    have hsource : ("//" ++ text).toList = (Piece.line text.toList).source := by
      simp [Piece.source]
    rw [hsource]
    exact exists_readAll_comment (.line hslash hline (by simp) (.code hcode))
      (List.append_nil _).symm (by decide) (by simp) fun _ _ _ _ => rfl

/-- A quote, a backslash, a null character, a combining mark, a blank without width, a star and a
slash that a carriage return keeps apart, and what ends a marker. -/
def oddText : String := "\"\\\x00\u0301\u200b*\r/'\"]"

/-- Odd characters are kept in a comment of either kind. -/
theorem comment_text_kept_odd :
    (∃ masked tokens, Masked.ofSource ("/*" ++ oddText ++ "*/").toList = .ok masked ∧
      tokenize (String.ofList masked.text) = .ok tokens ∧
      readAll comment tokens = .ok (.blockComment "\"\\\x00\u0301\u200b*/'\"]")) ∧
    ∃ masked tokens, Masked.ofSource ("//" ++ oddText).toList = .ok masked ∧
      tokenize (String.ofList masked.text) = .ok tokens ∧
      readAll comment tokens = .ok (.lineComment "\"\\\x00\u0301\u200b*/'\"]") := by
  have hfilter : String.ofList (oddText.toList.filter (· != '\r')) =
      "\"\\\x00\u0301\u200b*/'\"]" := by
    decide
  have hkept := comment_text_kept oddText
  rw [hfilter] at hkept
  exact ⟨hkept.1 (by decide), hkept.2 (by decide)⟩

end Grammar

end ShaderLang
