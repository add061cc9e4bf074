import Mathlib.Data.List.TakeWhile
import ShaderLang.Text.Bytes
import ShaderLang.Text.Position

/-!
# Stretches of text

A stretch of text ends where a test fails for the first time, or where a line ends.  The place after
some text is the number of its lines and the length of its last line, and that place leads back to
the text.

Main results:

- Theorem `takeWhile_append_stop`: a stretch that is stopped by what follows it is found.
- Theorem `line_after`: a line feed, and nothing else, leads to the next line.
- Theorem `afterLines_append`: passing over the lines of a text leads to the start of its last line.
-/

namespace ShaderLang.Text

/-! ## Where a test fails -/

/-- A stretch of characters that pass a test is found where the next character fails it. -/
theorem takeWhile_append_stop {p : Char → Bool} {cs rest : List Char} (hcs : ∀ c ∈ cs, p c = true)
    (hrest : ∀ c ∈ rest.head?, p c = false) : (cs ++ rest).takeWhile p = cs := by
  rw [List.takeWhile_append_of_pos hcs]
  cases rest with
  | nil => simp
  | cons c rest => simp [hrest c rfl]

/-- What follows a stretch of characters that pass a test is left where it starts with one that
fails it. -/
theorem dropWhile_append_stop {p : Char → Bool} {cs rest : List Char} (hcs : ∀ c ∈ cs, p c = true)
    (hrest : ∀ c ∈ rest.head?, p c = false) : (cs ++ rest).dropWhile p = rest := by
  rw [List.dropWhile_append_of_pos hcs]
  cases rest with
  | nil => rfl
  | cons c rest => simp [hrest c rfl]

/-- A character that follows a stretch fails the test of the stretch. -/
theorem stop_of_takeWhile {p : Char → Bool} {cs : List Char} {c : Char}
    (h : c ∈ (cs.drop (cs.takeWhile p).length).head?) : p c = false := by
  induction cs with
  | nil => simp at h
  | cons d cs ih =>
    by_cases hd : p d = true
    · rw [List.takeWhile_cons_of_pos hd] at h
      exact ih h
    · rw [List.takeWhile_cons_of_neg hd] at h
      obtain rfl : d = c := by simpa using h
      simpa using hd

/-! ## Lines -/

/-- A line feed, and nothing else, leads to the next line. -/
theorem line_after (p : Pos) (cs : List Char) : (p.after cs).line = p.line + cs.count '\n' := by
  induction cs generalizing p with
  | nil => rfl
  | cons c cs ih =>
    rw [Pos.after_cons, ih]
    by_cases hc : c = '\n'
    · simp [Pos.next, hc]
      omega
    · simp [Pos.next, hc]

/-- Passing over the lines of a text leads to the start of its last line, and the column after the
text is the length of that line.  The text starts after `line`, the first part of its first line. -/
theorem afterLines_append {line : List Char} (hline : '\n' ∉ line) (n : Nat) (cs rest : List Char) :
    ∃ first last, line ++ cs = first ++ last ∧ '\n' ∉ last ∧
      (Pos.after ⟨n, line.length⟩ cs).column = last.length ∧
      afterLines (cs.count '\n') (line ++ cs ++ rest) = last ++ rest := by
  induction cs generalizing line n with
  | nil => exact ⟨[], line, by simp, hline, by simp, by simp [afterLines]⟩
  | cons c cs ih =>
    by_cases hc : c = '\n'
    · subst hc
      obtain ⟨first, last, hsplit, hlast, hcolumn, hafter⟩ := @ih [] (by simp) (n + 1)
      have hnext : afterLines (('\n' :: cs).count '\n') (line ++ '\n' :: cs ++ rest) =
          afterLines (cs.count '\n') (cs ++ rest) := by
        have hdrop : (line ++ '\n' :: (cs ++ rest)).dropWhile (· != '\n') =
            '\n' :: (cs ++ rest) := by
          rw [List.dropWhile_append_of_pos fun d hd => by simpa using ne_of_mem_of_not_mem hd hline]
          simp
        rw [List.count_cons_self, afterLines, List.append_assoc, List.cons_append, hdrop]
        rfl
      refine ⟨line ++ '\n' :: first, last, by simpa using hsplit, hlast, ?_, ?_⟩
      · simpa [Pos.next] using hcolumn
      · rw [hnext]
        simpa using hafter
    · have hmore : '\n' ∉ line ++ [c] := by simp [hline, Ne.symm hc]
      obtain ⟨first, last, hsplit, hlast, hcolumn, hafter⟩ := ih hmore n
      refine ⟨first, last, by simpa using hsplit, hlast, ?_, ?_⟩
      · simpa [Pos.next, hc] using hcolumn
      · simpa [List.count_cons, hc] using hafter

end ShaderLang.Text
