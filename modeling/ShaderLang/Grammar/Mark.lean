import ShaderLang.Grammar.Fault
import ShaderLang.Operator

/-!
# Words and marks

The smallest readers: words, punctuation marks, operators, and the end of a group.  A mark of two
characters stands where its first character is joint to its second; a mark of one character also
stands at the start of a longer run.
-/

namespace ShaderLang

namespace Grammar

/-- A word stands first. -/
def startsWord (word : String) : List Token → Bool
  | .ident text _ :: _ => text == word
  | _ => false

/-- A punctuation character stands first. -/
def startsMark (mark : Char) : List Token → Bool
  | .punct c _ _ :: _ => c == mark
  | _ => false

/-- Two joined punctuation characters stand first. -/
def startsPair (first second : Char) : List Token → Bool
  | .punct c joint _ :: rest => c == first && joint && startsMark second rest
  | _ => false

/-- A group stands first. -/
def startsGroup (delim : Delim) : List Token → Bool
  | .group d _ _ :: _ => d == delim
  | _ => false

/-- A word stands first exactly if the first token is that word. -/
theorem startsWord_iff {text : String} {tokens : List Token} :
    startsWord text tokens = true ↔ ∃ span rest, tokens = .ident text span :: rest := by
  constructor
  · intro h
    unfold startsWord at h
    split at h
    · cases beq_iff_eq.mp h
      exact ⟨_, _, rfl⟩
    · cases h
  · rintro ⟨span, rest, rfl⟩
    exact beq_self_eq_true text

/-- A mark stands first exactly if the first token is that mark. -/
theorem startsMark_iff {c : Char} {tokens : List Token} :
    startsMark c tokens = true ↔ ∃ joint span rest, tokens = .punct c joint span :: rest := by
  constructor
  · intro h
    unfold startsMark at h
    split at h
    · cases beq_iff_eq.mp h
      exact ⟨_, _, _, rfl⟩
    · cases h
  · rintro ⟨joint, span, rest, rfl⟩
    exact beq_self_eq_true c

/-- Take a certain word. -/
def word (text : String) (stop : Span) (tokens : List Token) : Except Fault (Taken Unit) :=
  if startsWord text tokens then .ok ⟨(), 1⟩ else .error (.missing stop tokens (.word text))

/-- Take a certain punctuation character. -/
def mark (c : Char) (stop : Span) (tokens : List Token) : Except Fault (Taken Unit) :=
  if startsMark c tokens then .ok ⟨(), 1⟩
  else .error (.missingMark stop tokens (String.singleton c))

/-- Take two joined punctuation characters. -/
def pair (first second : Char) (stop : Span) (tokens : List Token) : Except Fault (Taken Unit) :=
  if startsPair first second tokens then .ok ⟨(), 2⟩
  else .error (.missingMark stop tokens (String.ofList [first, second]))

/-- No tokens are left. -/
def finish : List Token → Except Fault Unit
  | [] => .ok ()
  | token :: _ => .error ⟨.leftOver, token.head⟩

/-! ## Operators -/

/-- The punctuation character that is joined to the one before it. -/
def joined? (joint : Bool) : List Token → Option Char
  | .punct c _ _ :: _ => if joint then some c else none
  | _ => none

/-- The operator that a character spells with the character joined to it, and whether that one is
part of it.  A minus sign before `>` is no operator. -/
def spelled? (c : Char) (next : Option Char) : Option (Operator × Bool) :=
  match c, next with
  | '&', some '&' => some (.and, true)
  | '|', some '|' => some (.or, true)
  | '=', some '=' => some (.eq, true)
  | '!', some '=' => some (.neq, true)
  | '<', some '=' => some (.lte, true)
  | '>', some '=' => some (.gte, true)
  | '<', _ => some (.lt, false)
  | '>', _ => some (.gt, false)
  | '&', _ => some (.bitAnd, false)
  | '|', _ => some (.bitOr, false)
  | '^', _ => some (.bitXor, false)
  | '+', _ => some (.add, false)
  | '-', some '>' => none
  | '-', _ => some (.sub, false)
  | '*', _ => some (.mul, false)
  | '/', _ => some (.div, false)
  | '%', _ => some (.mod, false)
  | _, _ => none

/-- The operator that stands first, with its width. -/
def operator? : List Token → Option (Taken Operator)
  | .punct c joint _ :: rest =>
    (spelled? c (joined? joint rest)).map fun (op, double) => ⟨op, if double then 2 else 1⟩
  | _ => none

/-- Take an operator. -/
def operator (stop : Span) (tokens : List Token) : Except Fault (Taken Operator) :=
  match operator? tokens with
  | some op => .ok op
  | none => .error (.missing stop tokens .operator)

end Grammar

end ShaderLang
