import Mathlib.Data.List.Forall2
import ShaderLang.Module

/-!
# Outcomes

Inversion of computations that may fail: a successful one has only successful parts.  `Gives` says
what every result of a computation is like, if it has one.  `Agree` compares two computations: they
fail for the same cause, or their results are related.

Main results:

- Theorem `bind_eq_ok`: a sequence of two computations succeeds exactly if both do.
- Theorem `map_eq_ok`: a mapped computation succeeds exactly if the computation does.
- Theorem `Gives.bind`: what a sequence of two computations gives follows from what its parts give.
- Theorem `mapM_eq_ok`: a computation for each item of a list succeeds exactly if all of them do.
- Theorem `Agree.bind`: sequences of computations agree if their parts do.
-/

namespace ShaderLang

variable {ε α β : Type}

/-- A sequence of two computations succeeds exactly if both do. -/
theorem bind_eq_ok {x : Except ε α} {f : α → Except ε β} {b : β} :
    x >>= f = .ok b ↔ ∃ a, x = .ok a ∧ f a = .ok b := by
  cases x with
  | error cause => simp [bind, Except.bind]
  | ok a => simp [bind, Except.bind]

/-- A mapped computation succeeds exactly if the computation does. -/
theorem map_eq_ok {x : Except ε α} {f : α → β} {b : β} :
    x.map f = .ok b ↔ ∃ a, x = .ok a ∧ f a = b := by
  cases x with
  | error cause => simp [Except.map]
  | ok a => simp [Except.map]

/-- The result of a sequence is mapped where its second part gives it. -/
theorem map_bind_eq {γ : Type} (x : Except ε α) (f : α → Except ε β) (g : β → γ) :
    (x >>= f).map g = x >>= fun a => (f a).map g :=
  map_bind g x f

/-- Two maps are one. -/
theorem map_map_eq {γ : Type} (x : Except ε α) (f : α → β) (g : β → γ) :
    (x.map f).map g = x.map fun a => g (f a) :=
  Functor.map_map f g x

/-- Each item of the first list is related to one of the second. -/
theorem exists_of_forall₂ {r : α → β → Prop} {as : List α} {bs : List β}
    (h : List.Forall₂ r as bs) {a : α} (ha : a ∈ as) : ∃ b, r a b := by
  induction h with
  | nil => cases ha
  | cons hfirst _ ih =>
    rcases List.mem_cons.mp ha with rfl | hrest
    · exact ⟨_, hfirst⟩
    · exact ih hrest

/-- A computation for each item of a list succeeds exactly if all of them do. -/
theorem mapM_eq_ok {f : α → Except ε β} {as : List α} {bs : List β} :
    as.mapM f = .ok bs ↔ List.Forall₂ (fun a b => f a = .ok b) as bs := by
  induction as generalizing bs with
  | nil =>
    rw [List.mapM_nil, List.forall₂_nil_left_iff]
    exact ⟨fun h => (Except.ok.inj h).symm, fun h => congrArg Except.ok h.symm⟩
  | cons a as ih =>
    rw [List.mapM_cons, bind_eq_ok, List.forall₂_cons_left_iff]
    constructor
    · rintro ⟨b, hb, hrest⟩
      obtain ⟨rest, hmap, hbs⟩ := bind_eq_ok.mp hrest
      cases hbs
      exact ⟨b, rest, hb, ih.mp hmap, rfl⟩
    · rintro ⟨b, rest, hb, hmap, rfl⟩
      exact ⟨b, hb, bind_eq_ok.mpr ⟨rest, ih.mpr hmap, rfl⟩⟩

/-- Computations for the items of a list are the same if they are for each item. -/
theorem mapM_congr {f g : α → Except ε β} {as : List α} (h : ∀ a ∈ as, f a = g a) :
    as.mapM f = as.mapM g := by
  induction as with
  | nil => rfl
  | cons a as ih =>
    rw [List.forall_mem_cons] at h
    rw [List.mapM_cons, List.mapM_cons, h.1, ih h.2]

/-! ## What computations give -/

/-- If a computation succeeds, its result has a property. -/
def Gives (p : α → Prop) (x : Except ε α) : Prop :=
  ∀ a, x = .ok a → p a

section Gives

variable {p : α → Prop} {q : β → Prop}

/-- A given result has the property if it has it. -/
theorem Gives.ok {a : α} (h : p a) : Gives p (.ok a : Except ε α) := by
  rintro _ ⟨⟩
  exact h

/-- A failed computation has no result. -/
theorem Gives.error {cause : ε} : Gives p (.error cause) := by
  rintro _ ⟨⟩

/-- What a sequence of two computations gives follows from what its parts give. -/
theorem Gives.bind {x : Except ε α} {f : α → Except ε β} (hx : Gives p x)
    (hf : ∀ a, p a → Gives q (f a)) : Gives q (x >>= f) := by
  intro b hb
  obtain ⟨a, ha, hfa⟩ := bind_eq_ok.mp hb
  exact hf a (hx a ha) b hfa

/-- The first part of a sequence may be passed over if nothing about its result matters. -/
theorem Gives.skip {x : Except ε α} {f : α → Except ε β} (hf : ∀ a, Gives q (f a)) :
    Gives q (x >>= f) :=
  Gives.bind (p := fun _ => True) (fun _ _ => trivial) fun a _ => hf a

end Gives

/-! ## Computations that agree -/

/-- Two computations fail for the same cause, or both succeed with related results. -/
inductive Agree (r : α → β → Prop) : Except ε α → Except ε β → Prop where
  | error (cause : ε) : Agree r (.error cause) (.error cause)
  | ok {a : α} {b : β} (h : r a b) : Agree r (.ok a) (.ok b)

section Agree

variable {γ δ : Type} {r : α → β → Prop} {x : Except ε α} {y : Except ε β}

/-- A computation agrees with itself. -/
theorem Agree.refl (x : Except ε α) : Agree Eq x x := by
  cases x with
  | error cause => exact .error cause
  | ok a => exact .ok rfl

/-- Results that are related are related in a weaker way. -/
theorem Agree.mono {s : α → β → Prop} (h : Agree r x y) (hrs : ∀ a b, r a b → s a b) :
    Agree s x y := by
  cases h with
  | error cause => exact .error cause
  | ok hab => exact .ok (hrs _ _ hab)

/-- Sequences of computations agree if their parts do. -/
theorem Agree.bind {s : γ → δ → Prop} {f : α → Except ε γ} {g : β → Except ε δ} (h : Agree r x y)
    (hfg : ∀ a b, r a b → Agree s (f a) (g b)) : Agree s (x >>= f) (y >>= g) := by
  cases h with
  | error cause => exact .error cause
  | ok hab => exact hfg _ _ hab

/-- Mapped computations agree if the functions keep the results related. -/
theorem Agree.map {s : γ → δ → Prop} {f : α → γ} {g : β → δ} (h : Agree r x y)
    (hfg : ∀ a b, r a b → s (f a) (g b)) : Agree s (x.map f) (y.map g) := by
  cases h with
  | error cause => exact .error cause
  | ok hab => exact .ok (hfg _ _ hab)

/-- A mapped computation agrees with another one if the function keeps the results related. -/
theorem Agree.map_left {s : γ → β → Prop} {f : α → γ} (h : Agree r x y)
    (hf : ∀ a b, r a b → s (f a) b) : Agree s (x.map f) y := by
  cases h with
  | error cause => exact .error cause
  | ok hab => exact .ok (hf _ _ hab)

/-- Where one computation succeeds, so does a computation that agrees with it. -/
theorem Agree.exists_of_ok {a : α} (h : Agree r x y) (hx : x = .ok a) :
    ∃ b, y = .ok b ∧ r a b := by
  cases h with
  | error cause => cases hx
  | ok hab =>
    cases hx
    exact ⟨_, rfl, hab⟩

/-- Computations with the same results are equal. -/
theorem Agree.eq {y : Except ε α} (h : Agree Eq x y) : x = y := by
  cases h with
  | error cause => rfl
  | ok hab => rw [hab]

end Agree

end ShaderLang
