import Mathlib.Data.List.Induction
import Mathlib.Data.List.Nodup
import ShaderLang.Proofs.Signature
import ShaderLang.Proofs.Uses

/-!
# What the lint reports

The lint reports exactly the names that are used at a place of a body where nothing provides them.
A composite needs no lint of its own: what is unresolved in it is unresolved in one of the shaders
that it is made of.

Main results:

- Theorem `Scope.pairwise_foldl_note`: names are noted in the order of first use.
- Theorem `reports_iff`: the lint gives the names of the free uses of a body, each once, in the
  order of first use, and no other list is such a report.
- Theorem `unresolvedNames_composed`: the unresolved names of any nesting of compositions come from
  the shaders that it starts from.
-/

namespace ShaderLang

/-! ## What the lint reports -/

/-- A name is used at a place of a body where nothing provides it. -/
structure FreeAt (env : Env) (body : Block) (place : List Nat) (name : String) : Prop where
  /-- The name is used there.  No earlier statement of the same block or of a block around it binds
  the name, and it is not the counter of a loop around it. -/
  unbound : ∃ bound, Portion.Uses (.block body) place bound name ∧ name ∉ bound
  /-- No block of the environment binds the name. -/
  invisible : name ∉ env.names ∧ ∀ names ∈ env.outer, name ∉ names
  /-- The target language does not provide the name. -/
  foreign : name ∉ builtins

/-- A list has the names that are free somewhere in a body, each once and in the order of first
use. -/
structure Reports (env : Env) (body : Block) (names : List String) : Prop where
  nodup : names.Nodup
  mem_iff : ∀ name, name ∈ names ↔ ∃ place, FreeAt env body place name
  /-- Of two names, the first is used before all uses of the second. -/
  ordered : names.Pairwise fun x y =>
    ∃ place, FreeAt env body place x ∧
      ∀ other, FreeAt env body other y → Portion.IsBefore place other

namespace Scope

open Portion (IsBefore IsSorted)

variable {env : Env} {uses : List (List Nat × String)} {last : List Nat × String} {x y : String}

/-- A name is noted already, or it is put last. -/
theorem note_cases (env : Env) (missing : List String) (name : String) :
    note env missing name = missing ∨
      (env.resolves name = false ∧ name ∉ missing ∧ note env missing name = missing ++ [name]) := by
  unfold note
  split
  · exact Or.inl rfl
  · rename_i hnew
    simp only [Bool.or_eq_true, List.contains_iff_mem, not_or, Bool.not_eq_true] at hnew
    exact Or.inr ⟨hnew.1, hnew.2, rfl⟩

/-- No name is noted twice. -/
theorem nodup_foldl_note {missing : List String} (h : missing.Nodup) (names : List String) :
    (names.foldl (note env) missing).Nodup := by
  induction names generalizing missing with
  | nil => exact h
  | cons name names ih =>
    apply ih
    rcases note_cases env missing name with heq | ⟨-, hnew, heq⟩
    · rwa [heq]
    · rw [heq, ← List.concat_eq_append]
      exact h.concat hnew

/-- One name is used before all uses of another. -/
def FirstBefore (uses : List (List Nat × String)) (x y : String) : Prop :=
  ∃ place, (place, x) ∈ uses ∧ ∀ other, (other, y) ∈ uses → IsBefore place other

/-- A last use is after every first use. -/
theorem FirstBefore.append (h : FirstBefore uses x y) (hsorted : IsSorted (uses ++ [last])) :
    FirstBefore (uses ++ [last]) x y := by
  rcases h with ⟨place, hplace, hfirst⟩
  refine ⟨place, List.mem_append_left _ hplace, fun other hother => ?_⟩
  rcases List.mem_append.mp hother with hother | hother
  · exact hfirst other hother
  · exact (List.pairwise_append.mp hsorted).2.2 _ hplace _ hother

/-- What is used before is used before the only use of the last name. -/
theorem firstBefore_last (hsorted : IsSorted (uses ++ [last])) (hx : x ∈ uses.map Prod.snd)
    (hlast : last.2 ∉ uses.map Prod.snd) : FirstBefore (uses ++ [last]) x last.2 := by
  rcases List.mem_map.mp hx with ⟨⟨place, x⟩, hplace, rfl⟩
  refine ⟨place, List.mem_append_left _ hplace, fun other hother => ?_⟩
  rcases List.mem_append.mp hother with hother | hother
  · exact absurd (List.mem_map_of_mem hother) hlast
  · exact (List.pairwise_append.mp hsorted).2.2 _ hplace _ hother

/-- Names are noted in the order of first use. -/
theorem pairwise_foldl_note (env : Env) (hsorted : IsSorted uses) :
    ((uses.map Prod.snd).foldl (note env) []).Pairwise (FirstBefore uses) := by
  induction uses using List.reverseRecOn with
  | nil => exact .nil
  | append_singleton uses last ih =>
    have hnoted := (ih (List.pairwise_append.mp hsorted).1).imp fun h => h.append hsorted
    rw [List.map_append, List.foldl_append, List.map_singleton, List.foldl_cons, List.foldl_nil]
    rcases note_cases env ((uses.map Prod.snd).foldl (note env) []) last.2 with
      heq | ⟨hmissing, hnew, heq⟩
    · rwa [heq]
    · rw [mem_foldl_note_iff, not_or] at hnew
      rw [heq, List.pairwise_append]
      refine ⟨hnoted, List.pairwise_singleton _ _, fun x hx y hy => ?_⟩
      obtain rfl := List.mem_singleton.mp hy
      have hused := ((mem_foldl_note_iff.mp hx).resolve_left List.not_mem_nil).1
      exact firstBefore_last hsorted hused fun hlast => hnew.2 ⟨hlast, hmissing⟩

end Scope

/-- A name is not visible if no block of the environment binds it and the target language does not
provide it. -/
theorem Env.resolves_eq_false_iff {env : Env} {name : String} :
    env.resolves name = false ↔
      (name ∉ env.names ∧ ∀ names ∈ env.outer, name ∉ names) ∧ name ∉ builtins := by
  simp [resolves, and_assoc]

/-- The lint notes the free names of a body in their order. -/
theorem unresolved_eq_foldl (env : Env) (body : Block) :
    unresolved env body = (Scope.freeInBlock body).foldl (Scope.note env) [] := by
  rw [unresolved, Scope.inBlock_eq_foldl, Scope.note_child]

theorem mem_unresolved_iff {env : Env} {body : Block} {name : String} :
    name ∈ unresolved env body ↔
      name ∈ Scope.freeInBlock body ∧ env.resolves name = false := by
  rw [unresolved_eq_foldl, Scope.mem_foldl_note_iff]
  simp

/-- What the lint gives is a report. -/
theorem reports_unresolved (env : Env) (body : Block) :
    Reports env body (unresolved env body) := by
  rcases (Portion.block body).exists_listsUses with ⟨uses, huses⟩
  have hnames : uses.map Prod.snd = Scope.freeInBlock body := huses.names
  have hfree : ∀ {place : List Nat} {name : String}, FreeAt env body place name ↔
      (place, name) ∈ uses ∧ env.resolves name = false := by
    intro place name
    rw [huses.mem_iff, Env.resolves_eq_false_iff]
    exact ⟨fun h => ⟨h.unbound, h.invisible, h.foreign⟩, fun h => ⟨h.1, h.2.1, h.2.2⟩⟩
  constructor
  · rw [unresolved_eq_foldl]
    exact Scope.nodup_foldl_note List.nodup_nil _
  · intro name
    rw [mem_unresolved_iff, ← hnames]
    simp only [hfree]
    simp
  · have hordered := Scope.pairwise_foldl_note env huses.sorted
    rw [hnames, ← unresolved_eq_foldl] at hordered
    refine hordered.imp_of_mem fun {x y} hx _ hfirst => ?_
    rcases hfirst with ⟨place, hplace, hfirst⟩
    refine ⟨place, hfree.mpr ⟨hplace, (mem_unresolved_iff.mp hx).2⟩, fun other hother => ?_⟩
    exact hfirst other (hfree.mp hother).1

/-- There is only one report: two names cannot each be used before all uses of the other. -/
theorem Reports.unique {env : Env} {body : Block} {names others : List String}
    (h : Reports env body names) (h' : Reports env body others) : names = others := by
  have hperm : names.Perm others := (List.perm_ext_iff_of_nodup h.nodup h'.nodup).mpr fun name =>
    (h.mem_iff name).trans (h'.mem_iff name).symm
  refine List.Perm.eq_of_pairwise ?_ h.ordered h'.ordered hperm
  rintro x y - - ⟨place, hplace, hfirst⟩ ⟨other, hother, hfirst'⟩
  exact absurd (hfirst' place hplace) (List.lex_asymm Nat.lt_asymm (hfirst other hother))

/-- The lint reports exactly the free uses of names: it gives the names that are used at some place
of a body where nothing provides them, each once and in the order of first use, and no other list is
such a report. -/
theorem reports_iff (env : Env) (body : Block) (names : List String) :
    Reports env body names ↔ names = unresolved env body := by
  constructor
  · intro h
    exact h.unique (reports_unresolved env body)
  · rintro rfl
    exact reports_unresolved env body

-- the counter and the local are bound at their first uses and free at their second ones
example : unresolved (.global ["acc"])
    [.loop (.ref "n") (some "i") [.constant .int "x" (.ref "y"), .update "acc" (.ref "i"), .ref "x"],
      .binary .add (.ref "x") (.ref "i"), .ref "n", .done] = ["n", "y", "x", "i"] := by
  decide

/-! ## Composites -/

namespace Shader

/-- What the lint reports of a shader that sees some global names beside its inputs and outputs. -/
def unresolvedNames (globals : List String) (shader : Shader) : List String :=
  unresolved (.global (globals ++ shader.inputNames ++ shader.outputNames)) shader.body

theorem mem_unresolved_global_iff {visible : List String} {body : Block} {name : String} :
    name ∈ unresolved (.global visible) body ↔
      name ∈ Scope.freeInBlock body ∧ name ∉ visible ∧ name ∉ builtins := by
  rw [mem_unresolved_iff, Env.resolves_eq_false_iff]
  simp [Env.global]

/-- What is unresolved in a composite is unresolved in one of the two shaders: no name that one of
them sees is lost, since the outputs of the first are variables of the composite, and each input of
the second is one of these variables or is bound to one. -/
theorem mem_unresolved_composite {stage : Stage} {down up : Shader} (hfits : Fits down up)
    {globals : List String} {name : String}
    (h : name ∈ unresolved (.global (globals ++ up.inputNames ++ down.outputNames))
      (composite stage down up).body) :
    name ∈ up.unresolvedNames globals ∨ name ∈ down.unresolvedNames globals := by
  rcases mem_unresolved_global_iff.mp h with ⟨hfree, hvisible, hforeign⟩
  simp only [List.mem_append, not_or] at hvisible
  rcases hvisible with ⟨⟨hglobal, hinput⟩, houtput⟩
  rcases mem_freeInBlock_composite hfits hfree with ⟨hused, hlocal⟩ | ⟨hused, hfed⟩
  · refine Or.inl (mem_unresolved_global_iff.mpr ⟨hused, ?_, hforeign⟩)
    simp only [List.mem_append, not_or]
    exact ⟨⟨hglobal, hinput⟩, hlocal⟩
  · refine Or.inr (mem_unresolved_global_iff.mpr ⟨hused, ?_, hforeign⟩)
    simp only [List.mem_append, not_or]
    exact ⟨⟨hglobal, hfed⟩, houtput⟩

/-- What is unresolved in a shader that is made by compositions is unresolved in one of the shaders
that it is made of. -/
theorem Composed.exists_mem_unresolvedNames {base : Shader → Prop} {first last shader : Shader}
    (h : Composed base first last shader) {globals : List String} {name : String}
    (hname : name ∈ shader.unresolvedNames globals) :
    ∃ start, base start ∧ name ∈ start.unresolvedNames globals := by
  induction h with
  | single hbase => exact ⟨_, hbase, hname⟩
  | step _ _ hcompose ihup ihdown =>
    rcases compose_eq_ok_iff.mp hcompose with ⟨hfits, rfl⟩
    rcases mem_unresolved_composite hfits hname with hup | hdown
    · exact ihup hup
    · exact ihdown hdown

/-- Composites need no lint of their own.  What is unresolved in a composite is unresolved in one of
the two shaders, whatever the global names are.  Through any nesting of compositions, what is
unresolved is so in one of the shaders that the composite is made of, so a composite of clean
shaders is clean. -/
theorem unresolvedNames_composed (globals : List String) :
    (∀ stage down up c, compose stage down up = .ok c →
      ∀ name ∈ unresolved (.global (globals ++ up.inputNames ++ down.outputNames)) c.body,
        name ∈ up.unresolvedNames globals ∨ name ∈ down.unresolvedNames globals) ∧
    (∀ base first last c, Composed base first last c → ∀ name ∈ c.unresolvedNames globals,
      ∃ start, base start ∧ name ∈ start.unresolvedNames globals) ∧
    ∀ first last c, Composed (fun start => start.unresolvedNames globals = []) first last c →
      c.unresolvedNames globals = [] := by
  refine ⟨?_, ?_, ?_⟩
  · intro stage down up c hcompose name hname
    rcases compose_eq_ok_iff.mp hcompose with ⟨hfits, rfl⟩
    exact mem_unresolved_composite hfits hname
  · intro base first last c hcomposed name hname
    exact hcomposed.exists_mem_unresolvedNames hname
  · intro first last c hcomposed
    refine List.eq_nil_iff_forall_not_mem.mpr fun name hname => ?_
    rcases hcomposed.exists_mem_unresolvedNames hname with ⟨start, hclean, hmem⟩
    rw [hclean] at hmem
    cases hmem

/-- Adds a global variable to its input. -/
def shifting (input output global : String) : Shader :=
  { copying input output with
    body := Block.ofStmts [.output output (.binary .add (.ref input) (.ref global))] }

/-- A name that the second of two shaders does not see is unresolved in their composite too, and
three clean shaders in a row are clean. -/
theorem unresolvedNames_shifting :
    (compose .vertex (shifting "x" "r" "h") (shifting "p" "a" "g") =
        .ok (composite .vertex (shifting "x" "r" "h") (shifting "p" "a" "g")) ∧
      "h" ∈ unresolved (.global (["g"] ++ ["p"] ++ ["r"]))
        (composite .vertex (shifting "x" "r" "h") (shifting "p" "a" "g")).body ∧
      ("h" ∈ (shifting "p" "a" "g").unresolvedNames ["g"] ∨
        "h" ∈ (shifting "x" "r" "h").unresolvedNames ["g"])) ∧
      (composite .vertex (shifting "y" "s" "g") (composite .vertex (shifting "x" "r" "g")
        (shifting "p" "a" "g"))).unresolvedNames ["g"] = [] := by
  have hmem : "h" ∈ unresolved (.global (["g"] ++ ["p"] ++ ["r"]))
      (composite .vertex (shifting "x" "r" "h") (shifting "p" "a" "g")).body := by
    decide
  rcases unresolvedNames_composed ["g"] with ⟨hone, -, hclean⟩
  have hfirst : (shifting "p" "a" "g").unresolvedNames ["g"] = [] := by decide
  have hnext : (shifting "x" "r" "g").unresolvedNames ["g"] = [] := by decide
  have hlast : (shifting "y" "s" "g").unresolvedNames ["g"] = [] := by decide
  refine ⟨⟨rfl, hmem, hone .vertex _ _ _ rfl "h" hmem⟩, ?_⟩
  exact hclean _ _ _ (.step (.step (.single hfirst) (.single hnext) rfl) (.single hlast) rfl)

end Shader

end ShaderLang
