import ShaderLang.Proofs.Execution
import ShaderLang.Proofs.FreeNames
import ShaderLang.Proofs.Outcome

/-!
# Executions that run alike

The same statements are executed twice, over different variables around them.  If both executions
see the same variables under the free names of the statements, they take the same steps: they bind
and assign the same local variables, give the same values to the variables around them, and leave
the same global variables, or they get stuck for the same cause.

Main results:

- Theorem `eval_congr`: the value of an expression depends only on the variables that its free names
  denote.
- Theorems `exec_alike` and `execBlock_alike`: a statement and a block run alike where both
  executions see the same under their free names.
- Theorems `execBlock_agree` and `exec_scope_agree`: a body and a block run alike over different
  variables, and around them the names that are not shared denote what they did before.
- Theorem `execBlock_inner`: a body that runs over some variables runs alike in an inner block,
  where its free names denote variables of the same values.
-/

namespace ShaderLang

namespace Execution

variable {V : Type}

/-! ## Frames -/

namespace Frame

/-- A variable can be assigned exactly if there is one of the name. -/
theorem assign_eq_none_iff {name : String} (value : V) {frame : Frame V} :
    frame.assign name value = none ↔ frame.lookup name = none := by
  induction frame with
  | nil => simp [assign]
  | cons pair frame ih =>
    obtain ⟨other, old⟩ := pair
    by_cases hname : other = name
    · simp [assign, hname]
    · have hne : (name == other) = false := by simpa using Ne.symm hname
      simp [assign, List.lookup_cons, hname, hne, ih]

/-- After an assignment the name denotes the value, and every other name what it did before. -/
theorem lookup_assign {name x : String} {value : V} {frame frame' : Frame V}
    (h : frame.assign name value = some frame') :
    frame'.lookup x = if x = name then some (some value) else frame.lookup x := by
  induction frame generalizing frame' with
  | nil => simp [assign] at h
  | cons pair frame ih =>
    obtain ⟨other, old⟩ := pair
    by_cases hname : other = name
    · subst hname
      simp only [assign, if_true, Option.some.injEq] at h
      subst h
      by_cases hx : x = other
      · simp [hx]
      · have hne : (x == other) = false := by simpa using hx
        simp [List.lookup_cons, hne, hx]
    · simp only [assign, hname, if_false, Option.map_eq_some_iff] at h
      obtain ⟨rest, hrest, rfl⟩ := h
      by_cases hx : x = other
      · subst hx
        simp [hname]
      · have hne : (x == other) = false := by simpa using hx
        simp [List.lookup_cons, hne, ih hrest]

/-- An assignment changes no names. -/
theorem names_assign {name : String} {value : V} {frame frame' : Frame V}
    (h : frame.assign name value = some frame') :
    frame'.map Prod.fst = frame.map Prod.fst := by
  induction frame generalizing frame' with
  | nil => simp [assign] at h
  | cons pair frame ih =>
    obtain ⟨other, old⟩ := pair
    by_cases hname : other = name
    · simp only [assign, hname, if_true, Option.some.injEq] at h
      subst h
      simp [hname]
    · simp only [assign, hname, if_false, Option.map_eq_some_iff] at h
      obtain ⟨rest, hrest, rfl⟩ := h
      simp [ih hrest]

/-- The later variables are tried before the earlier ones. -/
theorem assign_append {name : String} {value : V} (later earlier : Frame V) :
    Frame.assign name value (later ++ earlier) =
      ((later.assign name value).map (· ++ earlier)).or
        ((earlier.assign name value).map (later ++ ·)) := by
  induction later with
  | nil => simp [assign]
  | cons pair later ih =>
    obtain ⟨other, old⟩ := pair
    by_cases hname : other = name
    · simp [assign, hname]
    · simp [assign, hname, ih, Option.map_or, Function.comp_def]

end Frame

/-! ## Blocks -/

/-- The names of the variables of each block. -/
def shape (frames : List (Frame V)) : List (List String) :=
  frames.map (·.map Prod.fst)

/-- Blocks with the names of others are as many, and the innermost ones have the same names. -/
theorem exists_of_shape_cons {frame : Frame V} {outer frames : List (Frame V)}
    (h : shape frames = shape (frame :: outer)) :
    ∃ frame' outer', frames = frame' :: outer' ∧ frame'.map Prod.fst = frame.map Prod.fst ∧
      shape outer' = shape outer :=
  List.map_eq_cons_iff.mp h

/-- Blocks with the names of a single one are a single one. -/
theorem exists_of_shape_singleton {frame : Frame V} {frames : List (Frame V)}
    (h : shape frames = shape [frame]) :
    ∃ frame', frames = [frame'] ∧ frame'.map Prod.fst = frame.map Prod.fst :=
  List.map_eq_singleton_iff.mp h

/-- An assignment in blocks is one among all their variables. -/
theorem flatten_assignIn {name : String} {value : V} (frames : List (Frame V)) :
    (assignIn name value frames).map List.flatten = Frame.assign name value frames.flatten := by
  induction frames with
  | nil => rfl
  | cons frame frames ih =>
    simp [assignIn, Frame.assign_append, ← ih, Option.map_or, Function.comp_def]

/-- An assignment in blocks fails exactly if the name denotes no variable of them. -/
theorem assignIn_eq_none_iff {name : String} {value : V} {frames : List (Frame V)} :
    assignIn name value frames = none ↔ frames.flatten.lookup name = none := by
  rw [← Frame.assign_eq_none_iff value, ← flatten_assignIn, Option.map_eq_none_iff]

/-- After an assignment in blocks the name denotes the value, and every other name what it did
before. -/
theorem lookup_assignIn {name x : String} {value : V} {frames frames' : List (Frame V)}
    (h : assignIn name value frames = some frames') :
    frames'.flatten.lookup x = if x = name then some (some value) else frames.flatten.lookup x := by
  have hflat : Frame.assign name value frames.flatten = some frames'.flatten := by
    rw [← flatten_assignIn, h, Option.map_some]
  exact Frame.lookup_assign hflat

/-- An assignment in blocks changes no names. -/
theorem shape_assignIn {name : String} {value : V} {frames frames' : List (Frame V)}
    (h : assignIn name value frames = some frames') : shape frames' = shape frames := by
  induction frames generalizing frames' with
  | nil => simp [assignIn] at h
  | cons frame frames ih =>
    rw [assignIn, Option.or_eq_some_iff] at h
    rcases h with h | ⟨-, h⟩
    · obtain ⟨frame', hframe, rfl⟩ := Option.map_eq_some_iff.mp h
      simp [shape, Frame.names_assign hframe]
    · obtain ⟨rest, hrest, rfl⟩ := Option.map_eq_some_iff.mp h
      simpa [shape] using ih hrest

/-! ## Local blocks over a base -/

/-- Local blocks over a base: the outermost of them goes on with the innermost block of the base. -/
def overlay : List (Frame V) → List (Frame V) → List (Frame V)
  | [], base => base
  | [own], [] => [own]
  | [own], frame :: base => (own ++ frame) :: base
  | inner :: own :: locals, base => inner :: overlay (own :: locals) base

/-- The variables of local blocks are found before those of the base. -/
theorem flatten_overlay (locals base : List (Frame V)) :
    (overlay locals base).flatten = locals.flatten ++ base.flatten := by
  induction locals with
  | nil => rfl
  | cons own locals ih =>
    cases locals with
    | nil => cases base <;> simp [overlay]
    | cons next locals => simp [overlay, ih]

/-- A local variable is assigned before one of the base. -/
theorem assignIn_overlay {name : String} {value : V} (locals base : List (Frame V)) :
    assignIn name value (overlay locals base) =
      ((assignIn name value locals).map (overlay · base)).or
        ((assignIn name value base).map (overlay locals)) := by
  induction locals with
  | nil => simp [assignIn, overlay]
  | cons own locals ih =>
    cases locals with
    | nil =>
      cases base with
      | nil => simp [overlay, assignIn, Function.comp_def]
      | cons frame base =>
        simp [overlay, assignIn, Frame.assign_append, Option.map_or, Option.or_assoc,
          Function.comp_def]
    | cons next locals =>
      -- an assignment leaves the blocks, so the block above them stays an inner one
      have hinner : (assignIn name value (next :: locals)).map (own :: overlay · base) =
          (assignIn name value (next :: locals)).map fun outer => overlay (own :: outer) base := by
        cases hassign : assignIn name value (next :: locals) with
        | none => rfl
        | some outer =>
          have hshape := shape_assignIn hassign
          cases outer with
          | nil => simp [shape] at hshape
          | cons => rfl
      have hown : assignIn name value (own :: next :: locals) =
          ((own.assign name value).map (· :: next :: locals)).or
            ((assignIn name value (next :: locals)).map (own :: ·)) := rfl
      rw [overlay, assignIn, ih, hown]
      simp only [Option.map_or, Option.map_map, Function.comp_def, hinner, Option.or_assoc, overlay]

/-! ## Expressions -/

/-- What a name is read as: the value of the variable that it denotes.  Reading changes nothing. -/
theorem readName_eq (frames : List (Frame V)) (name : String) (globals : Frame V) :
    readName frames name globals =
      ((frames.flatten.lookup name).or (globals.lookup name)).elim (.error (.unbound name))
        fun slot => slot.elim (.error (.unset name)) fun value => .ok (value, globals) := by
  simp only [readName, bind, StateT.bind, get, getThe, MonadStateOf.get, StateT.get, Pure.pure,
    Except.pure, Except.bind]
  rcases (frames.flatten.lookup name).or (globals.lookup name) with _ | _ | value <;> rfl

/-- A name is read alike where it denotes the same variable. -/
theorem readName_congr {frames frames' : List (Frame V)} {name : String}
    (h : frames.flatten.lookup name = frames'.flatten.lookup name) :
    readName frames name = readName frames' name := by
  unfold readName
  rw [h]

/-- A function is called alike where its name denotes the same variable, or none. -/
theorem callName_congr {I : Meaning V} {frames frames' : List (Frame V)} {name : String}
    (h : frames.flatten.lookup name = frames'.flatten.lookup name) :
    callName I frames name = callName I frames' name := by
  funext args
  unfold callName
  rw [h]

mutual

/-- The value of an expression depends only on the variables that its free names denote. -/
theorem eval_congr (I : Meaning V) {frames frames' : List (Frame V)} (e : Expr)
    (h : ∀ x ∈ Scope.freeInExpr e, frames.flatten.lookup x = frames'.flatten.lookup x) :
    eval I frames e = eval I frames' e := by
  cases e with
  | ref name => exact readName_congr (h name (by simp [Scope.freeInExpr]))
  | call name args =>
    have hargs := evalEach_congr I args fun x hx => h x (by simp [Scope.freeInExpr, hx])
    have hname := callName_congr (I := I) (h name (by simp [Scope.freeInExpr]))
    simp only [eval, hargs, hname]
  | binary op lhs rhs =>
    have hlhs := eval_congr I lhs fun x hx => h x (by simp [Scope.freeInExpr, hx])
    have hrhs := eval_congr I rhs fun x hx => h x (by simp [Scope.freeInExpr, hx])
    simp only [eval, hlhs, hrhs]
  | field base name =>
    have hbase := eval_congr I base h
    simp only [eval, hbase]
  | index base position =>
    have hbase := eval_congr I base fun x hx => h x (by simp [Scope.freeInExpr, hx])
    have hposition := eval_congr I position fun x hx => h x (by simp [Scope.freeInExpr, hx])
    simp only [eval, hbase, hposition]
  | vec2 a b =>
    have ha := eval_congr I a fun x hx => h x (by simp [Scope.freeInExpr, hx])
    have hb := eval_congr I b fun x hx => h x (by simp [Scope.freeInExpr, hx])
    simp only [eval, ha, hb]
  | vec3 a b c =>
    have ha := eval_congr I a fun x hx => h x (by simp [Scope.freeInExpr, hx])
    have hb := eval_congr I b fun x hx => h x (by simp [Scope.freeInExpr, hx])
    have hc := eval_congr I c fun x hx => h x (by simp [Scope.freeInExpr, hx])
    simp only [eval, ha, hb, hc]
  | vec4 a b c d =>
    have ha := eval_congr I a fun x hx => h x (by simp [Scope.freeInExpr, hx])
    have hb := eval_congr I b fun x hx => h x (by simp [Scope.freeInExpr, hx])
    have hc := eval_congr I c fun x hx => h x (by simp [Scope.freeInExpr, hx])
    have hd := eval_congr I d fun x hx => h x (by simp [Scope.freeInExpr, hx])
    simp only [eval, ha, hb, hc, hd]
  | mat4 items | array items =>
    have hitems := evalEach_congr I items h
    simp only [eval, hitems]
  | _ => rfl

/-- The values of some expressions depend only on the variables that their free names denote. -/
theorem evalEach_congr (I : Meaning V) {frames frames' : List (Frame V)} (es : List Expr)
    (h : ∀ x ∈ Scope.freeInEach es, frames.flatten.lookup x = frames'.flatten.lookup x) :
    evalEach I frames es = evalEach I frames' es := by
  cases es with
  | nil => rfl
  | cons e es =>
    have hfirst := eval_congr I e fun x hx => h x (by simp [Scope.freeInEach, hx])
    have hrest := evalEach_congr I es fun x hx => h x (by simp [Scope.freeInEach, hx])
    simp only [evalEach, hfirst, hrest]

end

/-! ## Twins -/

/-- Two executions of the same statements: the blocks that the statements enter have the same
variables, over different ones around them, and the global variables are the same. -/
structure Twin (V : Type) where
  locals : List (Frame V)
  left : List (Frame V)
  right : List (Frame V)
  globals : Frame V

namespace Twin

/-- The memory of the first execution. -/
def first (t : Twin V) : Memory V :=
  ⟨overlay t.locals t.left, t.globals⟩

/-- The memory of the second execution. -/
def second (t : Twin V) : Memory V :=
  ⟨overlay t.locals t.right, t.globals⟩

/-- The names of the local variables. -/
def localNames (t : Twin V) : List String :=
  (shape t.locals).flatten

/-- Both executions are inside a block, and the shared names denote variables with the same values
around it. -/
structure Aligned (shared : String → Prop) (t : Twin V) : Prop where
  inside : t.locals ≠ []
  lookup : ∀ x, shared x → t.left.flatten.lookup x = t.right.flatten.lookup x

/-- Both executions see the same under a name: it is local or shared. -/
def Sees (shared : String → Prop) (t : Twin V) (x : String) : Prop :=
  x ∈ t.localNames ∨ shared x

/-- What statements do to two executions: they add variables to the innermost block and assign
others, but around the blocks only variables of shared names. -/
structure Leads (shared : String → Prop) (t t' : Twin V) : Prop where
  aligned : t'.Aligned shared
  locals : ∃ new own outer, shape t.locals = own :: outer ∧ shape t'.locals = (new ++ own) :: outer
  left : shape t'.left = shape t.left
  right : shape t'.right = shape t.right
  kept : ∀ x, ¬ shared x → t'.right.flatten.lookup x = t.right.flatten.lookup x

variable {shared : String → Prop} {t t' t'' : Twin V}

/-- Statements lead both executions to some memories; the name that they bind is local then. -/
def Reaches (shared : String → Prop) (binds : Option String) (t : Twin V) (m m' : Memory V) :
    Prop :=
  ∃ t', m = t'.first ∧ m' = t'.second ∧ t.Leads shared t' ∧ ∀ x, binds = some x → x ∈ t'.localNames

/-- A twin inside a block has an innermost block. -/
theorem Aligned.shape_eq (h : t.Aligned shared) : ∃ own outer, shape t.locals = own :: outer := by
  cases hlocals : t.locals with
  | nil => exact absurd hlocals h.inside
  | cons own outer => exact ⟨_, _, rfl⟩

/-- Statements may do nothing. -/
theorem Leads.refl (h : t.Aligned shared) : t.Leads shared t := by
  obtain ⟨own, outer, hshape⟩ := h.shape_eq
  exact ⟨h, ⟨[], own, outer, hshape, hshape⟩, rfl, rfl, fun _ _ => rfl⟩

/-- Statements follow one another. -/
theorem Leads.trans (h : t.Leads shared t') (h' : t'.Leads shared t'') : t.Leads shared t'' := by
  obtain ⟨new, own, outer, hshape, hgrown⟩ := h.locals
  obtain ⟨new', own', outer', hshape', hgrown'⟩ := h'.locals
  rw [hgrown, List.cons.injEq] at hshape'
  obtain ⟨rfl, rfl⟩ := hshape'
  refine ⟨h'.aligned, ⟨new' ++ new, own, outer, hshape, by simpa using hgrown'⟩,
    h'.left.trans h.left, h'.right.trans h.right, fun x hx => ?_⟩
  rw [h'.kept x hx, h.kept x hx]

/-- What is reached from a later twin is reached from an earlier one. -/
theorem Leads.reaches (h : t.Leads shared t') {binds : Option String} {m m' : Memory V}
    (hreaches : t'.Reaches shared binds m m') : t.Reaches shared binds m m' := by
  obtain ⟨t'', hfirst, hsecond, hleads, hbinds⟩ := hreaches
  exact ⟨t'', hfirst, hsecond, h.trans hleads, hbinds⟩

/-- What both executions see alike they see alike after more statements. -/
theorem Leads.sees (h : t.Leads shared t') {x : String} (hx : t.Sees shared x) :
    t'.Sees shared x := by
  obtain ⟨new, own, outer, hshape, hgrown⟩ := h.locals
  refine hx.imp_left fun hlocal => ?_
  rw [localNames, hshape] at hlocal
  rw [localNames, hgrown]
  simp only [List.flatten_cons, List.mem_append] at hlocal ⊢
  tauto

/-- A name is found exactly if it is the name of a variable. -/
theorem lookup_eq_none_iff {frames : List (Frame V)} {x : String} :
    frames.flatten.lookup x = none ↔ x ∉ (shape frames).flatten := by
  rw [shape, ← List.map_flatten, List.lookup_eq_none_iff]
  constructor
  · rintro hnone hx
    obtain ⟨pair, hpair, rfl⟩ := List.mem_map.mp hx
    simpa using hnone pair hpair
  · intro hx pair hpair
    have hne : x ≠ pair.1 := fun heq => hx (heq ▸ List.mem_map_of_mem hpair)
    simpa using hne

/-- Both executions see the same variable under a name that is local or shared. -/
theorem Aligned.lookup_eq (h : t.Aligned shared) {x : String} (hx : t.Sees shared x) :
    (overlay t.locals t.left).flatten.lookup x = (overlay t.locals t.right).flatten.lookup x := by
  rw [flatten_overlay, flatten_overlay, List.lookup_append, List.lookup_append]
  rcases hx with hlocal | hshared
  · have hfound : t.locals.flatten.lookup x ≠ none := by
      rw [Ne, lookup_eq_none_iff]
      simpa [localNames] using hlocal
    obtain ⟨value, hvalue⟩ := Option.ne_none_iff_exists'.mp hfound
    simp [hvalue]
  · rw [h.lookup x hshared]

/-- Both executions with other global variables. -/
def setGlobals (t : Twin V) (globals : Frame V) : Twin V :=
  { t with globals }

/-- Global variables stand apart from the blocks. -/
theorem Aligned.setGlobals (h : t.Aligned shared) (globals : Frame V) :
    t.Leads shared (t.setGlobals globals) := by
  obtain ⟨own, outer, hshape⟩ := h.shape_eq
  exact ⟨⟨h.inside, h.lookup⟩, ⟨[], own, outer, hshape, hshape⟩, rfl, rfl, fun _ _ => rfl⟩

/-- Both executions with one more local variable. -/
def bind (t : Twin V) (name : String) (value : Option V) : Twin V :=
  { t with locals := bindIn name value t.locals }

/-- A variable is bound in the innermost of the local blocks. -/
theorem bindIn_overlay {name : String} {value : Option V} {locals : List (Frame V)}
    (hinside : locals ≠ []) (base : List (Frame V)) :
    bindIn name value (overlay locals base) = overlay (bindIn name value locals) base := by
  match locals, base with
  | [], _ => exact absurd rfl hinside
  | [own], [] => rfl
  | [own], frame :: base => rfl
  | inner :: own :: locals, base => rfl

/-- Both executions bind a variable alike. -/
theorem Aligned.bind (h : t.Aligned shared) (name : String) (value : Option V) :
    (t.bind name value).first = t.first.bind name value ∧
      (t.bind name value).second = t.second.bind name value ∧
      t.Leads shared (t.bind name value) ∧ name ∈ (t.bind name value).localNames := by
  have hfirst := @bindIn_overlay _ name value _ h.inside t.left
  have hsecond := @bindIn_overlay _ name value _ h.inside t.right
  obtain ⟨own, outer, hshape⟩ := h.shape_eq
  have hgrown : shape (bindIn name value t.locals) = (name :: own) :: outer := by
    cases hlocals : t.locals with
    | nil => exact absurd hlocals h.inside
    | cons frame frames =>
      rw [hlocals, shape, List.map_cons, List.cons.injEq] at hshape
      simp [bindIn, shape, hshape]
  refine ⟨?_, ?_, ⟨⟨?_, h.lookup⟩, ?_, rfl, rfl, fun _ _ => rfl⟩, ?_⟩
  · simp only [first, Twin.bind, Memory.bind, hfirst]
  · simp only [second, Twin.bind, Memory.bind, hsecond]
  · intro hnone
    rw [show bindIn name value t.locals = [] from hnone] at hgrown
    cases hgrown
  · exact ⟨[name], own, outer, hshape, hgrown⟩
  · rw [localNames, Twin.bind, hgrown]
    simp

/-- Both executions assign alike the variable that a name denotes, or neither finds one. -/
theorem Aligned.assign (h : t.Aligned shared) {name : String} (hname : t.Sees shared name)
    (value : V) :
    Agree (t.Reaches shared none) (t.first.assign name value) (t.second.assign name value) := by
  unfold Memory.assign
  rw [first, second, assignIn_overlay, assignIn_overlay]
  obtain ⟨own, outer, hshape⟩ := h.shape_eq
  cases hlocal : assignIn name value t.locals with
  | some locals =>
    have hsame := shape_assignIn hlocal
    refine .ok ⟨{ t with locals }, rfl, rfl, ?_, by simp⟩
    refine ⟨⟨?_, h.lookup⟩, ?_, rfl, rfl, fun _ _ => rfl⟩
    · intro hnone
      rw [show locals = [] from hnone, hshape] at hsame
      cases hsame
    · exact ⟨[], own, outer, hshape, hsame.trans hshape⟩
  | none =>
    have hshared : shared name :=
      hname.resolve_left (lookup_eq_none_iff.mp (assignIn_eq_none_iff.mp hlocal))
    have hsame := h.lookup name hshared
    cases hleft : assignIn name value t.left with
    | some left =>
      cases hright : assignIn name value t.right with
      | none =>
        rw [assignIn_eq_none_iff, ← hsame, ← @assignIn_eq_none_iff _ _ value, hleft] at hright
        cases hright
      | some right =>
        refine .ok ⟨{ t with left, right }, rfl, rfl,
          ⟨⟨h.inside, fun x hx => ?_⟩, ?_, ?_, ?_, ?_⟩, by simp⟩
        · rw [lookup_assignIn hleft, lookup_assignIn hright, h.lookup x hx]
        · exact ⟨[], own, outer, hshape, hshape⟩
        · exact shape_assignIn hleft
        · exact shape_assignIn hright
        · intro x hx
          have hne : x ≠ name := fun heq => hx (heq ▸ hshared)
          rw [lookup_assignIn hright, if_neg hne]
    | none =>
      have hright : assignIn name value t.right = none := by
        rw [assignIn_eq_none_iff, ← hsame, ← @assignIn_eq_none_iff _ _ value, hleft]
      rw [hright]
      simp only [Option.map_none, Option.or_none]
      cases t.globals.assign name value with
      | none => exact .error _
      | some globals => exact .ok ⟨t.setGlobals globals, rfl, rfl, h.setGlobals globals, by simp⟩

/-- Both executions in a further block, which starts with some variables. -/
def enterWith (t : Twin V) (frame : Frame V) : Twin V :=
  { t with locals := frame :: t.locals }

/-- Both executions enter a block alike. -/
theorem Aligned.enterWith (h : t.Aligned shared) (frame : Frame V) :
    (t.enterWith frame).first = ⟨frame :: t.first.frames, t.first.globals⟩ ∧
      (t.enterWith frame).second = ⟨frame :: t.second.frames, t.second.globals⟩ ∧
      (t.enterWith frame).Aligned shared := by
  have hoverlay : ∀ base, overlay (frame :: t.locals) base = frame :: overlay t.locals base := by
    intro base
    cases hlocals : t.locals with
    | nil => exact absurd hlocals h.inside
    | cons => rfl
  refine ⟨?_, ?_, ⟨by simp [Twin.enterWith], h.lookup⟩⟩
  · simp only [Twin.enterWith, first, hoverlay]
  · simp only [Twin.enterWith, second, hoverlay]

/-- Both executions leave a block alike. -/
theorem Leads.leave {frame : Frame V} (hleads : (t.enterWith frame).Leads shared t')
    (h : t.Aligned shared) :
    ∃ t'', t''.first = t'.first.leave ∧ t''.second = t'.second.leave ∧ t.Leads shared t'' := by
  obtain ⟨own, outer, hshape⟩ := h.shape_eq
  obtain ⟨new, own', outer', hbefore, hafter⟩ := hleads.locals
  have henter : shape (t.enterWith frame).locals = frame.map Prod.fst :: shape t.locals := rfl
  rw [henter, List.cons.injEq] at hbefore
  obtain ⟨rfl, rfl⟩ := hbefore
  -- the block that is left is the innermost one, and those around it have kept their names
  match hlocals : t'.locals with
  | [] => simp [hlocals, shape] at hafter
  | [last] =>
    have hnone : t.locals = [] := by
      simp only [hlocals, shape, List.map_cons, List.map_nil, List.cons.injEq] at hafter
      simpa using hafter.2
    exact absurd hnone h.inside
  | last :: next :: rest =>
    have hinner : shape t'.locals = last.map Prod.fst :: shape (next :: rest) := by
      rw [hlocals]
      rfl
    rw [hinner, List.cons.injEq] at hafter
    refine ⟨{ t' with locals := next :: rest }, ?_, ?_, ⟨⟨by simp, hleads.aligned.lookup⟩,
      ⟨[], own, outer, hshape, hafter.2.trans hshape⟩, hleads.left, hleads.right, hleads.kept⟩⟩
    · simp only [first, Memory.leave, hlocals, overlay, List.tail_cons]
    · simp only [second, Memory.leave, hlocals, overlay, List.tail_cons]

end Twin

/-! ## Statements that run alike -/

/-- Statements run alike in both executions, if these see the same under some names: both get stuck
for the same cause, or both go on. -/
def Alike (shared : String → Prop) (names : List String) (binds : Option String)
    (step : Memory V → Except Stuck (Memory V)) : Prop :=
  ∀ t : Twin V, t.Aligned shared → (∀ x ∈ names, t.Sees shared x) →
    Agree (t.Reaches shared binds) (step t.first) (step t.second)

/-- A test runs alike in both executions, if these see the same under some names: both get stuck for
the same cause, or both decide alike. -/
def TestAlike (shared : String → Prop) (names : List String)
    (test : Memory V → Except Stuck (Bool × Memory V)) : Prop :=
  ∀ t : Twin V, t.Aligned shared → (∀ x ∈ names, t.Sees shared x) →
    Agree (fun tested tested' => tested.1 = tested'.1 ∧ t.Reaches shared none tested.2 tested'.2)
      (test t.first) (test t.second)

section Alike

variable {shared : String → Prop} {names : List String}

/-- Both executions give an expression the same value and go on with the same global variables, or
neither gives it one. -/
theorem evalThen_agree {α : Type} {r : α → α → Prop} {I : Meaning V} {e : Expr} {t : Twin V}
    {next : V → Memory V → Except Stuck α} (h : t.Aligned shared)
    (hsees : ∀ x ∈ Scope.freeInExpr e, t.Sees shared x)
    (hnext : ∀ value globals, Agree r (next value (t.setGlobals globals).first)
      (next value (t.setGlobals globals).second)) :
    Agree r (evalThen I e t.first next) (evalThen I e t.second next) := by
  have hsame : eval I t.first.frames e = eval I t.second.frames e :=
    eval_congr I e fun x hx => h.lookup_eq (hsees x hx)
  have hvalue : Agree Eq (eval I t.first.frames e t.first.globals)
      (eval I t.second.frames e t.second.globals) := by
    rw [hsame]
    exact .refl _
  refine hvalue.bind ?_
  rintro ⟨value, globals⟩ _ rfl
  exact hnext value globals

/-- What follows an evaluation runs alike if it does so for every value. -/
theorem Alike.evalThen (names : List String) {I : Meaning V} {e : Expr} {binds : Option String}
    {next : V → Memory V → Except Stuck (Memory V)}
    (hnext : ∀ value, Alike shared names binds (next value)) :
    Alike shared (Scope.freeInExpr e ++ names) binds fun m => evalThen I e m next := by
  intro t h hsees
  refine evalThen_agree h (fun x hx => hsees x (List.mem_append_left _ hx)) fun value globals => ?_
  have hglobals := h.setGlobals globals
  refine (hnext value _ hglobals.aligned fun x hx => ?_).mono fun _ _ => hglobals.reaches
  exact hglobals.sees (hsees x (List.mem_append_right _ hx))

/-- A binding runs alike. -/
theorem Alike.bind (name : String) (value : Option V) :
    Alike shared [] (some name) fun m => .ok (m.bind name value) := by
  intro t h hsees
  obtain ⟨hfirst, hsecond, hleads, hlocal⟩ := h.bind name value
  refine .ok ⟨t.bind name value, hfirst.symm, hsecond.symm, hleads, ?_⟩
  rintro x ⟨⟩
  exact hlocal

/-- An assignment runs alike. -/
theorem Alike.assign (name : String) (value : V) :
    Alike shared [name] none fun m => m.assign name value :=
  fun _ h hsees => h.assign (hsees name (by simp)) value

/-- Doing nothing runs alike. -/
theorem Alike.nothing : Alike (V := V) shared names none fun m => .ok m :=
  fun t h _ => .ok ⟨t, rfl, rfl, Twin.Leads.refl h, by simp⟩

/-- More names may be seen than are needed. -/
theorem Alike.mono {more : List String} {binds : Option String}
    {step : Memory V → Except Stuck (Memory V)} (h : Alike shared names binds step)
    (hsub : ∀ x ∈ names, x ∈ more) : Alike shared more binds step :=
  fun t ht hsees => h t ht fun x hx => hsees x (hsub x hx)

/-- Statements that run alike do so in a block of their own, which starts with some variables. -/
theorem Alike.nested {body : Memory V → Except Stuck (Memory V)}
    (hbody : Alike shared names none body) (frame : Frame V) :
    Alike shared (names.filter (· ∉ frame.map Prod.fst)) none fun m =>
      (body ⟨frame :: m.frames, m.globals⟩).map Memory.leave := by
  intro t h hsees
  obtain ⟨hfirst, hsecond, hinside⟩ := h.enterWith frame
  have hnames : ∀ x ∈ names, (t.enterWith frame).Sees shared x := by
    intro x hx
    by_cases hframe : x ∈ frame.map Prod.fst
    · exact Or.inl (List.mem_append_left _ hframe)
    · have hx := hsees x (List.mem_filter.mpr ⟨hx, by simpa using hframe⟩)
      exact hx.imp_left (List.mem_append_right _)
  have hinner := hbody (t.enterWith frame) hinside hnames
  rw [hfirst, hsecond] at hinner
  refine hinner.map ?_
  rintro _ _ ⟨t', rfl, rfl, hleads, -⟩
  obtain ⟨t'', hfirst', hsecond', hleads'⟩ := hleads.leave h
  exact ⟨t'', hfirst'.symm, hsecond'.symm, hleads', by simp⟩

/-- Statements that run alike do so one after the other; what the first binds the others see. -/
theorem Alike.seq {first rest : Memory V → Except Stuck (Memory V)} {more : List String}
    {binds : Option String} (hfirst : Alike shared names binds first)
    (hrest : Alike shared more none rest) :
    Alike shared (names ++ more.filter (binds ≠ some ·)) none fun m => first m >>= rest := by
  intro t h hsees
  refine (hfirst t h fun x hx => hsees x (List.mem_append_left _ hx)).bind ?_
  rintro _ _ ⟨t', rfl, rfl, hleads, hbinds⟩
  refine (hrest t' hleads.aligned fun x hx => ?_).mono fun _ _ => hleads.reaches
  by_cases hbound : binds = some x
  · exact Or.inl (hbinds x hbound)
  · exact hleads.sees (hsees x (List.mem_append_right _
      (List.mem_filter.mpr ⟨hx, by simpa using hbound⟩)))

/-- A loop runs alike if its test and its rounds do. -/
theorem Alike.rounds {enters : Nat → Memory V → Except Stuck (Bool × Memory V)}
    {body : Nat → Memory V → Except Stuck (Memory V)}
    (henters : ∀ round, TestAlike shared names (enters round))
    (hbody : ∀ round, Alike shared names none (body round)) (fuel round : Nat) :
    Alike shared names none (rounds enters body fuel round) := by
  induction fuel generalizing round with
  | zero => exact Alike.nothing
  | succ fuel ih =>
    intro t h hsees
    refine (henters round t h hsees).bind ?_
    rintro ⟨more, _⟩ ⟨_, _⟩ ⟨rfl, t', rfl, rfl, hleads, -⟩
    cases more with
    | false => exact .ok ⟨t', rfl, rfl, hleads, by simp⟩
    | true =>
      have hround := (hbody round).seq (ih (round + 1))
      refine (hround t' hleads.aligned fun x hx => ?_).mono fun _ _ => hleads.reaches
      exact hleads.sees (hsees x (by simpa using hx))

/-- Where no step is possible there is nothing to do alike. -/
theorem Alike.stuck {binds : Option String} (cause : Stuck) :
    Alike (V := V) shared names binds fun _ => .error cause :=
  fun _ _ _ => .error cause

/-- The test before a round runs alike. -/
theorem entersRound_alike (I : Meaning V) (bound : Expr) (round : Nat) :
    TestAlike shared (Scope.freeInExpr bound) (entersRound I bound round) := by
  intro t h hsees
  refine evalThen_agree h hsees fun value globals => ?_
  cases I.enters round value with
  | none => exact .error _
  | some more => exact .ok ⟨rfl, t.setGlobals globals, rfl, rfl, h.setGlobals globals, by simp⟩

mutual

/-- A statement runs alike where both executions see the same under its free names. -/
theorem exec_alike (I : Meaning V) (shared : String → Prop) (e : Expr) :
    Alike shared (Scope.freeInStmt e) e.binds? (exec I e) := by
  cases e with
  | mutable ty name value | constant ty name value =>
    simp only [exec]
    exact (Alike.evalThen [] fun v => Alike.bind name (some v)).mono (by simp [Scope.freeInStmt])
  | uninit ty name =>
    simp only [exec]
    exact Alike.bind name none
  | update name value | output name value =>
    simp only [exec]
    exact (Alike.evalThen [name] fun v => Alike.assign name v).mono
      (by simp [Scope.freeInStmt, Scope.freeInExpr, or_comm])
  | branch cond yes no =>
    simp only [exec]
    have hyes := (execBlock_alike I shared yes).nested []
    have hno := (execBlock_alike I shared no).nested []
    refine Alike.mono (Alike.evalThen (Scope.freeInBlock yes ++ Scope.freeInBlock no)
      fun value => ?_) (by simp [Scope.freeInStmt, Scope.freeInExpr])
    cases I.truth value with
    | none => exact Alike.stuck .undefined
    | some truth =>
      cases truth with
      | true => exact hyes.mono (by simp +contextual)
      | false => exact hno.mono (by simp +contextual)
  | loop bound counter body =>
    simp only [exec]
    refine Alike.rounds (fun round t h hsees => ?_) (fun round => ?_) I.ceiling 0
    · exact entersRound_alike I bound round t h fun x hx =>
        hsees x (by simp [Scope.freeInStmt, Scope.freeInExpr, hx])
    · cases counter with
      | none =>
        refine ((execBlock_alike I shared body).nested []).mono ?_
        simp +contextual [Scope.freeInStmt, Scope.freeInExpr]
      | some name =>
        refine ((execBlock_alike I shared body).nested [(name, some (I.counter round))]).mono ?_
        simp +contextual [Scope.freeInStmt, Scope.freeInExpr, Ne.symm]
  | scope body =>
    simp only [exec]
    refine ((execBlock_alike I shared body).nested []).mono ?_
    simp [Scope.freeInStmt, Scope.freeInExpr]
  | call name args =>
    simp only [exec]
    exact (Alike.evalThen [] fun value => Alike.nothing).mono
      (by simp [Scope.freeInStmt])
  | lineComment text | blockComment text | done =>
    simp only [exec]
    exact Alike.nothing
  | _ =>
    simp only [exec]
    exact Alike.stuck .undefined

/-- A block runs alike where both executions see the same under its free names. -/
theorem execBlock_alike (I : Meaning V) (shared : String → Prop) (es : List Expr) :
    Alike shared (Scope.freeInBlock es) none (execBlock I es) := by
  cases es with
  | nil =>
    simp only [execBlock]
    exact Alike.nothing
  | cons e es =>
    simp only [execBlock]
    refine ((exec_alike I shared e).seq (execBlock_alike I shared es)).mono fun x hx => ?_
    rw [Scope.mem_freeInBlock_cons]
    simpa using hx

end

end Alike

/-! ## Bodies over different variables -/

/-- What a body does to the variables around it in two executions: it keeps their names, it leaves
the shared names with the same values, and around the second execution it changes no others. -/
structure Around (shared : String → Prop) (left right left' right' : List (Frame V)) : Prop where
  shapeLeft : shape left' = shape left
  shapeRight : shape right' = shape right
  lookup : ∀ x, shared x → left'.flatten.lookup x = right'.flatten.lookup x
  kept : ∀ x, ¬ shared x → right'.flatten.lookup x = right.flatten.lookup x

section Body

variable {I : Meaning V} {shared : String → Prop} {body : List Expr}

/-- A body runs alike over different variables, where its free names denote the same values.  It
binds the same local variables. -/
theorem execBlock_agree (left right : List (Frame V)) (globals : Frame V)
    (hfree : ∀ x ∈ Scope.freeInBlock body, shared x)
    (hsame : ∀ x, shared x → left.flatten.lookup x = right.flatten.lookup x) :
    Agree (fun m m' => ∃ locals left' right' globals', m = ⟨overlay [locals] left', globals'⟩ ∧
        m' = ⟨overlay [locals] right', globals'⟩ ∧ Around shared left right left' right')
      (execBlock I body ⟨overlay [[]] left, globals⟩)
      (execBlock I body ⟨overlay [[]] right, globals⟩) := by
  let t : Twin V := ⟨[[]], left, right, globals⟩
  have haligned : t.Aligned shared := ⟨by simp [t], hsame⟩
  refine (execBlock_alike I shared body t haligned fun x hx => Or.inr (hfree x hx)).mono ?_
  rintro _ _ ⟨t', rfl, rfl, hleads, -⟩
  -- every block that the body enters is left, so there is one local block as before
  obtain ⟨new, own, outer, hbefore, hafter⟩ := hleads.locals
  obtain ⟨-, rfl⟩ := List.cons.inj hbefore
  obtain ⟨locals, hlocals, -⟩ := List.map_eq_singleton_iff.mp hafter
  refine ⟨locals, t'.left, t'.right, t'.globals, ?_, ?_,
    hleads.left, hleads.right, hleads.aligned.lookup, hleads.kept⟩
  · rw [Twin.first, hlocals]
  · rw [Twin.second, hlocals]

/-- A block runs alike over different variables, where its free names denote the same values. -/
theorem exec_scope_agree {left right : List (Frame V)} (globals : Frame V)
    (hfree : ∀ x ∈ Scope.freeInBlock body, shared x)
    (hsame : ∀ x, shared x → left.flatten.lookup x = right.flatten.lookup x) :
    Agree (fun m m' => ∃ left' right' globals', m = ⟨left', globals'⟩ ∧ m' = ⟨right', globals'⟩ ∧
        Around shared left right left' right')
      (exec I (.scope body) ⟨left, globals⟩) (exec I (.scope body) ⟨right, globals⟩) := by
  rw [exec, exec]
  refine (execBlock_agree ([] :: left) ([] :: right) globals hfree (by simpa using hsame)).map ?_
  rintro _ _ ⟨locals, left', right', globals', rfl, rfl, haround⟩
  obtain ⟨first, left', rfl, hfirst, hleft⟩ := exists_of_shape_cons haround.shapeLeft
  obtain ⟨second, right', rfl, hsecond, hright⟩ := exists_of_shape_cons haround.shapeRight
  obtain rfl := List.map_eq_nil_iff.mp hfirst
  obtain rfl := List.map_eq_nil_iff.mp hsecond
  exact ⟨left', right', globals', rfl, rfl, hleft, hright, haround.lookup, haround.kept⟩

/-- A body that runs over some variables runs alike in an inner block, where its free names denote
variables of the same values.  Afterwards the shared names again denote variables of the same
values, and around the body the other names denote what they did before. -/
theorem execBlock_inner {own inner outer globals : Frame V} {m : Memory V}
    (hfree : ∀ x ∈ Scope.freeInBlock body, shared x)
    (hsame : ∀ x, shared x → own.lookup x = (inner ++ outer).lookup x)
    (hrun : execBlock I body ⟨[own], globals⟩ = .ok m) :
    ∃ locals own' inner' outer' : Frame V, m.frames = [locals ++ own'] ∧
      execBlock I body ⟨[inner, outer], globals⟩ = .ok ⟨[locals ++ inner', outer'], m.globals⟩ ∧
      own'.map Prod.fst = own.map Prod.fst ∧ inner'.map Prod.fst = inner.map Prod.fst ∧
      outer'.map Prod.fst = outer.map Prod.fst ∧
      (∀ x, shared x → own'.lookup x = (inner' ++ outer').lookup x) ∧
      ∀ x, ¬ shared x → (inner' ++ outer').lookup x = (inner ++ outer).lookup x := by
  obtain ⟨_, hrun', locals, left, right, after, rfl, rfl, haround⟩ :=
    (execBlock_agree [own] [inner, outer] globals hfree (by simpa using hsame)).exists_of_ok hrun
  obtain ⟨own', rfl, hown⟩ := exists_of_shape_singleton haround.shapeLeft
  obtain ⟨inner', right, rfl, hinner, hright⟩ := exists_of_shape_cons haround.shapeRight
  obtain ⟨outer', rfl, houter⟩ := exists_of_shape_singleton hright
  refine ⟨locals, own', inner', outer', rfl, hrun', hown, hinner, houter, ?_, ?_⟩
  · simpa using haround.lookup
  · simpa using haround.kept

end Body

end Execution

end ShaderLang
