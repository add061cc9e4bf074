import ShaderLang.Command
import ShaderLang.Proofs.Files
import ShaderLang.Proofs.Wording

/-!
# What commands leave

A command writes everything or nothing.  All texts are generated before the first step is taken, so
a command that fails for its source leaves the disk as it was and prints nothing.  A command that
generates into a folder leaves two files for each wanted program; of two programs of one name the
later one counts.

Main results:

- Theorem `programs_eq_ok_iff`: texts are generated exactly if no program is refused.
- Theorem `plan_eq_error_iff`: a plan is a failure exactly if the command fails for its source.
- Theorem `steps_save` and `steps_refused`: what the steps for some programs do.
- Theorem `run_all_or_nothing`: what a command leaves.
-/

namespace ShaderLang

/-! ## Chosen programs -/

/-- A name is chosen: all are, or it is the one. -/
def Chosen (only : Option String) (name : String) : Prop :=
  ∀ wanted ∈ only, name = wanted

/-- A program is the last one of its name. -/
def Module.IsLast (m : Module) (name : String) (program : Program) : Prop :=
  ∃ before after, m.programs = before ++ (name, program) :: after ∧ ∀ entry ∈ after, entry.1 ≠ name

namespace Target

/-- The wanted programs are those whose names are wanted. -/
theorem mem_selected_iff {m : Module} {only : Option String} {entry : String × Program} :
    entry ∈ selected m only ↔ entry ∈ m.programs ∧ Chosen only entry.1 := by
  cases only with
  | none => simp [selected, Chosen]
  | some name => simp [selected, Chosen]

/-- The texts of a program, if it is not refused. -/
def textOf (functions : List Func) (program : Program) : ProgramText :=
  match Target.program functions program with
  | .ok text => text
  | .error _ => ⟨"", ""⟩

/-- Texts are generated exactly if no program is refused, one for each program. -/
theorem programs_eq_ok_iff {functions : List Func} {entries : List (String × Program)}
    {texts : List (String × ProgramText)} :
    programs functions entries = .ok texts ↔
      (∀ entry ∈ entries, program functions entry.2 = .ok (textOf functions entry.2)) ∧
        texts = entries.map fun entry => (entry.1, textOf functions entry.2) := by
  induction entries generalizing texts with
  | nil => simp [programs, eq_comm]
  | cons entry rest ih =>
    rw [programs, bind_eq_ok, List.forall_mem_cons, List.map_cons]
    constructor
    · rintro ⟨text, htext, hrest⟩
      rcases bind_eq_ok.mp hrest with ⟨more, hmore, heq⟩
      cases heq
      rcases ih.mp hmore with ⟨hothers, rfl⟩
      have hfirst : textOf functions entry.2 = text := by rw [textOf, htext]
      rw [hfirst]
      exact ⟨⟨htext, hothers⟩, rfl⟩
    · rintro ⟨⟨hfirst, hrest⟩, rfl⟩
      exact ⟨_, hfirst, bind_eq_ok.mpr ⟨_, ih.mpr ⟨hrest, rfl⟩, rfl⟩⟩

end Target

namespace Command

open Target

/-! ## Failures -/

/-- Why a command fails before it takes any step, as far as the text of its source file tells. -/
inductive Fails (command : Command) (text : String) : Prop where
  /-- The source does not load. -/
  | unloaded (hload : (load [] text.toList).module = none)
  /-- A wanted program cannot be generated. -/
  | refused {m : Module} {folder only : Option String} {entry : String × Program}
      {refusal : Refusal} (hload : (load [] text.toList).module = some m)
      (htask : command.task = .generate folder only) (hentry : entry ∈ m.programs)
      (hchosen : Chosen only entry.1) (hrefused : program m.functions entry.2 = .error refusal)
  /-- No program has the wanted name. -/
  | missing {m : Module} {folder : Option String} {name : String}
      (hload : (load [] text.toList).module = some m)
      (htask : command.task = .generate folder (some name))
      (hnone : ∀ entry ∈ m.programs, entry.1 ≠ name)

section Plans

variable {command : Command} {text : String} {m : Module} {folder only : Option String}

/-- A command that generates takes steps exactly if no chosen program is refused and a program is
chosen if one is named. -/
theorem steps_eq_ok_iff (htask : command.task = .generate folder only) {taken : List Step} :
    command.steps m = .ok taken ↔
      (∀ entry ∈ selected m only, program m.functions entry.2 = .ok (textOf m.functions entry.2)) ∧
        (only.isSome → selected m only ≠ []) ∧
        taken = (selected m only).flatMap fun entry =>
          programSteps folder entry.1 (textOf m.functions entry.2) := by
  unfold Command.steps
  rw [htask]
  cases hgenerate : generate m only with
  | error refusal =>
    refine iff_of_false (by simp [hgenerate]) ?_
    rintro ⟨htexts, -⟩
    have hok : generate m only = .ok _ := programs_eq_ok_iff.mpr ⟨htexts, rfl⟩
    rw [hgenerate] at hok
    cases hok
  | ok texts =>
    rcases programs_eq_ok_iff.mp hgenerate with ⟨htexts, rfl⟩
    have hsteps : ∀ steps : List Step, (Except.ok steps : Except String _) = .ok taken ↔
        taken = steps := fun steps => ⟨fun h => (Except.ok.inj h).symm, fun h => h ▸ rfl⟩
    simp only [hgenerate, and_iff_right htexts]
    cases only with
    | none => simp [hsteps, List.flatMap_map]
    | some name =>
      cases hselected : selected m (some name) with
      | nil => simp
      | cons entry rest => simp [hsteps, List.flatMap_map]

/-- A command that generates fails for a source that loads if a chosen program is refused, or if
none is chosen although one is named. -/
theorem fails_iff (hload : (load [] text.toList).module = some m)
    (htask : command.task = .generate folder only) :
    command.Fails text ↔
      ¬ ((∀ entry ∈ selected m only,
          program m.functions entry.2 = .ok (textOf m.functions entry.2)) ∧
        (only.isSome → selected m only ≠ [])) := by
  constructor
  · rintro (hnone | ⟨hload', htask', hentry, hchosen, hrefused⟩ | ⟨hload', htask', hnone⟩)
      ⟨htexts, hsome⟩
    · rw [hload] at hnone
      cases hnone
    · rw [hload] at hload'
      rw [htask] at htask'
      cases hload'
      cases htask'
      have htext := htexts _ (mem_selected_iff.mpr ⟨hentry, hchosen⟩)
      rw [hrefused] at htext
      cases htext
    · rw [hload] at hload'
      rw [htask] at htask'
      cases hload'
      cases htask'
      rcases List.exists_mem_of_ne_nil _ (hsome rfl) with ⟨entry, hentry⟩
      rcases mem_selected_iff.mp hentry with ⟨hmem, hchosen⟩
      exact hnone entry hmem (hchosen _ rfl)
  · intro hnot
    by_contra hfails
    refine hnot ⟨fun entry hentry => ?_, fun hsome hnil => ?_⟩
    · rcases mem_selected_iff.mp hentry with ⟨hmem, hchosen⟩
      cases hprogram : program m.functions entry.2 with
      | error refusal => exact (hfails (.refused hload htask hmem hchosen hprogram)).elim
      | ok text => rw [textOf, hprogram]
    · rcases Option.isSome_iff_exists.mp hsome with ⟨name, rfl⟩
      refine hfails (.missing hload htask fun entry hmem hname => ?_)
      have hentry : entry ∈ selected m (some name) :=
        mem_selected_iff.mpr ⟨hmem, fun wanted hwanted => hname.trans (Option.some.inj hwanted)⟩
      rw [hnil] at hentry
      cases hentry

/-- The plan for a source that loads has the steps for its module. -/
theorem outcome_plan (hload : (load [] text.toList).module = some m) :
    (command.plan text).outcome = command.steps m := by
  simp only [plan, hload]

/-- The plan for a source is a failure exactly if the command fails for it. -/
theorem plan_eq_error_iff :
    (∃ message, (command.plan text).outcome = .error message) ↔ command.Fails text := by
  cases hload : (load [] text.toList).module with
  | none =>
    have houtcome : ∃ message, (command.plan text).outcome = .error message := by
      simp only [plan, hload]
      exact ⟨_, rfl⟩
    exact iff_of_true houtcome (.unloaded hload)
  | some m =>
    rw [outcome_plan hload]
    cases htask : command.task with
    | check =>
      refine iff_of_false (by simp [Command.steps, htask]) ?_
      rintro (hnone | ⟨-, hgenerate, -, -, -⟩ | ⟨-, hgenerate, -⟩)
      · rw [hload] at hnone
        cases hnone
      · rw [htask] at hgenerate
        cases hgenerate
      · rw [htask] at hgenerate
        cases hgenerate
    | generate folder only =>
      rw [fails_iff hload htask]
      constructor
      · rintro ⟨message, hmessage⟩ ⟨htexts, hsome⟩
        rw [(steps_eq_ok_iff htask).mpr ⟨htexts, hsome, rfl⟩] at hmessage
        cases hmessage
      · intro hnot
        cases hsteps : command.steps m with
        | error message => exact ⟨message, rfl⟩
        | ok taken =>
          rcases (steps_eq_ok_iff htask).mp hsteps with ⟨htexts, hsome, -⟩
          exact (hnot ⟨htexts, hsome⟩).elim

end Plans

/-! ## Steps -/

namespace Result

/-- Reporting diagnostics changes neither the output nor the disk. -/
theorem foldl_report (result : Result) (reports : List String) :
    (reports.foldl report result).failed = result.failed ∧
      (reports.foldl report result).output = result.output ∧
      (reports.foldl report result).disk = result.disk := by
  induction reports generalizing result with
  | nil => exact ⟨rfl, rfl, rfl⟩
  | cons line rest ih => exact ih (result.report line)

/-- Printing neither fails nor changes the disk. -/
theorem steps_print (result : Result) {taken : List Step}
    (h : ∀ step ∈ taken, ∃ text, step = .print text) :
    (result.steps taken).failed = result.failed ∧ (result.steps taken).disk = result.disk := by
  induction taken generalizing result with
  | nil => exact ⟨rfl, rfl⟩
  | cons first rest ih =>
    rw [List.forall_mem_cons] at h
    rcases h with ⟨⟨text, rfl⟩, hrest⟩
    exact ih { result with output := result.output ++ text } hrest

theorem steps_makeFolders {result : Result} {path : String} {rest : List Step} {disk : Disk}
    (h : result.disk.makeFolders path = .ok disk) :
    result.steps (.makeFolders path :: rest) = { result with disk }.steps rest := by
  rw [steps, step, h]
  rfl

theorem steps_write {result : Result} {path text : String} {rest : List Step} {disk : Disk}
    (h : result.disk.write path text = .ok disk) :
    result.steps (.write path text :: rest) = { result with disk }.steps rest := by
  rw [steps, step, h]
  rfl

theorem failed_steps_write {result : Result} {path text : String} {rest : List Step}
    {error : DiskError} (h : result.disk.write path text = .error error) :
    (result.steps (.write path text :: rest)).failed = true := by
  rw [steps, step, h]
  rfl

theorem failed_steps_makeFolders {result : Result} {path : String} {rest : List Step}
    {error : DiskError} (h : result.disk.makeFolders path = .error error) :
    (result.steps (.makeFolders path :: rest)).failed = true := by
  rw [steps, step, h]
  rfl

end Result

/-- The files of a program, with their texts. -/
def filesOf (functions : List Func) (entry : String × Program) : List (String × String) :=
  [(entry.1 ++ ".vert", (textOf functions entry.2).vertex),
    (entry.1 ++ ".frag", (textOf functions entry.2).fragment)]

/-- The steps that write the files of some programs into a folder. -/
def savingSteps (folder : String) (functions : List Func) (entries : List (String × Program)) :
    List Step :=
  entries.flatMap fun entry => programSteps (some folder) entry.1 (textOf functions entry.2)

/-- The name of a program makes the name of a file. -/
theorem isFileName_append {name ending : String} (hname : '/' ∉ name.toList)
    (hending : '/' ∉ ending.toList) (hlength : 2 < ending.toList.length) :
    Disk.IsFileName (name ++ ending) := by
  have hlong : 2 < (name ++ ending).toList.length := by
    rw [String.toList_append, List.length_append]
    omega
  refine ⟨fun hnil => ?_, by simp [hname, hending], ?_, ?_⟩
  · simp [hnil] at hlong
  · intro hpoint
    rw [hpoint] at hlong
    exact absurd hlong (by decide)
  · intro hpoints
    rw [hpoints] at hlong
    exact absurd hlong (by decide)

/-- The names of the files of a program. -/
theorem isFileName_of_program {name : String} (hname : '/' ∉ name.toList) :
    Disk.IsFileName (name ++ ".vert") ∧ Disk.IsFileName (name ++ ".frag") :=
  ⟨isFileName_append hname (by decide) (by decide), isFileName_append hname (by decide) (by decide)⟩

section Saving

variable {before : Disk} {folder : String} {functions : List Func}
  {entries : List (String × Program)} {result : Result} {files : List (String × String)}

/-- The files of programs are saved if they are accepted. -/
theorem steps_save (hsaved : before.Saved folder files result.disk)
    (hfiles : ∀ file ∈ files, before.Accepts folder file.1)
    (hnames : ∀ entry ∈ entries, '/' ∉ entry.1.toList)
    (haccepts : ∀ file ∈ entries.flatMap (filesOf functions), before.Accepts folder file.1) :
    ∃ disk, result.steps (savingSteps folder functions entries) = { result with disk } ∧
      before.Saved folder (files ++ entries.flatMap (filesOf functions)) disk := by
  induction entries generalizing result files with
  | nil => exact ⟨result.disk, rfl, by simpa using hsaved⟩
  | cons entry rest ih =>
    rw [List.forall_mem_cons] at hnames
    rw [List.flatMap_cons, List.forall_mem_append] at haccepts
    rcases haccepts with ⟨hown, hothers⟩
    rw [filesOf, List.forall_mem_cons, List.forall_mem_singleton] at hown
    rcases isFileName_of_program hnames.1 with ⟨hvertex, hfragment⟩
    rcases hsaved.write hfiles hvertex hown.1 (textOf functions entry.2).vertex with
      ⟨first, hfirst, hsavedFirst⟩
    have hfilesFirst := Disk.accepts_append hfiles hown.1 (textOf functions entry.2).vertex
    rcases hsavedFirst.write hfilesFirst hfragment hown.2 (textOf functions entry.2).fragment with
      ⟨second, hsecond, hsavedSecond⟩
    rcases @ih { result with disk := second } _ hsavedSecond
      (Disk.accepts_append hfilesFirst hown.2 _) hnames.2 hothers with
      ⟨disk, hsteps, hsavedRest⟩
    refine ⟨disk, ?_, ?_⟩
    · rw [savingSteps, List.flatMap_cons, programSteps, List.cons_append,
        Result.steps_makeFolders (hsaved.hasFolder hfiles).makeFolders_eq, List.cons_append,
        Result.steps_write hfirst, List.cons_append, Result.steps_write hsecond]
      exact hsteps
    · simpa [filesOf] using hsavedRest

/-- The steps for some programs fail if one of their files is not accepted. -/
theorem failed_steps (hsaved : before.Saved folder files result.disk)
    (hfiles : ∀ file ∈ files, before.Accepts folder file.1) (hclear : before.IsClear folder)
    (hnames : ∀ entry ∈ entries, '/' ∉ entry.1.toList)
    (hrefused : ¬ ∀ file ∈ entries.flatMap (filesOf functions), before.Accepts folder file.1) :
    (result.steps (savingSteps folder functions entries)).failed = true := by
  induction entries generalizing result files with
  | nil => simp at hrefused
  | cons entry rest ih =>
    rw [List.forall_mem_cons] at hnames
    rw [savingSteps, List.flatMap_cons, programSteps, List.cons_append,
      Result.steps_makeFolders (hsaved.hasFolder hfiles).makeFolders_eq, List.cons_append]
    rcases isFileName_of_program hnames.1 with ⟨hvertex, hfragment⟩
    by_cases hfirst : before.Accepts folder (entry.1 ++ ".vert")
    · rcases hsaved.write hfiles hvertex hfirst (textOf functions entry.2).vertex with
        ⟨first, hwrite, hsavedFirst⟩
      have hfilesFirst := Disk.accepts_append hfiles hfirst (textOf functions entry.2).vertex
      rw [Result.steps_write hwrite, List.cons_append]
      by_cases hsecond : before.Accepts folder (entry.1 ++ ".frag")
      · rcases hsavedFirst.write hfilesFirst hfragment hsecond
          (textOf functions entry.2).fragment with ⟨second, hwriteSecond, hsavedSecond⟩
        rw [Result.steps_write hwriteSecond]
        refine @ih { result with disk := second } _ hsavedSecond
          (Disk.accepts_append hfilesFirst hsecond _) hnames.2 fun hothers => hrefused ?_
        rw [List.flatMap_cons, List.forall_mem_append]
        exact ⟨List.forall_mem_cons.mpr ⟨hfirst, List.forall_mem_singleton.mpr hsecond⟩, hothers⟩
      · exact Result.failed_steps_write
          (hsavedFirst.write_eq_error hfilesFirst hfragment hclear hsecond _)
    · exact Result.failed_steps_write (hsaved.write_eq_error hfiles hvertex hclear hfirst _)

/-- Making the folder first changes nothing about the steps that write into it. -/
theorem steps_savingSteps (hentries : entries ≠ []) {disk : Disk}
    (hmake : result.disk.makeFolders folder = .ok disk) (hfolder : disk.HasFolder folder) :
    result.steps (savingSteps folder functions entries) =
      { result with disk }.steps (savingSteps folder functions entries) := by
  rcases List.exists_cons_of_ne_nil hentries with ⟨entry, rest, rfl⟩
  rw [savingSteps, List.flatMap_cons, programSteps, List.cons_append,
    Result.steps_makeFolders hmake, Result.steps_makeFolders hfolder.makeFolders_eq]

/-- The steps for some programs succeed exactly if all of their files are accepted, and then they
save those files. -/
theorem steps_savingSteps_cases (hentries : entries ≠ [])
    (hnames : ∀ entry ∈ entries, '/' ∉ entry.1.toList) :
    (∀ file ∈ entries.flatMap (filesOf functions), result.disk.Accepts folder file.1) ∧
        (∃ disk, result.steps (savingSteps folder functions entries) = { result with disk } ∧
          result.disk.IsClear folder ∧
          result.disk.Saved folder (entries.flatMap (filesOf functions)) disk) ∨
      (¬ ∀ file ∈ entries.flatMap (filesOf functions), result.disk.Accepts folder file.1) ∧
        (result.steps (savingSteps folder functions entries)).failed = true := by
  by_cases hclear : result.disk.IsClear folder
  · rcases hclear.exists_saved with ⟨disk, hmake, hsaved⟩
    have hnone : ∀ file ∈ ([] : List (String × String)), result.disk.Accepts folder file.1 := by
      simp
    rw [steps_savingSteps hentries hmake (hsaved.hasFolder hnone)]
    by_cases haccepts : ∀ file ∈ entries.flatMap (filesOf functions),
        result.disk.Accepts folder file.1
    · rcases @steps_save result.disk folder functions entries { result with disk } [] hsaved hnone
        hnames haccepts with ⟨after, hsteps, hafter⟩
      exact .inl ⟨haccepts, after, hsteps, hclear, hafter⟩
    · exact .inr ⟨haccepts, @failed_steps result.disk folder functions entries { result with disk }
        [] hsaved hnone hclear hnames haccepts⟩
  · rcases List.exists_cons_of_ne_nil hentries with ⟨entry, rest, rfl⟩
    refine .inr ⟨fun haccepts => hclear ?_, ?_⟩
    · exact (haccepts _ (List.mem_append_left _ List.mem_cons_self)).clear
    · rw [savingSteps, List.flatMap_cons, programSteps, List.cons_append]
      cases hmake : result.disk.makeFolders folder with
      | error cause => exact Result.failed_steps_makeFolders hmake
      | ok disk => exact (hclear ((Disk.exists_makeFolders_iff _ _).mp ⟨disk, hmake⟩)).elim

end Saving

/-! ## What is left -/

/-- A disk is as before but for the files of the chosen programs of a module, which stand in a
folder, and for that folder and those above it. -/
structure Leaves (m : Module) (folder : String) (only : Option String) (before after : Disk) :
    Prop where
  /-- The files of a name hold the texts of the last program of that name. -/
  files : ∀ name program, m.IsLast name program → Chosen only name →
    ∃ text, Target.program m.functions program = .ok text ∧
      after.node? (Disk.placeIn folder (name ++ ".vert")) = some (.file text.vertex.toUTF8) ∧
      after.node? (Disk.placeIn folder (name ++ ".frag")) = some (.file text.fragment.toUTF8)
  others : ∀ place,
    (∀ entry ∈ m.programs, Chosen only entry.1 →
      place ≠ Disk.placeIn folder (entry.1 ++ ".vert") ∧
        place ≠ Disk.placeIn folder (entry.1 ++ ".frag")) →
    after.node? place = before.node? place ∨
      place ∈ Disk.way folder ∧ before.node? place = none ∧ after.node? place = some .folder

/-- Different names make the names of different files. -/
theorem append_ne_append {name other : String} (h : other ≠ name) (ending : String) :
    other ++ ending ≠ name ++ ending := by
  intro heq
  rw [← String.toList_inj, String.toList_append, String.toList_append] at heq
  exact h (String.toList_inj.mp (List.append_cancel_right heq))

/-- The files of the two stages have different names. -/
theorem append_vert_ne (name other : String) : name ++ ".vert" ≠ other ++ ".frag" := by
  intro heq
  rw [← String.toList_inj, String.toList_append, String.toList_append] at heq
  exact absurd (List.append_inj' heq (by decide)).2 (by decide)

section Leaving

variable {m : Module} {folder : String} {only : Option String}

/-- The last program of a chosen name is the last chosen one of that name. -/
theorem exists_selected_eq {name : String} {program : Program} (h : m.IsLast name program)
    (hchosen : Chosen only name) :
    ∃ before after, selected m only = before ++ (name, program) :: after ∧
      ∀ entry ∈ after, entry.1 ≠ name := by
  rcases h with ⟨before, after, hprograms, hlast⟩
  have hname : only.all (name == ·) = true := by
    cases only with
    | none => rfl
    | some wanted => simpa using hchosen wanted rfl
  refine ⟨before.filter fun entry => only.all (entry.1 == ·),
    after.filter fun entry => only.all (entry.1 == ·), ?_, ?_⟩
  · have hselected : selected m only = m.programs.filter fun entry => only.all (entry.1 == ·) := rfl
    rw [hselected, hprograms, List.filter_append, List.filter_cons]
    simp only [hname, if_true]
  · exact fun entry hentry => hlast entry (List.mem_filter.mp hentry).1

/-- Saving the files of the chosen programs leaves what a command has to leave. -/
theorem leaves_of_saved {before after : Disk}
    (htexts : ∀ entry ∈ selected m only,
      program m.functions entry.2 = .ok (textOf m.functions entry.2))
    (hclear : before.IsClear folder)
    (h : before.Saved folder ((selected m only).flatMap (filesOf m.functions)) after) :
    Leaves m folder only before after where
  files := by
    intro name program hlast hchosen
    rcases exists_selected_eq hlast hchosen with ⟨earlier, later, hselected, hlater⟩
    have hentry : (name, program) ∈ selected m only := by simp [hselected]
    refine ⟨_, htexts _ hentry, ?_⟩
    -- The files of later programs have other names.
    have hothers : ∀ ending file, file ∈ later.flatMap (filesOf m.functions) →
        ending = ".vert" ∨ ending = ".frag" → file.1 ≠ name ++ ending := by
      intro ending file hfile hending
      rcases List.mem_flatMap.mp hfile with ⟨entry, hentry, hfile⟩
      have hne := append_ne_append (hlater entry hentry)
      simp only [filesOf, List.mem_cons, List.not_mem_nil, or_false] at hfile
      rcases hfile with rfl | rfl <;> rcases hending with rfl | rfl
      · exact hne ".vert"
      · exact append_vert_ne entry.1 name
      · exact (append_vert_ne name entry.1).symm
      · exact hne ".frag"
    rw [hselected, List.flatMap_append, List.flatMap_cons] at h
    constructor
    · refine @Disk.Saved.node?_placeIn before after folder _ _ _
        ((name ++ ".frag", _) :: later.flatMap (filesOf m.functions)) h ?_
      refine List.forall_mem_cons.mpr ⟨(append_vert_ne name name).symm, ?_⟩
      exact fun file hfile => hothers ".vert" file hfile (.inl rfl)
    · rw [filesOf, List.cons_append, List.singleton_append, ← List.singleton_append,
        ← List.append_assoc] at h
      exact h.node?_placeIn fun file hfile => hothers ".frag" file hfile (.inr rfl)
  others := by
    intro place hplace
    refine h.node?_of_ne hclear fun file hfile => ?_
    rcases List.mem_flatMap.mp hfile with ⟨entry, hentry, hfile⟩
    rcases mem_selected_iff.mp hentry with ⟨hmem, hchosen⟩
    simp only [filesOf, List.mem_cons, List.not_mem_nil, or_false] at hfile
    rcases hfile with rfl | rfl
    · exact (hplace entry hmem hchosen).1
    · exact (hplace entry hmem hchosen).2

/-- The files of the chosen programs are accepted exactly if both files of each are. -/
theorem forall_filesOf_iff {disk : Disk} :
    (∀ file ∈ (selected m only).flatMap (filesOf m.functions), disk.Accepts folder file.1) ↔
      ∀ entry ∈ m.programs, Chosen only entry.1 →
        disk.Accepts folder (entry.1 ++ ".vert") ∧ disk.Accepts folder (entry.1 ++ ".frag") := by
  simp only [List.forall_mem_flatMap, mem_selected_iff, filesOf, List.forall_mem_cons,
    List.not_mem_nil, false_imp_iff, implies_true, and_true, and_imp]

/-- The steps that write the files of the chosen programs into a folder. -/
theorem steps_selected {result : Result}
    (htexts : ∀ entry ∈ selected m only,
      program m.functions entry.2 = .ok (textOf m.functions entry.2))
    (hnames : ∀ entry ∈ m.programs, '/' ∉ entry.1.toList) (hfailed : result.failed = false) :
    let after := result.steps (savingSteps folder m.functions (selected m only))
    (after.failed = false ↔ ∀ entry ∈ m.programs, Chosen only entry.1 →
        result.disk.Accepts folder (entry.1 ++ ".vert") ∧
          result.disk.Accepts folder (entry.1 ++ ".frag")) ∧
      (after.failed = false →
        after.output = result.output ∧ Leaves m folder only result.disk after.disk) := by
  dsimp only
  rw [← forall_filesOf_iff]
  by_cases hnone : selected m only = []
  · have hchosen : ∀ entry ∈ m.programs, ¬ Chosen only entry.1 := by
      intro entry hmem hchosen
      have hentry := mem_selected_iff.mpr ⟨hmem, hchosen⟩
      rw [hnone] at hentry
      cases hentry
    rw [hnone]
    refine ⟨iff_of_true hfailed (by simp), fun _ => ⟨rfl, ?_, fun place _ => .inl rfl⟩⟩
    rintro name program ⟨before, after, hprograms, -⟩ hname
    exact (hchosen (name, program) (by simp [hprograms]) hname).elim
  · have hselected : ∀ entry ∈ selected m only, '/' ∉ entry.1.toList := fun entry hentry =>
      hnames entry (mem_selected_iff.mp hentry).1
    rcases @steps_savingSteps_cases folder m.functions _ result hnone hselected with
      ⟨haccepts, disk, hsteps, hclear, hsaved⟩ | ⟨hrefused, hfails⟩
    · rw [hsteps]
      exact ⟨iff_of_true hfailed haccepts, fun _ => ⟨rfl, leaves_of_saved htexts hclear hsaved⟩⟩
    · rw [hfails]
      exact ⟨iff_of_false (by simp) hrefused, fun hfalse => by cases hfalse⟩

end Leaving

/-- A command that can read its source reports the diagnostics and carries out its plan. -/
theorem run_of_read {command : Command} {disk : Disk} {text : String}
    (hread : disk.read command.source = .ok text) :
    ∃ reported : Result, reported.failed = false ∧ reported.output = "" ∧ reported.disk = disk ∧
      command.run disk = match (command.plan text).outcome with
        | .error message => reported.fail message
        | .ok taken => reported.steps taken := by
  rcases Result.foldl_report ⟨false, "", "", disk⟩ (command.plan text).reports with
    ⟨hfailed, houtput, hdisk⟩
  refine ⟨_, hfailed, houtput, hdisk, ?_⟩
  rewrite [run, hread]
  rfl

/-- A command writes all or nothing.  If its source does not load, a chosen program cannot be
generated or there is no program of the given name, then it fails, prints nothing and leaves the
disk as it was.  Otherwise a command without a folder succeeds and leaves the disk as it was.  A
command with a folder succeeds just if the disk accepts the files, and then it leaves the files of
the chosen programs, with the texts of the last program of each name, and changes nothing else. -/
theorem run_all_or_nothing {command : Command} {disk : Disk} {text : String}
    (hread : disk.read command.source = .ok text) :
    (command.Fails text → (command.run disk).failed = true ∧ (command.run disk).output = "" ∧
      (command.run disk).disk = disk) ∧
    (¬ command.Fails text → ∃ m, (load [] text.toList).module = some m ∧
      match command.task with
      | .generate (some folder) only =>
        ((command.run disk).failed = false ↔ ∀ entry ∈ m.programs, Chosen only entry.1 →
          disk.Accepts folder (entry.1 ++ ".vert") ∧ disk.Accepts folder (entry.1 ++ ".frag")) ∧
        ((command.run disk).failed = false → (command.run disk).output = "" ∧
          Leaves m folder only disk (command.run disk).disk)
      | _ => (command.run disk).failed = false ∧ (command.run disk).disk = disk) := by
  rcases run_of_read hread with ⟨reported, hfailed, houtput, hdisk, hrun⟩
  refine ⟨fun hfails => ?_, fun hsucceeds => ?_⟩
  · rcases plan_eq_error_iff.mpr hfails with ⟨message, hmessage⟩
    rw [hrun, hmessage]
    exact ⟨rfl, houtput, hdisk⟩
  cases hload : (load [] text.toList).module with
  | none => exact (hsucceeds (.unloaded hload)).elim
  | some m =>
    refine ⟨m, rfl, ?_⟩
    cases houtcome : (command.plan text).outcome with
    | error message => exact (hsucceeds (plan_eq_error_iff.mp ⟨message, houtcome⟩)).elim
    | ok taken =>
      rw [houtcome] at hrun
      rw [outcome_plan hload] at houtcome
      have hprint : (∀ step ∈ taken, ∃ text, step = Step.print text) →
          (command.run disk).failed = false ∧ (command.run disk).disk = disk := by
        intro hprints
        rcases reported.steps_print hprints with ⟨hsteps, hstepsDisk⟩
        rw [hrun]
        exact ⟨hsteps.trans hfailed, hstepsDisk.trans hdisk⟩
      cases htask : command.task with
      | check =>
        rw [Command.steps, htask] at houtcome
        cases houtcome
        exact hprint (by simp)
      | generate folder only =>
        rcases (steps_eq_ok_iff htask).mp houtcome with ⟨htexts, -, rfl⟩
        cases folder with
        | none =>
          refine hprint fun step hstep => ?_
          rcases List.mem_flatMap.mp hstep with ⟨entry, -, hstep⟩
          simp only [programSteps, List.mem_cons, List.not_mem_nil, or_false] at hstep
          rcases hstep with rfl | rfl
          · exact ⟨_, rfl⟩
          · exact ⟨_, rfl⟩
        | some folder =>
          have hnames : ∀ entry ∈ m.programs, '/' ∉ entry.1.toList := fun entry hentry =>
            ((isPlaced_of_load hload (Vocabulary.suitsSource_slashless _)).2 entry hentry).1
          have hsteps := @steps_selected m folder only reported htexts hnames hfailed
          rw [hdisk, houtput] at hsteps
          rw [hrun]
          exact hsteps

/-- A source with two programs of one name. -/
def sourceTwice : String :=
  "vert a:()->()=\x7b\x7d frag b:()->()=\x7b1\x7d p:Prog=mkProg a a p:Prog=mkProg a b"

/-- A disk with that source and nothing else. -/
def diskTwice : Disk := ⟨[(["s"], .file sourceTwice.toUTF8)]⟩

/-- Generate all programs of that source into a folder. -/
def commandTwice : Command := ⟨"s", true, .generate (some "o") none⟩

/-- Both programs of the source can be generated. -/
theorem load_sourceTwice :
    ∃ m first second, (load [] sourceTwice.toList).module = some m ∧
      m.programs = [("p", first), ("p", second)] ∧ ∃ taken, commandTwice.steps m = .ok taken := by
  have hevaluated : ((load [] sourceTwice.toList).module.any fun m =>
      m.programs.map (·.1) == ["p", "p"] && (commandTwice.steps m).isOk) = true := by
    decide +kernel
  rcases (Option.any_eq_true _ _).mp hevaluated with ⟨m, hload, hm⟩
  rw [Bool.and_eq_true, beq_iff_eq] at hm
  rcases hm with ⟨hnames, hsteps⟩
  cases htaken : commandTwice.steps m with
  | error message =>
    rw [htaken] at hsteps
    cases hsteps
  | ok taken =>
    simp only [List.map_eq_cons_iff, List.map_eq_nil_iff] at hnames
    rcases hnames with ⟨⟨_, first⟩, _, hprograms, rfl, ⟨_, second⟩, _, rfl, rfl, rfl⟩
    exact ⟨m, first, second, hload, hprograms, taken, htaken⟩

/-- The folder is made and the files of the two programs are left there, with the texts of the
second one. -/
theorem run_sourceTwice :
    diskTwice.read commandTwice.source = .ok sourceTwice ∧
      ∃ (m : Module) (program : Program) (text : ProgramText), m.IsLast "p" program ∧
        Target.program m.functions program = .ok text ∧
        (commandTwice.run diskTwice).failed = false ∧
        (commandTwice.run diskTwice).disk.node? ["o", "p.frag"] =
          some (.file text.fragment.toUTF8) := by
  have hread : diskTwice.read commandTwice.source = .ok sourceTwice :=
    Disk.read_file ⟨by decide, by decide, by decide, by decide⟩ rfl
  rcases load_sourceTwice with ⟨m, first, second, hload, hprograms, taken, htaken⟩
  have hsucceeds : ¬ commandTwice.Fails sourceTwice := by
    rw [← plan_eq_error_iff, outcome_plan hload, htaken]
    rintro ⟨message, hmessage⟩
    cases hmessage
  rcases (run_all_or_nothing hread).2 hsucceeds with ⟨m', hload', haccepts, hleaves⟩
  rw [hload] at hload'
  cases hload'
  have hdisk : ∀ place : Place, place ≠ [] → place ≠ ["s"] → diskTwice.node? place = none := by
    intro place htop hplace
    simp [diskTwice, Disk.node?, htop, Ne.symm hplace]
  have hfolder : ∀ name, diskTwice.Accepts "o" name := by
    intro name
    have hway : Disk.way "o" = [["o"]] := by decide
    have hplace : Disk.placeIn "o" name = ["o", name] := rfl
    refine ⟨?_, ?_, ?_⟩
    · intro place hmem content
      rw [hway, List.mem_singleton] at hmem
      rw [hmem, hdisk ["o"] (by decide) (by decide)]
      simp
    · rw [hway, hplace]
      simp
    · rw [hplace, hdisk _ (by simp) (by simp)]
      simp
  have hfailed := haccepts.mpr fun entry _ _ => ⟨hfolder _, hfolder _⟩
  have hlast : m.IsLast "p" second := ⟨[("p", first)], [], hprograms, by simp⟩
  rcases (hleaves hfailed).2.files "p" second hlast (by simp [Chosen]) with
    ⟨text, htext, -, hfragment⟩
  exact ⟨hread, m, second, text, hlast, htext, hfailed, hfragment⟩

end Command

end ShaderLang
