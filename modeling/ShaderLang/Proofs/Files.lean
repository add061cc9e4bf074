import Mathlib.Data.List.Basic
import ShaderLang.Disk

/-!
# Files in a folder

What making a folder and writing files into it does to a disk, place by place.  `Disk.Accepts` says
when it can be done: no file stands on the way to the folder, and no folder where a file is to
stand.  `Disk.Saved` says what it leaves: the files hold the text that was written last, the folder
and those on the way to it are there, and nothing else is changed.

Main results:

- Theorem `parts_join`: a file in a folder stands at the place of the folder, under its name.
- Theorem `exists_makeFolders_iff`: a folder can be made exactly if no file stands on the way to it.
- Theorem `HasFolder.write_join`: what writing a file into a folder does.
- Theorem `Saved.write` and `Saved.write_eq_error`: a file is saved exactly if it is accepted.
- Theorem `Saved.node?_placeIn` and `Saved.node?_of_ne`: what stands on a disk with saved files.
-/

namespace ShaderLang

namespace Disk

/-! ## Paths -/

/-- The names of a path in two halves with a slash between them are those of the halves. -/
theorem names_slash (before after : List Char) :
    names (String.ofList (before ++ '/' :: after)) =
      names (String.ofList before) ++ names (String.ofList after) := by
  simp [names, List.splitOn_append_cons_self]

/-- A name of a file: it is not empty, it does not lead to another folder, and no slash stands in
it. -/
structure IsFileName (name : String) : Prop where
  ne_nil : name.toList ≠ []
  slash : '/' ∉ name.toList
  point : name ≠ "."
  points : name ≠ ".."

section FileName

variable {name : String}

/-- The path of a file name is the name. -/
theorem IsFileName.names_eq (h : IsFileName name) : names name = [name] := by
  simp [names, List.splitOn_eq_singleton h.slash, h.ne_nil]

/-- A file name leads one step further. -/
theorem IsFileName.step_eq (h : IsFileName name) (place : Place) :
    step place name = place ++ [name] := by
  rw [step, if_neg h.point, if_neg h.points]

/-- No slash stands at the end of the path of a file. -/
theorem IsFileName.endsWithSlash_append (h : IsFileName name) (before : List Char) :
    endsWithSlash (String.ofList (before ++ name.toList)) = false := by
  have hlast : name.toList.getLast h.ne_nil ≠ '/' :=
    fun hslash => h.slash (hslash ▸ List.getLast_mem h.ne_nil)
  simpa [endsWithSlash, List.getLast?_append, List.getLast?_eq_some_getLast h.ne_nil] using hlast

/-- A file name is the only part of its path. -/
theorem IsFileName.parts_eq (h : IsFileName name) : parts name = [name] := by
  have hslash := h.endsWithSlash_append []
  rw [List.nil_append, String.ofList_toList] at hslash
  rw [parts, hslash, h.names_eq]
  rfl

/-- The parts of the path of a file in a folder are the names of the folder and the file. -/
theorem parts_join (h : IsFileName name) (folder : String) :
    parts (join folder name) = names folder ++ [name] := by
  have hparts : ∀ before : List Char, parts (String.ofList (before ++ '/' :: name.toList)) =
      names (String.ofList before) ++ [name] := by
    intro before
    have hslash := h.endsWithSlash_append (before ++ ['/'])
    rw [List.append_assoc, List.singleton_append] at hslash
    rw [parts, hslash, names_slash, String.ofList_toList, h.names_eq]
    rfl
  unfold join
  split
  · rename_i hfolder
    rw [Bool.or_eq_true, String.isEmpty_iff] at hfolder
    rcases hfolder with rfl | hslash
    · rw [String.empty_append, h.parts_eq]
      rfl
    · rw [endsWithSlash, beq_iff_eq, List.getLast?_eq_some_iff] at hslash
      rcases hslash with ⟨before, hbefore⟩
      have hwhole : folder ++ name = String.ofList (before ++ '/' :: name.toList) := by
        rw [← String.toList_inj, String.toList_append, hbefore, String.toList_ofList]
        simp
      have hnames : names folder = names (String.ofList before) := by
        rw [← String.ofList_toList (s := folder), hbefore, names_slash]
        simp [names]
      rw [hwhole, hparts, hnames]
  · have hwhole : folder ++ "/" ++ name = String.ofList (folder.toList ++ '/' :: name.toList) := by
      rw [← String.toList_inj]
      simp
    rw [hwhole, hparts, String.ofList_toList]

end FileName

/-! ## The way to a folder -/

/-- The places that some names lead to, from a place on. -/
def wayFrom (place : Place) : List String → List Place
  | [] => []
  | name :: rest => step place name :: wayFrom (step place name) rest

/-- The places on the way to a folder, its own the last. -/
def way (folder : String) : List Place :=
  wayFrom [] (names folder)

/-- The place of a file in a folder. -/
def placeIn (folder name : String) : Place :=
  (names folder).foldl step [] ++ [name]

theorem placeIn_inj {folder name other : String} :
    placeIn folder name = placeIn folder other ↔ name = other := by
  simp [placeIn]

/-- No file stands on the way to a folder. -/
def IsClear (disk : Disk) (folder : String) : Prop :=
  ∀ place ∈ way folder, ∀ content, disk.node? place ≠ some (.file content)

/-- A folder and all folders on the way to it are there. -/
def HasFolder (disk : Disk) (folder : String) : Prop :=
  ∀ place ∈ way folder, disk.node? place = some .folder

/-- A folder that is put at a place stands there, and all else is as before. -/
theorem node?_put_folder (disk : Disk) (place other : Place) :
    (disk.put place .folder).node? other =
      if other = place then some .folder else disk.node? other := by
  split
  · rename_i hplace
    by_cases hnil : place = []
    · simp [node?, hplace, hnil]
    · rw [hplace, node?_put_self disk place .folder hnil]
  · rename_i hplace
    exact node?_put_of_ne disk .folder hplace

/-- The folders along some names can be made if no file stands on the way; then those are there, and
all else is as before. -/
theorem exists_makeFoldersFrom (disk : Disk) (place : Place) (path : List String)
    (h : ∀ other ∈ wayFrom place path, ∀ content, disk.node? other ≠ some (.file content)) :
    ∃ after, disk.makeFoldersFrom place path = .ok after ∧
      ∀ other, after.node? other =
        if other ∈ wayFrom place path then some .folder else disk.node? other := by
  induction path generalizing disk place with
  | nil => exact ⟨disk, rfl, fun other => by simp [wayFrom]⟩
  | cons name rest ih =>
    rw [wayFrom, List.forall_mem_cons] at h
    rw [makeFoldersFrom, wayFrom]
    cases hnode : disk.node? (step place name) with
    | none =>
      -- A folder on the way does not stand in the way of a later one.
      have hrest : ∀ other ∈ wayFrom (step place name) rest, ∀ content,
          (disk.put (step place name) .folder).node? other ≠ some (.file content) := by
        intro other hother content
        rw [node?_put_folder]
        split
        · simp
        · exact h.2 other hother content
      rcases ih _ _ hrest with ⟨after, hafter, hnodes⟩
      refine ⟨after, hafter, fun other => ?_⟩
      rw [hnodes, node?_put_folder]
      by_cases hother : other = step place name <;> simp [hother]
    | some node =>
      cases node with
      | file content => exact absurd hnode (h.1 content)
      | folder =>
        rcases ih _ _ h.2 with ⟨after, hafter, hnodes⟩
        refine ⟨after, hafter, fun other => ?_⟩
        rw [hnodes]
        by_cases hother : other = step place name <;> simp [hother, hnode]

/-- Where folders can be made, no file stands on the way. -/
theorem isClear_of_makeFoldersFrom {disk after : Disk} {place : Place} {path : List String}
    (h : disk.makeFoldersFrom place path = .ok after) :
    ∀ other ∈ wayFrom place path, ∀ content, disk.node? other ≠ some (.file content) := by
  induction path generalizing disk place with
  | nil => simp [wayFrom]
  | cons name rest ih =>
    rw [makeFoldersFrom] at h
    rw [wayFrom, List.forall_mem_cons]
    cases hnode : disk.node? (step place name) with
    | none =>
      rw [hnode] at h
      refine ⟨by simp, fun other hother content => ?_⟩
      have hother := ih h other hother content
      rw [node?_put_folder] at hother
      split at hother
      · simp_all
      · exact hother
    | some node =>
      rw [hnode] at h
      cases node with
      | file content => cases h
      | folder => exact ⟨by simp, ih h⟩

/-- A folder can be made exactly if no file stands on the way to it. -/
theorem exists_makeFolders_iff (disk : Disk) (folder : String) :
    (∃ after, disk.makeFolders folder = .ok after) ↔ disk.IsClear folder := by
  constructor
  · rintro ⟨after, hafter⟩
    exact isClear_of_makeFoldersFrom hafter
  · intro hclear
    rcases exists_makeFoldersFrom disk [] (names folder) hclear with ⟨after, hafter, -⟩
    exact ⟨after, hafter⟩

/-- Nothing is done for a folder that is there. -/
theorem HasFolder.makeFolders_eq {disk : Disk} {folder : String} (h : disk.HasFolder folder) :
    disk.makeFolders folder = .ok disk := by
  have hfrom : ∀ (path : List String) (place : Place),
      (∀ other ∈ wayFrom place path, disk.node? other = some .folder) →
        disk.makeFoldersFrom place path = .ok disk := by
    intro path
    induction path with
    | nil => exact fun _ _ => rfl
    | cons name rest ih =>
      intro place hway
      rw [wayFrom, List.forall_mem_cons] at hway
      rw [makeFoldersFrom, hway.1]
      exact ih _ hway.2
  exact hfrom (names folder) [] h

/-- A path through folders leads to the place of its last name. -/
theorem follow_of_folders {disk : Disk} (path : List String) (name : String) {place : Place}
    (h : ∀ other ∈ place :: wayFrom place path, disk.node? other = some .folder) :
    disk.follow place (path ++ [name]) = .ok (step (path.foldl step place) name) := by
  induction path generalizing place with
  | nil =>
    rw [List.nil_append, follow, h place List.mem_cons_self]
    rfl
  | cons first rest ih =>
    rw [List.forall_mem_cons] at h
    rw [List.cons_append, follow, h.1]
    exact ih h.2

/-- What writing a file into a folder does: it fails if a folder stands at its place. -/
theorem HasFolder.write_join {disk : Disk} {folder name : String} (h : disk.HasFolder folder)
    (hname : IsFileName name) (text : String) :
    disk.write (join folder name) text =
      if disk.node? (placeIn folder name) = some .folder then .error .isFolder
      else .ok (disk.put (placeIn folder name) (.file text.toUTF8)) := by
  have htop : disk.node? [] = some .folder := rfl
  have hfollow : disk.follow [] (names folder ++ [name]) = .ok (placeIn folder name) := by
    rw [follow_of_folders (names folder) name (List.forall_mem_cons.mpr ⟨htop, h⟩), hname.step_eq]
    rfl
  rw [write, parts_join hname, hfollow]
  simp only [bind, Except.bind]
  cases hnode : disk.node? (placeIn folder name) with
  | none => rfl
  | some node =>
    cases node with
    | folder => rfl
    | file content => rfl

/-- A text that stands in a file of the top folder can be read. -/
theorem read_file {disk : Disk} {name text : String} (hname : IsFileName name)
    (hnode : disk.node? [name] = some (.file text.toUTF8)) : disk.read name = .ok text := by
  have hempty : name.isEmpty = false := by
    rw [← Bool.not_eq_true, String.isEmpty_iff]
    rintro rfl
    exact hname.ne_nil rfl
  have hfollow : disk.follow [] [name] = .ok [name] := by
    rw [follow, hname.step_eq]
    rfl
  have htext : String.fromUTF8? text.toUTF8 = some text := by
    rw [String.fromUTF8?, String.toUTF8_eq_toByteArray, dif_pos text.isValidUTF8]
    rfl
  rw [read, hempty, hname.parts_eq, hfollow]
  simp only [bind, Except.bind, hnode, htext]
  rfl

/-! ## Saved files -/

/-- A file may be written into a folder, which need not be there yet. -/
structure Accepts (disk : Disk) (folder name : String) : Prop where
  clear : disk.IsClear folder
  /-- The place of the file is not on the way to its own folder. -/
  apart : placeIn folder name ∉ way folder
  free : disk.node? (placeIn folder name) ≠ some .folder

/-- What stands at a place after files were written into a folder: of two texts for one file, the
later one. -/
def savedNode (before : Disk) (folder : String) (files : List (String × String)) (place : Place) :
    Option Node :=
  match files.reverse.find? fun file => placeIn folder file.1 = place with
  | some file => some (.file file.2.toUTF8)
  | none => if place ∈ way folder then some .folder else before.node? place

/-- A disk is as another one after files were written into a folder. -/
def Saved (before : Disk) (folder : String) (files : List (String × String)) (after : Disk) : Prop :=
  ∀ place, after.node? place = savedNode before folder files place

section Saved

variable {before middle after : Disk} {folder name text : String} {files : List (String × String)}

/-- One more file may be accepted. -/
theorem accepts_append (hfiles : ∀ file ∈ files, before.Accepts folder file.1)
    (hname : before.Accepts folder name) (text : String) :
    ∀ file ∈ files ++ [(name, text)], before.Accepts folder file.1 :=
  List.forall_mem_append.mpr ⟨hfiles, List.forall_mem_singleton.mpr hname⟩

/-- Where a folder can be made, it is made and nothing else is changed. -/
theorem IsClear.exists_saved (h : before.IsClear folder) :
    ∃ after, before.makeFolders folder = .ok after ∧ before.Saved folder [] after :=
  exists_makeFoldersFrom before [] (names folder) h

/-- No file is written on the way to the folder, so the folder is there. -/
theorem Saved.hasFolder (h : before.Saved folder files after)
    (hfiles : ∀ file ∈ files, before.Accepts folder file.1) : after.HasFolder folder := by
  intro place hplace
  have hnone : files.reverse.find? (fun file => placeIn folder file.1 = place) = none := by
    rw [List.find?_eq_none]
    intro file hfile
    rw [decide_eq_true_iff]
    rintro rfl
    exact (hfiles file (List.mem_reverse.mp hfile)).apart hplace
  rw [h place, savedNode, hnone]
  exact if_pos hplace

/-- A folder stands at the place of a file only if one did before or it is on the way. -/
theorem Saved.node?_eq_folder_iff (h : before.Saved folder files after)
    (hfiles : ∀ file ∈ files, before.Accepts folder file.1) (hclear : before.IsClear folder) :
    after.node? (placeIn folder name) = some .folder ↔ ¬ before.Accepts folder name := by
  rw [h, savedNode]
  split
  · rename_i file hfound
    have hfile := hfiles file (List.mem_reverse.mp (List.mem_of_find?_eq_some hfound))
    have hplace := List.find?_some hfound
    rw [decide_eq_true_iff, placeIn_inj] at hplace
    rw [hplace] at hfile
    simp [hfile]
  · by_cases hway : placeIn folder name ∈ way folder
    · simpa [hway] using fun haccepts : before.Accepts folder name => haccepts.apart hway
    · rw [if_neg hway]
      constructor
      · exact fun hfolder haccepts => haccepts.free hfolder
      · intro hrefused
        by_contra hfree
        exact hrefused ⟨hclear, hway, hfree⟩

/-- One more file is written. -/
theorem Saved.put (h : before.Saved folder files middle) (name text : String) :
    before.Saved folder (files ++ [(name, text)])
      (middle.put (placeIn folder name) (.file text.toUTF8)) := by
  intro place
  rw [savedNode, List.reverse_append, List.reverse_singleton, List.singleton_append,
    List.find?_cons]
  by_cases hplace : placeIn folder name = place
  · have hne : placeIn folder name ≠ [] := by simp [placeIn]
    rw [← hplace, node?_put_self middle _ _ hne]
    simp
  · rw [node?_put_of_ne middle _ (Ne.symm hplace), h place, savedNode]
    simp [hplace]

/-- Writing a file that is accepted adds it to those that are saved. -/
theorem Saved.write (h : before.Saved folder files middle)
    (hfiles : ∀ file ∈ files, before.Accepts folder file.1) (hname : IsFileName name)
    (haccepts : before.Accepts folder name) (text : String) :
    ∃ after, middle.write (join folder name) text = .ok after ∧
      before.Saved folder (files ++ [(name, text)]) after := by
  have hfree : middle.node? (placeIn folder name) ≠ some .folder := fun hfolder =>
    (h.node?_eq_folder_iff hfiles haccepts.clear).mp hfolder haccepts
  rw [(h.hasFolder hfiles).write_join hname, if_neg hfree]
  exact ⟨_, rfl, h.put name text⟩

/-- Writing a file that is not accepted fails. -/
theorem Saved.write_eq_error (h : before.Saved folder files middle)
    (hfiles : ∀ file ∈ files, before.Accepts folder file.1) (hname : IsFileName name)
    (hclear : before.IsClear folder) (hrefused : ¬ before.Accepts folder name) (text : String) :
    middle.write (join folder name) text = .error .isFolder := by
  have hfolder := (h.node?_eq_folder_iff hfiles hclear).mpr hrefused
  rw [(h.hasFolder hfiles).write_join hname, if_pos hfolder]

/-- A file holds the text that was written last. -/
theorem Saved.node?_placeIn {earlier later : List (String × String)}
    (h : before.Saved folder (earlier ++ (name, text) :: later) after)
    (hlater : ∀ file ∈ later, file.1 ≠ name) :
    after.node? (placeIn folder name) = some (.file text.toUTF8) := by
  have hnone : later.reverse.find? (fun file => placeIn folder file.1 = placeIn folder name) =
      none := by
    rw [List.find?_eq_none]
    intro file hfile
    simpa [placeIn_inj] using hlater file (List.mem_reverse.mp hfile)
  rw [h, savedNode, List.reverse_append, List.reverse_cons, List.append_assoc, List.find?_append,
    hnone, Option.none_or, List.singleton_append, List.find?_cons]
  simp

/-- Where no file was written all is as before, but for new folders on the way. -/
theorem Saved.node?_of_ne (h : before.Saved folder files after) (hclear : before.IsClear folder)
    {place : Place} (hplace : ∀ file ∈ files, place ≠ placeIn folder file.1) :
    after.node? place = before.node? place ∨
      place ∈ way folder ∧ before.node? place = none ∧ after.node? place = some .folder := by
  have hnone : files.reverse.find? (fun file => placeIn folder file.1 = place) = none := by
    rw [List.find?_eq_none]
    intro file hfile
    simpa using (hplace file (List.mem_reverse.mp hfile)).symm
  have hafter := h place
  rw [savedNode, hnone] at hafter
  by_cases hway : place ∈ way folder
  · simp only [if_pos hway] at hafter
    cases hnode : before.node? place with
    | none => exact .inr ⟨hway, rfl, hafter⟩
    | some node =>
      cases node with
      | folder => exact .inl hafter
      | file content => exact (hclear place hway content hnode).elim
  · simp only [if_neg hway] at hafter
    exact .inl hafter

end Saved

end Disk

end ShaderLang
