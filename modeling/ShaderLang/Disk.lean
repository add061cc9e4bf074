/-!
# Files and folders

A disk as a command sees it: files and folders below one folder, named by the parts of their paths.
The operations fail for the same reasons, and with the same messages, as those of a system.
-/

namespace ShaderLang

/-- Contents are equal if their bytes are. -/
instance (priority := high) decidableEqContent : DecidableEq ByteArray := ByteArray.instDecidableEq

/-- What stands at a place of a disk. -/
inductive Node where
  | file (content : ByteArray)
  | folder
deriving DecidableEq

/-- A place below the top folder, as the names that lead to it. -/
abbrev Place := List String

/-- Why an operation on files fails. -/
inductive DiskError where
  | notFound
  | alreadyThere
  | notFolder
  | isFolder
  /-- The content of a file is not a text. -/
  | notText
deriving DecidableEq, Repr

namespace DiskError

/-- The message of a failure. -/
def message : DiskError → String
  | notFound => "No such file or directory (os error 2)"
  | alreadyThere => "File exists (os error 17)"
  | notFolder => "Not a directory (os error 20)"
  | isFolder => "Is a directory (os error 21)"
  | notText => "stream did not contain valid UTF-8"

end DiskError

/-- Files and folders with their places; each place stands at most once, and the top folder does not
stand at all. -/
structure Disk where
  nodes : List (Place × Node) := []

namespace Disk

/-! ## Paths -/

/-- The names between the slashes of a path. -/
def names (path : String) : List String :=
  ((path.toList.splitOn '/').filter (· != [])).map String.ofList

/-- A path ends with a slash. -/
def endsWithSlash (path : String) : Bool :=
  path.toList.getLast? == some '/'

/-- The parts of a path.  A slash at the end asks for a folder, as a point after it does. -/
def parts (path : String) : List String :=
  if endsWithSlash path then names path ++ ["."] else names path

/-- The place that a part leads to. -/
def step (place : Place) (part : String) : Place :=
  if part = "." then place
  else if part = ".." then place.dropLast
  else place ++ [part]

/-- The path of a name in a folder. -/
def join (folder name : String) : String :=
  if folder.isEmpty || endsWithSlash folder then folder ++ name else folder ++ "/" ++ name

/-! ## Nodes -/

/-- What stands at a place. -/
def node? (disk : Disk) (place : Place) : Option Node :=
  if place.isEmpty then some .folder else (disk.nodes.find? (·.1 == place)).map (·.2)

/-- Put something at a place, in the place of what stood there. -/
def put (disk : Disk) (place : Place) (node : Node) : Disk :=
  ⟨disk.nodes.filter (·.1 != place) ++ [(place, node)]⟩

@[simp]
theorem node?_put_self (disk : Disk) (place : Place) (node : Node) (h : place ≠ []) :
    (disk.put place node).node? place = some node := by
  have hkept : (disk.nodes.filter (·.1 != place)).find? (·.1 == place) = none := by
    simp
  simp [node?, put, h, List.find?_append, hkept]

theorem node?_put_of_ne (disk : Disk) {place other : Place} (node : Node) (h : other ≠ place) :
    (disk.put place node).node? other = disk.node? other := by
  have hkept : (disk.nodes.filter (·.1 != place)).find? (·.1 == other) =
      disk.nodes.find? (·.1 == other) := by
    rw [List.find?_filter]
    congr 1
    funext entry
    by_cases hsame : entry.1 = other <;> simp [hsame, h]
  simp [node?, put, List.find?_append, hkept, h.symm]

/-- Follow a path from a place through folders; at its end anything or nothing may stand. -/
def follow (disk : Disk) (place : Place) : List String → Except DiskError Place
  | [] => .ok place
  | part :: rest =>
    match disk.node? place with
    | some .folder => disk.follow (step place part) rest
    | some (.file _) => .error .notFolder
    | none => .error .notFound

/-! ## Operations -/

/-- The text of a file. -/
def read (disk : Disk) (path : String) : Except DiskError String := do
  if path.isEmpty then throw .notFound
  let place ← disk.follow [] (parts path)
  match disk.node? place with
  | none => throw .notFound
  | some .folder => throw .isFolder
  | some (.file content) =>
    match String.fromUTF8? content with
    | some text => return text
    | none => throw .notText

/-- Make the folders that are missing along a path, from a place on. -/
def makeFoldersFrom (disk : Disk) (place : Place) : List String → Except DiskError Disk
  | [] => .ok disk
  | part :: rest =>
    let next := step place part
    match disk.node? next with
    | some .folder => disk.makeFoldersFrom next rest
    | some (.file _) => .error (if rest.isEmpty then .alreadyThere else .notFolder)
    | none => (disk.put next .folder).makeFoldersFrom next rest

/-- Make a folder and the folders above it, unless they are there. -/
def makeFolders (disk : Disk) (path : String) : Except DiskError Disk :=
  disk.makeFoldersFrom [] (names path)

/-- Write a text to a file. -/
def write (disk : Disk) (path : String) (text : String) : Except DiskError Disk := do
  let place ← disk.follow [] (parts path)
  match disk.node? place with
  | some .folder => throw .isFolder
  | _ => return disk.put place (.file text.toUTF8)

/-- The disk with some files and the folders that they stand in. -/
def ofFiles (files : List (String × ByteArray)) : Disk :=
  files.foldl addFile {}
where
  /-- Add a file. -/
  addFile (disk : Disk) (file : String × ByteArray) : Disk :=
    let place := (parts file.1).foldl step []
    let disk := ((disk.makeFoldersFrom [] place.dropLast).toOption).getD disk
    disk.put place (.file file.2)

/-- The files that are new or have another content than before, with their paths. -/
def changes (before after : Disk) : List (String × ByteArray) :=
  after.nodes.filterMap fun (place, node) =>
    match node with
    | .folder => none
    | .file content =>
      if before.node? place = some node then none else some ("/".intercalate place, content)

end Disk

end ShaderLang
