/-!
# Directories

The texts that a run can read, as a value: the working directory with the files in it and below it.
`Directory.read?` says which text a path names. A path is a list of steps with slashes between them.
A name leads to a file or to a folder, `..` leads to the folder above, and an empty step or `.`
stays in a folder. No step can be taken from a file, so a path to a file does not end in a slash.
-/

namespace DocFilter.CommandLine

/-- The steps of a path, empty ones included. -/
def pathSteps (path : String) : List String := (path.toList.splitOn '/').map String.ofList

/-- Whether a step stays where it is. -/
def staysPut (step : String) : Bool := step == "" || step == "."

/-- A text file. -/
structure TextFile where
  /-- The names that lead to it, from the directory that holds it all. -/
  place : List String
  /-- What it holds. -/
  text : String

/-- A directory, as the files in it and in the folders below it. -/
structure Directory where
  /-- The files. Of two at one place, the first is the one that is there. -/
  files : List TextFile := []

/-- What steps through a directory can lead to. -/
inductive Spot where
  /-- A folder, by the names that lead to it. -/
  | folder (place : List String)
  /-- A file, by what it holds. -/
  | file (text : String)

namespace Directory

/-- Writes a file, in place of one that is there already. -/
def write (d : Directory) (path text : String) : Directory :=
  ⟨⟨(pathSteps path).filter fun step => !staysPut step, text⟩ :: d.files⟩

/-- The directory after some files are written, each by its path and text. -/
def ofFiles (files : List (String × String)) : Directory :=
  files.foldl (fun d (path, text) => d.write path text) {}

/-- What is at a place. A folder is there if something is below it. -/
def spot? (d : Directory) (place : List String) : Option Spot :=
  match d.files.find? fun f => f.place == place with
  | some f => some (.file f.text)
  | none => if d.files.any fun f => place.isPrefixOf f.place then some (.folder place) else none

/-- Where a step leads. The folder above the directory itself is out of sight. -/
def step? (d : Directory) : Spot → String → Option Spot
  | .file _, _ => none
  | .folder place, step =>
    if staysPut step then some (.folder place)
    else if step == ".." then if place.isEmpty then none else some (.folder place.dropLast)
    else d.spot? (place ++ [step])

/-- The text at the end of some steps. -/
def follow? (d : Directory) (steps : List String) : Option String :=
  match steps.foldlM d.step? (.folder []) with
  | some (.file text) => some text
  | _ => none

/-- What a path from the root can read: the null device, which is empty. -/
def root : Directory := ofFiles [("dev/null", "")]

/-- The length, in bytes, from which a path is too long to be followed. -/
def pathLimit : Nat := 4096

/-- The text of the file that a path names. -/
def read? (d : Directory) (path : String) : Option String :=
  if pathLimit ≤ path.utf8ByteSize then none
  else if path.toList.head? == some '/' then root.follow? (pathSteps path)
  else d.follow? (pathSteps path)

end Directory

end DocFilter.CommandLine
