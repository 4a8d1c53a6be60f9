import Solfege.Text.Quoted

/-! Where files are written: what a disk has to say against a path, if anything. A path is followed
part by part from the root or from the working directory to a directory, in which its last part
names the file. -/
namespace Solfege.CommandLine

/-- The complaint about writing a file at a path, none when it can be written. -/
abbrev Disk := String → Option String

inductive Refusal
  | missing
  | notDirectory
  | isDirectory
  | noSpace
  | tooLong
deriving DecidableEq

namespace Refusal

def number : Refusal → Nat
  | .missing => 2
  | .notDirectory => 20
  | .isDirectory => 21
  | .noSpace => 28
  | .tooLong => 36

def reason : Refusal → String
  | .missing => "No such file or directory"
  | .notDirectory => "Not a directory"
  | .isDirectory => "Is a directory"
  | .noSpace => "No space left on device"
  | .tooLong => "File name too long"

/-- The text of a refusal. The path is told unless the file was opened already. -/
def complaint (path : String) (refusal : Refusal) : String :=
  "[Errno " ++ toString refusal.number ++ "] " ++ refusal.reason ++
    (if refusal = .noSpace then "" else ": " ++ Text.quoted path)

end Refusal

/-- A place on the disk, as the names on the way to it from the root. -/
abbrev Place := List String

inductive Item
  | directory
  /-- takes whatever is written -/
  | sink
  /-- takes nothing -/
  | full
deriving DecidableEq

def rootDirectories : List String :=
  ["bin", "boot", "dev", "etc", "home", "lib", "lib64", "media", "mnt", "opt", "proc", "root",
    "run", "sbin", "srv", "sys", "tmp", "usr", "var"]

/-- The working directory. It is among the temporary files under a name that no path can spell. -/
def working : Place := ["tmp", ""]

/-- What is at a place of a disk whose working directory is empty. -/
def itemAt? : Place → Option Item
  | [] => some .directory
  | [name] => if rootDirectories.contains name then some .directory else none
  | ["dev", "null"] => some .sink
  | ["dev", "full"] => some .full
  | place => if place = working then some .directory else none

def pathParts (path : String) : List String := (path.splitOn "/").filter (· ≠ "")

def isTooLong (part : String) : Bool := 255 < part.utf8ByteSize

def enter (place : Place) (part : String) : Except Refusal Place :=
  let next :=
    if part = "." then place else if part = ".." then place.dropLast else place ++ [part]
  if isTooLong part then throw .tooLong
  else match itemAt? next with
    | some .directory => return next
    | some _ => throw .notDirectory
    | none => throw .missing

/-- The place at which a file of a path is written. -/
def target (path : String) : Except Refusal Place := do
  if path = "" then throw .missing
  if 4096 ≤ path.utf8ByteSize then throw .tooLong
  let parts := pathParts path
  let parent ← parts.dropLast.foldlM enter (if path.front = '/' then [] else working)
  let last := parts.getLastD "."
  if last = "." ∨ last = ".." ∨ path.back = '/' then throw .isDirectory
  if isTooLong last then throw .tooLong
  match itemAt? (parent ++ [last]) with
  | some .directory => throw .isDirectory
  | some .full => throw .noSpace
  | _ => return parent ++ [last]

def emptyDirectory : Disk := fun path =>
  match target path with
  | .ok _ => none
  | .error refusal => some (refusal.complaint path)

/-- The name that a file of a path has in the working directory; none when it is not there. -/
def nameHere? (path : String) : Option String :=
  match target path with
  | .ok place => if place.dropLast = working then place.getLast? else none
  | .error _ => none

end Solfege.CommandLine
