/-! # Files by path

What reading a file by its path comes to: its bytes, or the reason why it cannot be read. A folder
of files answers for the paths that stay inside it; of what is outside only the folders above it are
known.
-/

namespace KeyedJobs

inductive FileFault where
  | notFound
  | notADirectory
  | isADirectory
  | nameTooLong
  | nulInPath
  | notText
  /-- Some other reason, by the system's text for it. -/
  | other (message : String)
  deriving Repr, DecidableEq

def FileFault.text : FileFault → String
  | notFound => "No such file or directory (os error 2)"
  | notADirectory => "Not a directory (os error 20)"
  | isADirectory => "Is a directory (os error 21)"
  | nameTooLong => "File name too long (os error 36)"
  | nulInPath => "file name contained an unexpected NUL byte"
  | notText => "stream did not contain valid UTF-8"
  | other message => message

/-- How files are read: the bytes by the path. -/
abbrev Files := String → Except FileFault ByteArray

/-- The text that bytes encode. -/
def textOf (bytes : ByteArray) : Except FileFault String :=
  match String.fromUTF8? bytes with
  | some text => .ok text
  | none => .error .notText

/-- Reads a file as text. -/
def Files.text (files : Files) (path : String) : Except FileFault String := do
  textOf (← files path)

/-- What a folder holds under a name. Folders in it are empty. -/
inductive Folder.Entry where
  | file (bytes : ByteArray)
  | folder

structure Folder where
  entries : List (String × Folder.Entry)

namespace Folder

/-- Where a path has led so far. -/
inductive Place where
  /-- Above the folder, by so many steps; it is the folder itself without any. -/
  | above (steps : Nat)
  /-- A folder in the folder. -/
  | inner
  | file (bytes : ByteArray)

/-- Goes from a place to what it holds under a name, or to the folder around it. -/
def enter (folder : Folder) (name : String) : Place → Except FileFault Place
  | .file _ => .error .notADirectory
  | .inner => if name = ".." then .ok (.above 0) else .error .notFound
  | .above steps =>
      if name = ".." then .ok (.above (steps + 1))
      else match (if steps = 0 then folder.entries.lookup name else none) with
        | some (.file bytes) => .ok (.file bytes)
        | some .folder => .ok .inner
        | none => .error .notFound

/-- How many bytes a name may have. -/
def longestName : Nat := 255

/-- Follows one part of a path. An empty part, as between two slashes, stays where it is, which has
to be a folder. -/
def follow (folder : Folder) (place : Place) (part : String) : Except FileFault Place :=
  match place with
  | .file _ => .error .notADirectory
  | place =>
      if part = "" ∨ part = "." then .ok place
      else if longestName < part.utf8ByteSize then .error .nameTooLong
      else folder.enter part place

/-- How many bytes a path may have. -/
def longestPath : Nat := 4095

/-- Reads a file of the folder. A path that starts at the root leads outside. -/
def files (folder : Folder) : Files := fun path => do
  if path.contains '\x00' then throw .nulInPath
  if path = "" then throw .notFound
  if longestPath < path.utf8ByteSize then throw .nameTooLong
  let origin := if path.startsWith "/" then 1 else 0
  match ← (path.splitOn "/").foldlM folder.follow (.above origin) with
  | .file bytes => return bytes
  | _ => throw .isADirectory

end Folder

end KeyedJobs
