set_option autoImplicit false

/-!
# A directory of files

The working directory of a command as a value: its files, by path. A path goes through directories
one name after the other; a directory is there as soon as a file is below it. Outside there are the
directories above the working directory and those of every system, with nothing known to be in them
but a device that takes in everything and holds nothing.

## Main definitions

* `Directory` — the files of a directory.
* `FileError` — why a file cannot be read or written.
* `Directory.read`, `Directory.write` — the contents of a file.
-/

namespace PagedTopK

/-- **Why a file cannot be read or written.** -/
inductive FileError where
  /-- There is nothing of that name. -/
  | notFound
  /-- Something on the way is a file. -/
  | notDirectory
  /-- What is meant is a directory. -/
  | isDirectory
  /-- The path is too long, or a name in it is. -/
  | nameTooLong
  /-- The path has a character that no path may have. -/
  | badPath
deriving DecidableEq

/-- The wording of a cause. -/
def FileError.message : FileError → String
  | notFound => "No such file or directory (os error 2)"
  | notDirectory => "Not a directory (os error 20)"
  | isDirectory => "Is a directory (os error 21)"
  | nameTooLong => "File name too long (os error 36)"
  | badPath => "file name contained an unexpected NUL byte"

/-- **The names on the way to a place**, the last one first. They begin in the working directory, or
with a slash in the root. Two dots stand for the directories above the working directory only. -/
abbrev Trail := List String

/-- **The files of a directory.** -/
structure Directory where
  /-- The files, each with its trail and its contents; of two in one place the first counts. -/
  files : List (Trail × String)
deriving DecidableEq

/-- **What is in a place.** -/
inductive Place where
  /-- A directory. -/
  | directory (trail : Trail)
  /-- A file with its contents. -/
  | file (trail : Trail) (contents : String)
  /-- A device that takes in everything and holds nothing. -/
  | sink
  /-- Nothing. -/
  | absent (trail : Trail)
deriving DecidableEq

namespace Directory

/-! ## Places -/

/-- How many bytes a path must stay below. -/
def pathBound : Nat := 4096

/-- The longest name, in bytes. -/
def maxName : Nat := 255

/-- The directories in the root of every system. -/
def systemDirectories : List String :=
  ["bin", "boot", "dev", "etc", "home", "lib", "media", "mnt", "opt", "proc", "root", "run", "sbin",
    "srv", "sys", "tmp", "usr", "var"]

/-- Whether there is a directory outside of the working directory or as the working directory. -/
def isOuter : Trail → Bool
  | ["/"] => true
  | [name, "/"] => systemDirectories.contains name
  | trail => trail.all (· == "..")

/-- The directory above a directory. Above the root there is the root. -/
def above : Trail → Trail
  | ["/"] => ["/"]
  | [] => [".."]
  | ".." :: rest => ".." :: ".." :: rest
  | _ :: rest => rest

/-- What is at the end of a trail. -/
def entry (d : Directory) (trail : Trail) : Place :=
  if trail = ["null", "dev", "/"] then .sink
  else match d.files.lookup trail with
    | some contents => .file trail contents
    | none =>
      if isOuter trail || d.files.any fun f => trail.isSuffixOf f.1 then .directory trail
      else .absent trail

/-- What a name stands for in a directory. -/
def look (d : Directory) (trail : Trail) (name : String) : Except FileError Place :=
  if name = "." then .ok (.directory trail)
  else if name = ".." then .ok (.directory (above trail))
  else if maxName < name.utf8ByteSize then .error .nameTooLong
  else .ok (d.entry (name :: trail))

/-- Go from a directory into one with a name. -/
def enter (d : Directory) (trail : Trail) (name : String) : Except FileError Trail := do
  match ← d.look trail name with
  | .directory inner => .ok inner
  | .file _ _ | .sink => .error .notDirectory
  | .absent _ => .error .notFound

/-! ## Paths -/

/-- The names of a path. More slashes count as one. -/
def namesOf (path : String) : List String := (path.splitOn "/").filter (· ≠ "")

/-- **The directory where the last name of a path is looked up**, and that name. -/
def approach (d : Directory) (path : String) : Except FileError (Trail × String) :=
  if path.toList.contains '\x00' then .error .badPath
  else if path = "" then .error .notFound
  else if pathBound ≤ path.utf8ByteSize then .error .nameTooLong
  else
    let names := namesOf path
    let start := if path.startsWith "/" then ["/"] else []
    (names.dropLast.foldlM d.enter start).map fun trail => (trail, names.getLast?.getD ".")

/-- **The contents of a file.** A slash may only come after a directory. -/
def read (d : Directory) (path : String) : Except FileError String := do
  let (trail, name) ← d.approach path
  match ← d.look trail name with
  | .directory _ => .error .isDirectory
  | .file _ contents => if path.endsWith "/" then .error .notDirectory else .ok contents
  | .sink => if path.endsWith "/" then .error .notDirectory else .ok ""
  | .absent _ => .error .notFound

/-- **The directory after a file has been written**, in place of an old one or new in a directory
that is there. A path with a slash at the end means a directory, whatever is there. -/
def write (d : Directory) (path contents : String) : Except FileError Directory := do
  let (trail, name) ← d.approach path
  if path.endsWith "/" then .error .isDirectory
  else
    match ← d.look trail name with
    | .directory _ => .error .isDirectory
    | .file place _ | .absent place => .ok ⟨(place, contents) :: d.files⟩
    | .sink => .ok d

/-- The directory after some files have been written in order, as far as they can be. -/
def writeAll (d : Directory) (files : List (String × String)) : Directory :=
  files.foldl (fun d file => (d.write file.1 file.2).toOption.getD d) d

/-- The directory with the given files. The directories for them are there as well. -/
def ofFiles (files : List (String × String)) : Directory :=
  ⟨files.reverse.map fun f => (((namesOf f.1).filter (· ≠ ".")).reverse, f.2)⟩

end Directory

end PagedTopK
