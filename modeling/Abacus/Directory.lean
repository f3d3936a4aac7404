/-!
# Directories

The files that a command can read. Paths are relative to a working directory, whose contents are
given by the names of its files and directories.

Model of the files as `run_file` finds them by `read_to_string`.

Out of scope: links, permissions, and files above the working directory, where there are only
directories.

Headlines: `Directory.read_eq_ok`, the name of a file reads as its bytes; `Directory.read_eq_error`,
nothing can be read behind the name of a file; `Directory.follow_above_ne_ok`, paths that lead out of
the working directory lead to no file.
-/

namespace Abacus

/-- Why a file cannot be read. -/
inductive FileError where
  | notFound
  | isDirectory
  | notDirectory
  /-- The file holds something else than text. -/
  | invalidText
  /-- Any other cause, as the system describes it. -/
  | other (text : String)
  deriving DecidableEq, Repr

/-- The text of a failed reading. -/
def FileError.message : FileError → String
  | notFound => "No such file or directory (os error 2)"
  | isDirectory => "Is a directory (os error 21)"
  | notDirectory => "Not a directory (os error 20)"
  | invalidText => "stream did not contain valid UTF-8"
  | other text => text

/-- The contents of a working directory. Names are split at slashes; a directory has no bytes. -/
structure Directory where
  entries : List (List String × Option ByteArray)

namespace Directory

/-- The names in a path. -/
def names (path : String) : List String :=
  (path.toList.splitOn '/').map String.ofList

/-- The working directory with the given files and, where there are no bytes, directories. -/
def ofFiles (files : List (String × Option ByteArray)) : Directory :=
  ⟨files.map fun f => (names f.1, f.2)⟩

/-- A place that a path leads to. -/
inductive Place where
  /-- The place with these names from the working directory on. -/
  | inside (names : List String)
  /-- A directory that the working directory lies in. What else is in it is not known. -/
  | above

/-- The directory around a place. -/
def Place.parent : Place → Place
  | inside [] => above
  | inside (name :: names) => inside (name :: names).dropLast
  | above => above

/-- The place with the given name in a directory. Nothing can be named above the working
directory. -/
def Place.child? : Place → String → Option Place
  | inside names, name => some (inside (names ++ [name]))
  | above, _ => none

/-- What stands at a place: a file with its bytes, a directory without, or nothing. -/
def find? (d : Directory) : Place → Option (Option ByteArray)
  | .above | .inside [] => some none
  | .inside names =>
    match d.entries.find? fun e => e.1 = names with
    | some e => some e.2
    | none => if d.entries.any fun e => names.isPrefixOf e.1 then some none else none

/-- Follow the names of a path from a place. Whatever has names behind it has to be a directory. -/
def follow (d : Directory) (place : Place) : List String → Except FileError ByteArray
  | [] =>
    match d.find? place with
    | some (some bytes) => .ok bytes
    | some none => .error .isDirectory
    | none => .error .notFound
  | name :: names =>
    match d.find? place with
    | some (some _) => .error .notDirectory
    | some none =>
      if name = "" ∨ name = "." then follow d place names
      else if name = ".." then follow d place.parent names
      else
        match place.child? name with
        | some place => follow d place names
        | none => .error .notFound
    | none => .error .notFound

/-- The bytes of the file at a path. A path that starts with a slash starts at the top of all
directories. -/
def read (d : Directory) (path : String) : Except FileError ByteArray :=
  match names path with
  | [""] => .error .notFound
  | "" :: names => d.follow .above names
  | names => d.follow (.inside []) names

/-- **The name of a file reads as its bytes.** -/
theorem read_eq_ok {d : Directory} {path name : String} {bytes : ByteArray}
    (hp : names path = [name]) (hn : name ≠ "" ∧ name ≠ "." ∧ name ≠ "..")
    (h : d.find? (.inside [name]) = some (some bytes)) : d.read path = .ok bytes := by
  simp [read, hp, follow, Place.child?, hn, h, show d.find? (.inside []) = some none from rfl]

/-- **Nothing can be read behind the name of a file.** -/
theorem read_eq_error {d : Directory} {path name behind : String} {bytes : ByteArray}
    (hp : names path = [name, behind]) (hn : name ≠ "" ∧ name ≠ "." ∧ name ≠ "..")
    (h : d.find? (.inside [name]) = some (some bytes)) : d.read path = .error .notDirectory := by
  simp [read, hp, follow, Place.child?, hn, h, show d.find? (.inside []) = some none from rfl]

/-- **Above the working directory there is nothing to read.** -/
theorem follow_above_ne_ok (d : Directory) (names : List String) (bytes : ByteArray) :
    d.follow .above names ≠ .ok bytes := by
  have hf : d.find? .above = some none := rfl
  induction names with
  | nil => simp [follow, hf]
  | cons name names ih =>
    simp only [follow, hf]
    split
    · exact ih
    · split
      · exact ih
      · simp [Place.child?]

end Directory

/-- The text of a file. -/
def FileError.decode (bytes : ByteArray) : Except FileError String :=
  match String.fromUTF8? bytes with
  | some text => .ok text
  | none => .error .invalidText

end Abacus
