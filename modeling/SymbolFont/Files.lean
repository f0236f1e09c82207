/-
# Files

The faults that reading and writing files can meet, what a program sees of the system that it
runs on, and a working directory of plain files on which the programs of this library can be run
without an operating system.
-/

namespace SymbolFont

/-- Why a file could not be read or written. -/
inductive FileFault where
  | notFound
  | notDirectory
  | isDirectory
  | nameTooLong
  /-- No path holds a NUL character. -/
  | nulInPath
  /-- The content is not text in UTF-8. -/
  | notText
  /-- Any other cause, in the system's words. -/
  | other (text : String)
  deriving DecidableEq, Repr

/-- The text of a fault. -/
def FileFault.message : FileFault → String
  | .notFound => "No such file or directory (os error 2)"
  | .notDirectory => "Not a directory (os error 20)"
  | .isDirectory => "Is a directory (os error 21)"
  | .nameTooLong => "File name too long (os error 36)"
  | .nulInPath => "file name contained an unexpected NUL byte"
  | .notText => "stream did not contain valid UTF-8"
  | .other text => text

/-- How to find the content of a file. -/
abbrev ReadFile := String → Except FileFault ByteArray

/-- The text of a file that has to be text. -/
def ReadFile.text (read : ReadFile) (path : String) : Except FileFault String :=
  match read path with
  | .error fault => .error fault
  | .ok content =>
      match String.fromUTF8? content with
      | some text => .ok text
      | none => .error .notText

/-- A system that programs run on, with files and a standard output.  Reading and printing leave
the files as they are; what is written replaces the content of a single file, or is refused and
then leaves all files as they are. -/
structure System (σ : Type) where
  /-- What tells a file from all others, whatever paths lead to it. -/
  File : Type
  /-- The content of a file, if there is such a file. -/
  content : σ → File → Option ByteArray
  /-- The file that a path leads to, whether or not it is there by now. -/
  file? : σ → String → Option File
  read : σ → ReadFile
  write : σ → String → ByteArray → Except FileFault σ
  /-- Does standard output take the text? -/
  print : σ → String → Except FileFault Unit
  content_of_write {s s' : σ} {path : String} {bytes : ByteArray}
    (done : write s path bytes = .ok s') :
    ∃ file, file? s path = some file ∧ content s' file = some bytes ∧
      ∀ other, other ≠ file → content s' other = content s other

/-- A working directory without subdirectories. -/
structure Directory where
  files : List (String × ByteArray) := []

namespace Directory

/-- What a path leads to. -/
inductive Place where
  /-- The working directory. -/
  | here
  /-- A directory around it. -/
  | elsewhere
  /-- A name in the working directory, which may or may not be that of a file. -/
  | file (name : String)
  | nowhere (fault : FileFault)
  deriving Repr

/-- The greatest length of the name of a file, in bytes. -/
def nameLimit : Nat := 255

/-- The greatest length of a path, in bytes. -/
def pathLimit : Nat := 4095

/-- The content of a file, or why there is none. -/
def content (d : Directory) (name : String) : Except FileFault ByteArray :=
  if nameLimit < name.utf8ByteSize then .error .nameTooLong
  else
    match d.files.lookup name with
    | some content => .ok content
    | none => .error .notFound

/-- Follow one part of a path: `.` is the directory itself, `..` the one around it, and
nothing lies below a plain file.  No file outside the working directory is known. -/
def follow (d : Directory) (place : Place) (part : String) : Place :=
  match place with
  | .here => if part = "." then .here else if part = ".." then .elsewhere else .file part
  | .elsewhere => if part = "." ∨ part = ".." then .elsewhere else .nowhere .notFound
  | .file name =>
      match d.content name with
      | .ok _ => .nowhere .notDirectory
      | .error fault => .nowhere fault
  | .nowhere fault => .nowhere fault

/-- The parts of a path between slashes.  Several slashes count as one. -/
def parts (path : String) : List String :=
  ((path.toList.splitBy fun a b => a ≠ '/' && b ≠ '/').filter (· ≠ ['/'])).map String.ofList

/-- Follow a path. -/
def resolve (d : Directory) (path : String) : Place :=
  if path.toList.contains '\x00' then .nowhere .nulInPath
  else if path.isEmpty then .nowhere .notFound
  else if pathLimit < path.utf8ByteSize then .nowhere .nameTooLong
  else
    let start := if path.toList.head? = some '/' then .elsewhere else .here
    (parts path).foldl d.follow start

/-- Does the path say that it leads to a directory? -/
def wantsDirectory (path : String) : Bool := path.toList.getLast? == some '/'

/-- Read a file. -/
def read (d : Directory) : ReadFile := fun path =>
  match d.resolve path with
  | .here => .error .isDirectory
  | .elsewhere => .error .isDirectory
  | .nowhere fault => .error fault
  | .file name =>
      match d.content name with
      | .ok content => if wantsDirectory path then .error .notDirectory else .ok content
      | .error fault => .error fault

/-- Write a file, replacing one of that name. -/
def write (d : Directory) (path : String) (content : ByteArray) : Except FileFault Directory :=
  match d.resolve path with
  | .here => .error .isDirectory
  | .elsewhere => .error .isDirectory
  | .nowhere fault => .error fault
  | .file name =>
      if wantsDirectory path then .error .isDirectory
      else if nameLimit < name.utf8ByteSize then .error .nameTooLong
      else .ok ⟨(name, content) :: d.files.filter (·.1 ≠ name)⟩

/-- The file that a path leads to. -/
def file? (d : Directory) (path : String) : Option String :=
  match d.resolve path with
  | .file name => some name
  | _ => none

theorem lookup_filter_ne {name other : String} (differ : other ≠ name)
    (files : List (String × ByteArray)) :
    (files.filter (·.1 ≠ name)).lookup other = files.lookup other := by
  induction files with
  | nil => rfl
  | cons file files ih =>
      obtain ⟨own, bytes⟩ := file
      by_cases removed : own = name
      · have passed : (other == own) = false := by rw [removed, beq_false_of_ne differ]
        rw [List.filter_cons_of_neg (by simp [removed]), ih, List.lookup_cons, passed]
      · rw [List.filter_cons_of_pos (by simp [removed]), List.lookup_cons, List.lookup_cons, ih]

/-- Writing replaces the file that the path leads to, and no other. -/
theorem lookup_of_write {d d' : Directory} {path : String} {bytes : ByteArray}
    (done : d.write path bytes = .ok d') :
    ∃ name, d.file? path = some name ∧ d'.files.lookup name = some bytes ∧
      ∀ other, other ≠ name → d'.files.lookup other = d.files.lookup other := by
  unfold write at done
  split at done
  · cases done
  · cases done
  · cases done
  · rename_i name found
    split at done
    · cases done
    · split at done
      · cases done
      · cases done
        refine ⟨name, by rw [file?, found], List.lookup_cons_self, fun other differ => ?_⟩
        have passed : (other == name) = false := beq_false_of_ne differ
        rw [List.lookup_cons, passed]
        exact lookup_filter_ne differ d.files

/-- A directory, with a standard output that takes everything. -/
def system : System Directory where
  File := String
  content d name := d.files.lookup name
  file? := file?
  read := read
  write := write
  print _ _ := .ok ()
  content_of_write := lookup_of_write

end Directory

end SymbolFont
