/-
# The tools

There are two: one generates the layout project of a font, the other edits a font.  A tool
reads files, computes the text that it has to deliver, and only then writes; so a run that
fails has written nothing.

`Tool.runOn` runs a tool on a system, and `Tool.run` in a directory.
-/

import SymbolFont.CommandLine.Options
import SymbolFont.Edit.Standard
import SymbolFont.Layout.Standard

namespace SymbolFont.CommandLine

/-- The settings of the generator. -/
structure GenerateArguments where
  font : String
  /-- A project file, if not the standard project. -/
  project : Option String := none
  /-- The file to be written, if not standard output. -/
  output : Option String := none
  deriving DecidableEq, Repr

/-- The settings of the editor. -/
structure EditArguments where
  input : String
  output : String
  options : EditOptions := {}

/-- What a tool is to do. -/
inductive Task where
  | generate (arguments : GenerateArguments)
  | edit (arguments : EditArguments)

/-- Why a task failed. -/
inductive Failure where
  | font (error : ReadError)
  | project (error : ProjectError)
  | generate (error : GenerateError)
  | edit (error : EditError)
  /-- What was to be delivered could not be written. -/
  | output (fault : FileFault)
  deriving DecidableEq, Repr

/-- The text of a failure. -/
def Failure.message : Failure → String
  | .font error => error.message
  | .project error => error.message
  | .generate error => error.message ""
  | .edit error => error.message
  | .output fault => fault.message

/-- Text to be delivered, to a file or to standard output. -/
structure Product where
  path : Option String
  text : String
  deriving DecidableEq, Repr

/-- What the generator has to deliver. -/
def GenerateArguments.product (read : ReadFile) (a : GenerateArguments) :
    Except Failure Product := do
  let project ← match a.project with
    | some path => (Project.load read path).mapError .project
    | none => Project.standard.mapError .project
  let font ← (Font.load read a.font).mapError .font
  let text ← (project.generate font.charMap).mapError .generate
  return { path := a.output, text }

/-- What the editor has to deliver. -/
def EditArguments.product (read : ReadFile) (a : EditArguments) :
    Except Failure Product := do
  let (edits, _) ← (a.options.edits read).mapError .edit
  let font ← (Font.load read a.input).mapError .font
  let edited ← (Edit.run edits font).mapError .edit
  return { path := some a.output, text := edited.text }

namespace Task

/-- What a task has to deliver. -/
def product (read : ReadFile) : Task → Except Failure Product
  | .generate arguments => arguments.product read
  | .edit arguments => arguments.product read

/-- The files that a task may read. -/
def inputs : Task → List String
  | .generate arguments => arguments.project.toList ++ [arguments.font]
  | .edit arguments => arguments.options.boxTemplate.toList ++ [arguments.input]

/-- The failure of a task whose product could not be written.  A font is a document, and
failing to write one is told like failing to read one. -/
def outputFailure (fault : FileFault) : Task → Failure
  | .generate _ => .output fault
  | .edit _ => .font (.file fault)

end Task

/-- The two tools. -/
inductive Tool where
  | generator
  | editor
  deriving DecidableEq, Repr

namespace Tool

/-- The name that a tool is called by. -/
def name : Tool → String
  | .generator => "generate_vtp"
  | .editor => "rewrite_ttx"

/-- The tool that is called by a name. -/
def ofName? (name : String) : Option Tool :=
  [generator, editor].find? (·.name == name)

/-- What a tool is for. -/
def purpose : Tool → String
  | .generator => "Generate a VOLT project for a SignWriting TTX dump."
  | .editor => "Rewrite a SignWriting TTX dump for compilation."

/-- The options of a tool. -/
def options : Tool → List OptionSpec
  | .generator =>
      [ { long := "ttx", isRequired := true
          purpose := "Path to the input TTX font file" },
        { long := "project", short := some 'p'
          purpose := "A TOML file listing the groups and lookups; " ++
            "defaults to the built-in SignWriting project" },
        { long := "output", short := some 'o'
          purpose := "Write the project here instead of stdout" } ]
  | .editor =>
      [ { long := "input", short := some 'i', isRequired := true
          purpose := "Path to the input TTX font file" },
        { long := "output", short := some 'o', isRequired := true
          purpose := "Path to the output TTX font file" },
        { long := "box-template"
          purpose := "A file containing the TTGlyph to use for the box glyph" },
        { long := "scale", default? := some (Number.display scaleFactor)
          purpose := "The factor applied to every scaled outline"
          accepts := fun value => (Number.read value).isSome } ]

/-- What is printed on asking for help. -/
def help (tool : Tool) : String := helpText tool.name tool.purpose tool.options

/-- What is printed on asking for the version.  The tools have that of the package. -/
def version (_ : Tool) : String := "signwriting-fonts 0.1.0\n"

/-- The task that values of a tool's options set. -/
def task? (tool : Tool) (values : Values) : Option Task :=
  match tool with
  | .generator =>
      (values.lookup "ttx").map fun font =>
        .generate { font, project := values.lookup "project", output := values.lookup "output" }
  | .editor =>
      match values.lookup "input", values.lookup "output" with
      | some input, some output =>
          let scale := ((values.lookup "scale").bind Number.read).getD scaleFactor
          some (.edit
            { input, output, options := { boxTemplate := values.lookup "box-template", scale } })
      | _, _ => none

end Tool

/-- How a run ended and what it printed. -/
structure Report where
  status : UInt32 := 0
  stdout : String := ""
  stderr : String := ""
  deriving DecidableEq, Repr

namespace Report

/-- A run that failed. -/
def ofFailure (failure : Failure) : Report :=
  { status := 1, stderr := "error: " ++ failure.message ++ "\n" }

/-- A run that was not asked for properly.  What was wrong is not told. -/
def ofMisuse (tool : Tool) : Report :=
  { status := 2, stderr := "error: invalid arguments\n\n" ++ usage tool.name tool.options ++
      "\nFor more information, try '--help'.\n" }

end Report

/-- What remains to be done when the arguments have been read. -/
inductive Order where
  | report (report : Report)
  | task (task : Task)

/-- What the arguments of a tool order. -/
def Tool.order (tool : Tool) (arguments : List String) : Order :=
  match request tool.options arguments with
  | .help => .report { stdout := tool.help }
  | .version => .report { stdout := tool.version }
  | .invalid => .report (.ofMisuse tool)
  | .run values =>
      match tool.task? values with
      | some task => .task task
      | none => .report (.ofMisuse tool)

/-- Carry out a task on a system. -/
def Task.runOn {σ : Type} (task : Task) (system : System σ) (s : σ) : Report × σ :=
  match task.product (system.read s) with
  | .error failure => (.ofFailure failure, s)
  | .ok ⟨none, text⟩ =>
      match system.print s text with
      | .ok () => ({ stdout := text }, s)
      | .error fault => (.ofFailure (task.outputFailure fault), s)
  | .ok ⟨some path, text⟩ =>
      match system.write s path text.toUTF8 with
      | .ok written => ({}, written)
      | .error fault => (.ofFailure (task.outputFailure fault), s)

/-- Run a tool on a system. -/
def Tool.runOn {σ : Type} (tool : Tool) (arguments : List String) (system : System σ) (s : σ) :
    Report × σ :=
  match tool.order arguments with
  | .report report => (report, s)
  | .task task => task.runOn system s

/-- Run a tool in a directory. -/
def Tool.run (tool : Tool) (arguments : List String) (d : Directory) : Report × Directory :=
  tool.runOn arguments Directory.system d

end SymbolFont.CommandLine
