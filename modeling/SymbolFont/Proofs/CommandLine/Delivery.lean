/-
# All or nothing

A run delivers the whole text that its task asks for, or it fails and nothing is left of it: all
files are as before and nothing has been printed.  A run that succeeds changes a single file at
most, the one that the text was to be written to, even if that is one of the files that were read.

What a task has to deliver is told here as a derivation from what the files hold, apart from the
order in which a run looks at them.  Arguments order a task exactly if they give options as these
have to be given.  Then it is the task with their values; all other arguments are in error, unless
they ask for help or for the version.
-/

import Mathlib.Tactic.Common
import SymbolFont.CommandLine.Tool
import SymbolFont.Proofs.CommandLine.Options
import SymbolFont.Proofs.Edit.Reload

namespace SymbolFont.CommandLine

/-- The file that a task writes, if it does not print. -/
def Task.output : Task → Option String
  | .generate arguments => arguments.output
  | .edit arguments => some arguments.output

/-- Is the project the one that the generator is to lay out?  It is the standard project if no
other is given. -/
def GenerateArguments.Describes (read : ReadFile) (a : GenerateArguments) (project : Project) :
    Prop :=
  match a.project with
  | none => Project.standard = .ok project
  | some path => Project.load read path = .ok project

/-- Is the text what the task has to deliver?  The generator delivers the project of the font's
character map, the editor the document of the font after the standard revision. -/
inductive Task.Delivers (read : ReadFile) : Task → String → Prop where
  | generate {a : GenerateArguments} {project : Project} {font : Font Float} {text : String}
      (described : a.Describes read project) (loaded : Font.load read a.font = .ok font)
      (generated : project.generate font.charMap = .ok text) : Delivers read (.generate a) text
  | edit {a : EditArguments} {template : BoxTemplate} {notes : List Event}
      {font edited : Font Float} (templated : a.options.template read = .ok (template, notes))
      (loaded : Font.load read a.input = .ok font)
      (revised : Edit.run (standardEdits template a.options.scale a.options.boxWidth) font =
        .ok edited) : Delivers read (.edit a) edited.text

theorem mapError_eq_ok {ε ε' α : Type} {f : ε → ε'} {result : Except ε α} {a : α} :
    result.mapError f = .ok a ↔ result = .ok a := by
  cases result with
  | error e => exact ⟨fun done => (nomatch done), fun done => (nomatch done)⟩
  | ok b => exact ⟨fun done => by cases done; rfl, fun done => by cases done; rfl⟩

theorem GenerateArguments.product_eq_ok_iff {read : ReadFile} {a : GenerateArguments}
    {p : Product} :
    a.product read = .ok p ↔ p.path = a.output ∧ (Task.generate a).Delivers read p.text := by
  obtain ⟨path, text⟩ := p
  have steps : a.product read = .ok ⟨path, text⟩ ↔ ∃ project, a.Describes read project ∧
      ∃ font, Font.load read a.font = .ok font ∧
        ∃ text', project.generate font.charMap = .ok text' ∧
          (⟨a.output, text'⟩ : Product) = ⟨path, text⟩ := by
    unfold product Describes
    cases a.project with
    | none => simp only [bind_eq_ok, mapError_eq_ok, pure, Except.pure, Except.ok.injEq]
    | some file => simp only [bind_eq_ok, mapError_eq_ok, pure, Except.pure, Except.ok.injEq]
  rw [steps]
  constructor
  · rintro ⟨project, described, font, loaded, text', generated, done⟩
    cases done
    exact ⟨rfl, .generate described loaded generated⟩
  · rintro ⟨rfl, delivers⟩
    cases delivers with
    | generate described loaded generated =>
        exact ⟨_, described, _, loaded, _, generated, rfl⟩

theorem EditArguments.product_eq_ok_iff {read : ReadFile} {a : EditArguments} {p : Product} :
    a.product read = .ok p ↔ p.path = some a.output ∧ (Task.edit a).Delivers read p.text := by
  obtain ⟨path, text⟩ := p
  simp only [product, bind_eq_ok, mapError_eq_ok]
  constructor
  · rintro ⟨⟨edits, notes⟩, prepared, font, loaded, edited, revised, done⟩
    cases done
    unfold EditOptions.edits at prepared
    split at prepared
    · rename_i template events templated
      cases prepared
      exact ⟨rfl, .edit templated loaded revised⟩
    · cases prepared
  · rintro ⟨rfl, delivers⟩
    cases delivers with
    | @edit _ template notes _ _ templated loaded revised =>
        refine ⟨(standardEdits template a.options.scale a.options.boxWidth, notes), ?_, _, loaded,
          _, revised, rfl⟩
        rw [EditOptions.edits, templated]

/-- A task has a product exactly if it has a text to deliver. -/
theorem Task.product_eq_ok_iff {read : ReadFile} {task : Task} {p : Product} :
    task.product read = .ok p ↔ p.path = task.output ∧ task.Delivers read p.text := by
  cases task with
  | generate a => exact a.product_eq_ok_iff
  | edit a => exact a.product_eq_ok_iff

/-! ## Orders -/

/-- Is this the task of the tool, with these values?  What is not given is as users are told. -/
inductive Tool.Sets (values : Values) : Tool → Task → Prop where
  | generate {a : GenerateArguments} (font : ("ttx", a.font) ∈ values)
      (project : ∀ path, a.project = some path ↔ ("project", path) ∈ values)
      (output : ∀ path, a.output = some path ↔ ("output", path) ∈ values) :
      Sets values .generator (.generate a)
  | edit {a : EditArguments} (input : ("input", a.input) ∈ values)
      (output : ("output", a.output) ∈ values)
      (template : ∀ path, a.options.boxTemplate = some path ↔ ("box-template", path) ∈ values)
      (scale : (∃ text, ("scale", text) ∈ values ∧ Number.read text = some a.options.scale) ∨
        (∀ text, ("scale", text) ∉ values) ∧ a.options.scale = scaleFactor)
      (width : a.options.boxWidth = boxWidth) : Sets values .editor (.edit a)

/-- Is this what the arguments order?  Options that are given as they have to be order the task with
their values; otherwise there is no task, and what is reported as a success is help or the version,
which has been asked for. -/
def Tool.Ordered (tool : Tool) (arguments : List String) : Order → Prop
  | .task task =>
      (∃ given : Given, given.WellGiven tool.options arguments) ∧
        ∀ given : Given, given.WellGiven tool.options arguments → tool.Sets given.values task
  | .report report =>
      (∀ given : Given, ¬ given.WellGiven tool.options arguments) ∧
        (report.status = 0 →
          report = { stdout := tool.help } ∧ (∃ a ∈ arguments, AsksFor "help" 'h' a) ∨
          report = { stdout := tool.version } ∧ ∃ a ∈ arguments, AsksFor "version" 'V' a)

theorem Tool.distinct_options (tool : Tool) : Distinct tool.options := by
  cases tool with
  | generator => exact ⟨by decide, by decide, by decide, by decide⟩
  | editor => exact ⟨by decide, by decide, by decide, by decide⟩

/-- A factor that is taken can be read. -/
theorem Tool.isSome_read_of_accepts {option : OptionSpec} (mem : option ∈ Tool.editor.options)
    (named : option.long = "scale") {text : String} (accepted : option.accepts text = true) :
    (Number.read text).isSome = true := by
  simp only [Tool.options, List.mem_cons, List.not_mem_nil, or_false] at mem
  rcases mem with rfl | rfl | rfl | rfl
  · exact absurd named (by decide)
  · exact absurd named (by decide)
  · exact absurd named (by decide)
  · exact accepted

/-- Options that are given as they have to be set a task. -/
theorem Tool.exists_task {tool : Tool} {given : Given} {arguments : List String}
    (well : given.WellGiven tool.options arguments) :
    ∃ task, tool.task? given.values.reverse = some task ∧ tool.Sets given.values task := by
  have required {option : OptionSpec} (mem : option ∈ tool.options)
      (needed : option.isRequired = true) : ∃ value, (option.long, value) ∈ given.values := by
    obtain ⟨⟨_, value⟩, found, rfl⟩ := List.mem_map.mp (well.complete option mem needed)
    exact ⟨value, found⟩
  cases tool with
  | generator =>
      obtain ⟨font, font_given⟩ := required List.mem_cons_self rfl
      refine ⟨_, by rw [task?, well.lookup_eq_some_iff.mpr font_given]; rfl, ?_⟩
      exact .generate font_given (fun _ => well.lookup_eq_some_iff) fun _ =>
        well.lookup_eq_some_iff
  | editor =>
      obtain ⟨input, input_given⟩ := required List.mem_cons_self rfl
      obtain ⟨output, output_given⟩ := required (List.mem_cons_of_mem _ List.mem_cons_self) rfl
      refine ⟨_, by rw [task?, well.lookup_eq_some_iff.mpr input_given,
        well.lookup_eq_some_iff.mpr output_given], ?_⟩
      refine .edit input_given output_given (fun _ => well.lookup_eq_some_iff) ?_ rfl
      cases found : given.values.reverse.lookup "scale" with
      | none =>
          refine .inr ⟨fun text mem => ?_, rfl⟩
          rw [well.lookup_eq_some_iff.mpr mem] at found
          cases found
      | some text =>
          obtain ⟨⟨option, _⟩, mem, same⟩ := List.mem_map.mp (well.lookup_eq_some_iff.mp found)
          obtain ⟨named, rfl⟩ := Prod.mk.inj same
          obtain ⟨scale, read⟩ := Option.isSome_iff_exists.mp
            (isSome_read_of_accepts (well.known _ mem) named (well.accepted _ mem))
          refine .inl ⟨_, well.lookup_eq_some_iff.mp found, ?_⟩
          rw [Option.bind_some, read]
          rfl

/-- How every reading of arguments ends. -/
theorem Tool.ordered_order (tool : Tool) (arguments : List String) :
    tool.Ordered arguments (tool.order arguments) := by
  have distinct := tool.distinct_options
  have asked : (request tool.options arguments).Asked arguments := asked_readArguments
  have unordered (other : ∀ values, request tool.options arguments ≠ .run values) (given : Given) :
      ¬ given.WellGiven tool.options arguments := fun well =>
    other _ (distinct.request_eq_run_iff.mpr ⟨given, well, rfl⟩)
  rw [order]
  cases requested : request tool.options arguments with
  | run values =>
      obtain ⟨given, well, rfl⟩ := distinct.request_eq_run_iff.mp requested
      obtain ⟨task, set, sets⟩ := exists_task well
      simp only [set]
      exact ⟨⟨given, well⟩, fun other other_well => distinct.values_unique well other_well ▸ sets⟩
  | help =>
      rw [requested] at asked unordered
      exact ⟨unordered (by simp), fun _ => .inl ⟨rfl, asked⟩⟩
  | version =>
      rw [requested] at asked unordered
      exact ⟨unordered (by simp), fun _ => .inr ⟨rfl, asked⟩⟩
  | invalid =>
      rw [requested] at unordered
      exact ⟨unordered (by simp), fun done => by cases done⟩

/-- Options that are given as they have to be order their task. -/
theorem Tool.exists_order_eq_task {tool : Tool} {given : Given} {arguments : List String}
    (well : given.WellGiven tool.options arguments) :
    ∃ task, tool.order arguments = .task task ∧ tool.Sets given.values task := by
  have ordered := tool.ordered_order arguments
  cases taken : tool.order arguments with
  | report report =>
      rw [taken] at ordered
      exact absurd well (ordered.1 given)
  | task task =>
      rw [taken] at ordered
      exact ⟨task, rfl, ordered.2 given well⟩

/-! ## Runs -/

section Runs

variable {σ : Type}

/-- Is this what a run leaves behind that has delivered the text: what was printed, and the state of
the system afterwards? -/
def Delivered (system : System σ) (s : σ) (text : String) : Option String → String → σ → Prop
  | none, printed, after => printed = text ∧ after = s
  | some path, printed, after =>
      printed = "" ∧ ∃ file, system.file? s path = some file ∧
        system.content after file = some text.toUTF8 ∧
        ∀ other, other ≠ file → system.content after other = system.content s other

/-- Does the system take the text where it is to be delivered? -/
def Takes (system : System σ) (s : σ) (text : String) : Option String → Prop
  | none => system.print s text = .ok ()
  | some path => ∃ after, system.write s path text.toUTF8 = .ok after

/-- Is this how a run ends, all or nothing?  It succeeds exactly if there is a text to deliver that
the system takes. -/
structure Task.Complete (task : Task) (system : System σ) (s : σ) (report : Report) (after : σ) :
    Prop where
  succeeds_iff : report.status = 0 ↔
    ∃ text, task.Delivers (system.read s) text ∧ Takes system s text task.output
  delivered : report.status = 0 → ∃ text, task.Delivers (system.read s) text ∧
    Delivered system s text task.output report.stdout after
  nothing : report.status ≠ 0 → after = s ∧ report.stdout = ""

theorem Report.status_ofFailure_ne_zero (failure : Failure) : (ofFailure failure).status ≠ 0 :=
  fun done => by cases done

/-- A run that fails with the system as it was. -/
theorem Task.Complete.of_failure {task : Task} {system : System σ} {s : σ} (failure : Failure)
    (refused : ¬ ∃ text, task.Delivers (system.read s) text ∧ Takes system s text task.output) :
    task.Complete system s (.ofFailure failure) s where
  succeeds_iff := iff_of_false (Report.status_ofFailure_ne_zero failure) refused
  delivered done := absurd done (Report.status_ofFailure_ne_zero failure)
  nothing _ := ⟨rfl, rfl⟩

/-- A run that delivers a text which the system takes. -/
theorem Task.Complete.of_delivery {task : Task} {system : System σ} {s after : σ} {text : String}
    {printed : String} (delivers : task.Delivers (system.read s) text)
    (takes : Takes system s text task.output)
    (delivered : Delivered system s text task.output printed after) :
    task.Complete system s { stdout := printed } after where
  succeeds_iff := iff_of_true rfl ⟨text, delivers, takes⟩
  delivered _ := ⟨text, delivers, delivered⟩
  nothing failed := absurd rfl failed

/-- A task delivers one text at most. -/
theorem Task.Delivers.unique {read : ReadFile} {task : Task} {text text' : String}
    (one : task.Delivers read text) (other : task.Delivers read text') : text = text' := by
  have same : (.ok ⟨task.output, text⟩ : Except Failure Product) = .ok ⟨task.output, text'⟩ :=
    (Task.product_eq_ok_iff.2 ⟨rfl, one⟩).symm.trans (Task.product_eq_ok_iff.2 ⟨rfl, other⟩)
  cases same
  rfl

/-- How every run of a task ends. -/
theorem Task.complete_runOn (task : Task) (system : System σ) (s : σ) :
    task.Complete system s (task.runOn system s).1 (task.runOn system s).2 := by
  cases made : task.product (system.read s) with
  | error failure =>
      rw [runOn, made]
      refine .of_failure failure fun taken => ?_
      obtain ⟨text, delivers, -⟩ := taken
      rw [product_eq_ok_iff (p := ⟨task.output, text⟩) |>.2 ⟨rfl, delivers⟩] at made
      cases made
  | ok product =>
      obtain ⟨path, text⟩ := product
      obtain ⟨(target : path = task.output), (delivers : task.Delivers _ text)⟩ :=
        product_eq_ok_iff.1 made
      -- if the system does not take this text, there is no other for it to take
      have refused (failure : Failure) (untaken : ¬ Takes system s text path) :
          task.Complete system s (.ofFailure failure) s := by
        refine .of_failure failure fun taken => ?_
        obtain ⟨text', delivers', takes⟩ := taken
        cases delivers'.unique delivers
        exact untaken (target ▸ takes)
      rw [runOn, made]
      cases path with
      | none =>
          cases printed : system.print s text with
          | error fault =>
              simp only [printed]
              exact refused _ fun takes => by rw [Takes, printed] at takes; cases takes
          | ok =>
              simp only [printed]
              exact .of_delivery delivers (target ▸ printed) (target ▸ ⟨rfl, rfl⟩)
      | some path =>
          cases written : system.write s path text.toUTF8 with
          | error fault =>
              simp only [written]
              exact refused _ fun ⟨after, taken⟩ => by rw [written] at taken; cases taken
          | ok after =>
              simp only [written]
              exact .of_delivery delivers (target ▸ ⟨after, written⟩)
                (target ▸ ⟨rfl, system.content_of_write written⟩)

/-- A report that is made without a task.  Help and the version succeed; misuse prints nothing to
standard output. -/
theorem Tool.stdout_of_order {tool : Tool} {arguments : List String} {report : Report}
    (ordered : tool.order arguments = .report report) (failed : report.status ≠ 0) :
    report.stdout = "" := by
  unfold order at ordered
  split at ordered
  · cases ordered
    exact absurd rfl failed
  · cases ordered
    exact absurd rfl failed
  · cases ordered
    rfl
  · split at ordered
    · cases ordered
    · cases ordered
      rfl

/-- Every run of a tool, on any system and whatever its arguments are, is all or nothing: it is the
run of the task that the arguments order, which delivers its text or leaves the system as it was, or
there is nothing to be done and the system stays as it was. -/
theorem all_or_nothing (system : System σ) (s : σ) :
    (∀ task : Task, task.Complete system s (task.runOn system s).1 (task.runOn system s).2) ∧
    (∀ (tool : Tool) (arguments : List String), tool.Ordered arguments (tool.order arguments)) ∧
    ∀ (tool : Tool) (arguments : List String),
      match tool.order arguments with
      | .task task => tool.runOn arguments system s = task.runOn system s
      | .report report =>
          tool.runOn arguments system s = (report, s) ∧
            (report.status ≠ 0 → report.stdout = "") := by
  refine ⟨fun task => task.complete_runOn system s, Tool.ordered_order, fun tool arguments => ?_⟩
  cases ordered : tool.order arguments with
  | task task => simp only [Tool.runOn, ordered]
  | report report =>
      refine ⟨?_, Tool.stdout_of_order ordered⟩
      simp only [Tool.runOn, ordered]

end Runs

/-! ## A font that is overwritten -/

/-- The text of a font with a box. -/
def boxedFontText : String :=
  "<ttFont><cmap><cmap_format_12><map code='0x40' name='SW M'/></cmap_format_12></cmap>" ++
  "<glyf><TTGlyph name='SW M'/></glyf><hmtx><mtx name='SW M' width='0' lsb='0'/></hmtx></ttFont>"

/-- A directory with the font and a template for its box. -/
def fontDirectory : Directory :=
  ⟨[("font.ttx", boxedFontText.toUTF8), ("box.xml", sampleTemplateText.toUTF8)]⟩

/-- The options of a revision with this template that is written over the font. -/
def overwriting (template : String) : Given :=
  [(Tool.editor.options[0], "font.ttx"), (Tool.editor.options[1], "./font.ttx"),
    (Tool.editor.options[2], template), (Tool.editor.options[3], "2")]

/-- The options as they are given. -/
def overwritingArguments (template : String) : List String :=
  ["-ifont.ttx", "--output", "./font.ttx", "--box-template=" ++ template, "--scale", "2"]

theorem wellGiven_overwriting {template : String} (nonempty : template ≠ "") :
    (overwriting template).WellGiven Tool.editor.options (overwritingArguments template) where
  known := by simp [overwriting]
  accepted := by
    have factor : (Number.read "2").isSome = true := by decide +kernel
    simp [overwriting, Tool.options, factor, nonempty]
  once := by
    have names : (overwriting template).values.map Prod.fst =
      ["input", "output", "box-template", "scale"] := rfl
    rw [names]
    decide
  complete := by simp [overwriting, Tool.options]
  written := by
    have input : Tool.editor.options[0].Writes "font.ttx" ["-ifont.ttx"] :=
      .shortJoined (show _ = some 'i' from rfl) (by decide) (by decide)
    have output : Tool.editor.options[1].Writes "./font.ttx" ["--output", "./font.ttx"] :=
      .long (.inr (by decide))
    have box : Tool.editor.options[2].Writes template ["--box-template=" ++ template] :=
      .longJoined
    have scale : Tool.editor.options[3].Writes "2" ["--scale", "2"] := .long (.inr (by decide))
    exact .cons input (.cons output (.cons box (.cons scale .nil)))

/-- The font is overwritten by its revision with the template for its box, and the template stays as
it is.  If there is no template, nothing happens. -/
theorem all_or_nothing_of_overwriting :
    (∃ task text after,
      Tool.editor.run (overwritingArguments "box.xml") fontDirectory = ({}, after) ∧
      Tool.editor.Sets (overwriting "box.xml").values task ∧
      task.Delivers fontDirectory.read text ∧
      after.files.lookup "font.ttx" = some text.toUTF8 ∧
      after.files.lookup "box.xml" = fontDirectory.files.lookup "box.xml") ∧
    ∃ report, report.status = 1 ∧ report.stdout = "" ∧
      Tool.editor.run (overwritingArguments "none.xml") fontDirectory =
        (report, fontDirectory) := by
  obtain ⟨complete, -, runs⟩ := all_or_nothing Directory.system fontDirectory
  constructor
  · have done : (Tool.editor.run (overwritingArguments "box.xml") fontDirectory).1 = {} := by
      decide +kernel
    obtain ⟨task, order, sets⟩ :=
      Tool.exists_order_eq_task (wellGiven_overwriting (by decide : "box.xml" ≠ ""))
    have run := runs .editor (overwritingArguments "box.xml")
    rw [order] at run
    rw [Tool.run, run] at done ⊢
    obtain ⟨text, delivers, delivered⟩ := (complete task).delivered (by rw [done])
    have target : task.output = some "./font.ttx" := by
      cases sets with
      | edit _ output _ _ _ => simpa [overwriting, Tool.options, Task.output] using output
    have place : fontDirectory.file? "./font.ttx" = some "font.ttx" := by decide +kernel
    rw [target] at delivered
    obtain ⟨-, file, found, written, others⟩ := delivered
    obtain rfl : "font.ttx" = file := Option.some.inj (place.symm.trans found)
    exact ⟨task, text, _, Prod.ext done rfl, sets, delivers, written,
      others "box.xml" (show ("box.xml" : String) ≠ "font.ttx" by decide)⟩
  · have failed :
        (Tool.editor.run (overwritingArguments "none.xml") fontDirectory).1.status = 1 := by
      decide +kernel
    obtain ⟨task, order, -⟩ :=
      Tool.exists_order_eq_task (wellGiven_overwriting (by decide : "none.xml" ≠ ""))
    have run := runs .editor (overwritingArguments "none.xml")
    rw [order] at run
    rw [Tool.run, run] at failed ⊢
    obtain ⟨after, printed⟩ := (complete task).nothing (by rw [failed]; decide)
    exact ⟨_, failed, printed, Prod.ext rfl after⟩

end SymbolFont.CommandLine
