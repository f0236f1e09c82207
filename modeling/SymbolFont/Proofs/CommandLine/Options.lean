/-
# Arguments that give options

Arguments ask for a run exactly if they give options with values: each option in one of the ways
in which it may be written and not twice, each value one that its option takes, and all that are
required among them.  The run has these values.  Help and the version are printed for nobody who
has not asked.

What the arguments give is told here option by option, apart from how a single argument is taken
to pieces.
-/

import Mathlib.Data.List.Basic
import Mathlib.Data.List.Nodup
import Mathlib.Data.List.TakeWhile
import SymbolFont.CommandLine.Options

namespace SymbolFont.CommandLine

/-- Can the value be an argument of its own?  It does not begin with a dash, unless it is one. -/
def StandsAlone (value : String) : Prop := value = "-" ∨ ¬ ['-'] <+: value.toList

/-- Do the arguments write the option with the value?  A value that is joined to a letter is not
empty, and if it begins with an equals sign, this is written twice. -/
inductive OptionSpec.Writes (option : OptionSpec) (value : String) : List String → Prop where
  | long (alone : StandsAlone value) : Writes option value ["--" ++ option.long, value]
  | longJoined : Writes option value ["--" ++ option.long ++ "=" ++ value]
  | short {letter : Char} (own : option.short = some letter) (alone : StandsAlone value) :
      Writes option value ["-" ++ String.singleton letter, value]
  | shortJoined {letter : Char} (own : option.short = some letter) (nonempty : value ≠ "")
      (unmarked : ¬ ['='] <+: value.toList) :
      Writes option value ["-" ++ String.singleton letter ++ value]
  | shortMarked {letter : Char} (own : option.short = some letter) :
      Writes option value ["-" ++ String.singleton letter ++ "=" ++ value]

/-- Options with values, in the order in which they are given. -/
abbrev Given := List (OptionSpec × String)

/-- The values that are given, by the long names of their options. -/
def Given.values (given : Given) : Values := given.map fun (option, value) => (option.long, value)

@[simp]
theorem Given.values_nil : Given.values [] = [] := rfl

@[simp]
theorem Given.values_cons (option : OptionSpec) (value : String) (given : Given) :
    Given.values ((option, value) :: given) = (option.long, value) :: Given.values given := rfl

/-- Do the arguments write these options one behind the other?  Two dashes may follow. -/
inductive Given.Written : Given → List String → Prop where
  | nil : Written [] []
  | stop : Written [] ["--"]
  | cons {option : OptionSpec} {value : String} {front rest : List String} {given : Given}
      (first : option.Writes value front) (others : Written given rest) :
      Written ((option, value) :: given) (front ++ rest)

/-- Are these options given by the arguments, and as they have to be? -/
structure Given.WellGiven (options : List OptionSpec) (given : Given) (arguments : List String) :
    Prop where
  known : ∀ pair ∈ given, pair.1 ∈ options
  accepted : ∀ pair ∈ given, pair.1.accepts pair.2 = true
  once : (given.values.map Prod.fst).Nodup
  complete : ∀ option ∈ options, option.isRequired = true →
    option.long ∈ given.values.map Prod.fst
  written : given.Written arguments

/-- Does the argument ask for help or for the version, which have this name and this letter? -/
def AsksFor (name : String) (letter : Char) (argument : String) : Prop :=
  argument = "--" ++ name ∨ ['-', letter] <+: argument.toList

/-- Can options be told from each other, and from two dashes? -/
structure Distinct (options : List OptionSpec) : Prop where
  longs : options.Pairwise fun one other => one.long ≠ other.long
  shorts : options.Pairwise fun one other => one.short = none ∨ one.short ≠ other.short
  named : ∀ option ∈ options, option.long ≠ "" ∧ '=' ∉ option.long.toList
  lettered : ∀ option ∈ options, option.short ≠ some '-'

/-! ## Single arguments -/

/-- Of things that differ in what is asked for, the one that has it is found. -/
theorem find?_eq_some_of_pairwise {α : Type} {p : α → Bool} {xs : List α} {x : α}
    (differ : xs.Pairwise fun a b => p a = true → p b = false) (mem : x ∈ xs)
    (own : p x = true) : xs.find? p = some x := by
  induction xs with
  | nil => cases mem
  | cons y ys ih =>
      obtain ⟨first, rest⟩ := List.pairwise_cons.mp differ
      rcases List.mem_cons.mp mem with rfl | mem
      · rw [List.find?_cons_of_pos own]
      · have other : p y = true → False := fun holds => by
          rw [first x mem holds] at own
          cases own
        rw [List.find?_cons_of_neg other, ih rest mem]

section Single

variable {options : List OptionSpec} {option : OptionSpec} {argument value : String}

theorem Distinct.find?_long (distinct : Distinct options) (mem : option ∈ options) :
    options.find? (·.long == option.long) = some option := by
  refine find?_eq_some_of_pairwise (distinct.longs.imp fun differ own => ?_) mem
    (beq_self_eq_true _)
  exact beq_false_of_ne fun same => differ ((eq_of_beq own).trans same.symm)

theorem Distinct.find?_short (distinct : Distinct options) (mem : option ∈ options)
    {letter : Char} (own : option.short = some letter) :
    options.find? (·.short == some letter) = some option := by
  refine find?_eq_some_of_pairwise (distinct.shorts.imp fun differ own => ?_) mem
    (by rw [own, beq_self_eq_true])
  refine beq_false_of_ne fun same => ?_
  rw [eq_of_beq own, same] at differ
  simp at differ

theorem isSeparateValue_eq_true_iff : isSeparateValue value = true ↔ StandsAlone value := by
  rw [isSeparateValue, StandsAlone, Bool.or_eq_true, beq_iff_eq, bne_iff_ne, or_comm]
  cases value.toList <;> simp [List.cons_prefix_cons, eq_comm]

/-- Behind two dashes stands a long option. -/
theorem classify_of_dashes {body : List Char} (nonempty : body ≠ [])
    (chars : argument.toList = '-' :: '-' :: body) :
    classify options argument = longArgument options body := by
  rw [classify, chars]
  cases body with
  | nil => exact absurd rfl nonempty
  | cons c body => rfl

/-- Behind one dash stands a short option. -/
theorem classify_of_letter {letter : Char} {rest : List Char} (letter_ne : letter ≠ '-')
    (chars : argument.toList = '-' :: letter :: rest) :
    classify options argument = shortArgument options letter rest := by
  rw [classify, chars]
  split
  · rename_i same
    exact absurd (List.cons.inj (List.cons.inj same).2).1 letter_ne
  · rename_i same
    exact absurd (List.cons.inj (List.cons.inj same).2).1 letter_ne
  · rename_i same
    obtain ⟨rfl, rfl⟩ := List.cons.inj (List.cons.inj same).2
    rfl
  · rename_i other
    exact absurd rfl (other letter rest)

/-- The option that a long name is that of. -/
theorem long_of_find? {name : List Char}
    (found : options.find? (·.long == String.ofList name) = some option) :
    option ∈ options ∧ option.long.toList = name := by
  have same := List.find?_some found
  rw [beq_iff_eq] at same
  exact ⟨List.mem_of_find?_eq_some found, by rw [same, String.toList_ofList]⟩

theorem short_of_find? {letter : Char}
    (found : options.find? (·.short == some letter) = some option) :
    option ∈ options ∧ option.short = some letter := by
  have same := List.find?_some found
  exact ⟨List.mem_of_find?_eq_some found, beq_iff_eq.mp same⟩

/-- What an argument is that has been taken for this. -/
def Argument.Sound (options : List OptionSpec) (argument : String) : Argument → Prop
  | .complete option value => option ∈ options ∧ option.Writes value [argument]
  | .awaiting option =>
      option ∈ options ∧ ∀ value, StandsAlone value → option.Writes value [argument, value]
  | .stop => argument = "--"
  | .help => AsksFor "help" 'h' argument
  | .version => AsksFor "version" 'V' argument
  | .unknown => True

theorem sound_longArgument {body : List Char} (chars : argument.toList = '-' :: '-' :: body) :
    (longArgument options body).Sound options argument := by
  have whole : body.takeWhile (· ≠ '=') ++ body.dropWhile (· ≠ '=') = body :=
    List.takeWhile_append_dropWhile
  have text {tail : String} (split : body = tail.toList) : argument = "--" ++ tail := by
    rw [← String.toList_inj, chars, split, String.toList_append]
    rfl
  rw [longArgument]
  cases found : options.find? (·.long == String.ofList (body.takeWhile (· ≠ '='))) with
  | some option =>
      obtain ⟨mem, name⟩ := long_of_find? found
      rw [← name] at whole
      cases rest : body.dropWhile (· ≠ '=') with
      | nil =>
          rw [rest, List.append_nil] at whole
          rw [text whole.symm]
          exact ⟨mem, fun value alone => .long alone⟩
      | cons c value =>
          have stopped : c = '=' := by
            have head := List.head?_dropWhile_not (· ≠ '=') body
            rw [rest] at head
            simpa using head
          have split : body = (option.long ++ "=" ++ String.ofList value).toList := by
            rw [← whole, rest, stopped]
            simp
          rw [text split, ← String.append_assoc, ← String.append_assoc]
          exact ⟨mem, .longJoined⟩
  | none =>
      cases rest : body.dropWhile (· ≠ '=') with
      | nil =>
          rw [rest, List.append_nil] at whole
          have named {name : String} (same : String.ofList body = name) : argument = "--" ++ name :=
            text (by rw [← same, String.toList_ofList])
          simp only [whole]
          split_ifs with help version
          · exact .inl (named help)
          · exact .inl (named version)
          · trivial
      | cons c value => trivial

theorem sound_shortArgument {letter : Char} {rest : List Char}
    (chars : argument.toList = '-' :: letter :: rest) :
    (shortArgument options letter rest).Sound options argument := by
  have text (tail : String) (split : rest = tail.toList) :
      argument = "-" ++ String.singleton letter ++ tail := by
    rw [← String.toList_inj, chars, split]
    simp
  unfold shortArgument
  split
  · rename_i option found
    obtain ⟨mem, own⟩ := short_of_find? found
    rw [text "" rfl, String.append_empty]
    exact ⟨mem, fun value alone => .short own alone⟩
  · rename_i option value found
    obtain ⟨mem, own⟩ := short_of_find? found
    rw [text ("=" ++ String.ofList value) (by simp), ← String.append_assoc]
    exact ⟨mem, .shortMarked own⟩
  · rename_i rest _ _ option found nonempty unmarked
    obtain ⟨mem, own⟩ := short_of_find? found
    rw [text (String.ofList rest) (by simp)]
    refine ⟨mem, .shortJoined own ?_ ?_⟩
    · rintro empty
      exact nonempty (by rw [← String.toList_ofList (l := rest), empty]; rfl)
    · rintro ⟨value, marked⟩
      rw [String.toList_ofList] at marked
      exact unmarked value marked.symm
  · rename_i rest _ _ _
    split_ifs with help version
    · exact .inr ⟨rest, by rw [chars, help]; rfl⟩
    · exact .inr ⟨rest, by rw [chars, version]; rfl⟩
    · trivial

/-- What is told of an argument is true. -/
theorem sound_classify (options : List OptionSpec) (argument : String) :
    (classify options argument).Sound options argument := by
  unfold classify
  split
  · rename_i chars
    exact String.toList_inj.mp chars
  · rename_i chars
    exact sound_longArgument chars
  · rename_i chars
    exact sound_shortArgument chars
  · trivial

/-! ## Options are read as they are written -/

theorem Distinct.ne_equals (distinct : Distinct options) (mem : option ∈ options) :
    ∀ c ∈ option.long.toList, decide (c ≠ '=') = true := fun _ c_mem =>
  decide_eq_true fun same => (distinct.named option mem).2 (same ▸ c_mem)

theorem Distinct.classify_long (distinct : Distinct options) (mem : option ∈ options) :
    classify options ("--" ++ option.long) = .awaiting option := by
  have nonempty : option.long.toList ≠ [] := by
    rw [Ne, String.toList_eq_nil_iff]
    exact (distinct.named option mem).1
  have name : option.long.toList.takeWhile (· ≠ '=') = option.long.toList :=
    List.takeWhile_eq_self_iff.mpr (distinct.ne_equals mem)
  have rest : option.long.toList.dropWhile (· ≠ '=') = [] :=
    List.dropWhile_eq_nil_iff.mpr (distinct.ne_equals mem)
  rw [classify_of_dashes nonempty (by simp), longArgument, name, rest, String.ofList_toList,
    distinct.find?_long mem]

theorem Distinct.classify_longJoined (distinct : Distinct options) (mem : option ∈ options)
    (value : String) :
    classify options ("--" ++ option.long ++ "=" ++ value) = .complete option value := by
  have chars : ("--" ++ option.long ++ "=" ++ value).toList =
      '-' :: '-' :: (option.long.toList ++ '=' :: value.toList) := by simp
  have name : (option.long.toList ++ '=' :: value.toList).takeWhile (· ≠ '=') =
      option.long.toList := by
    rw [List.takeWhile_append_of_pos (distinct.ne_equals mem)]
    simp
  have rest : (option.long.toList ++ '=' :: value.toList).dropWhile (· ≠ '=') =
      '=' :: value.toList := by
    rw [List.dropWhile_append_of_pos (distinct.ne_equals mem)]
    simp
  rw [classify_of_dashes (by simp) chars, longArgument, name, rest, String.ofList_toList,
    distinct.find?_long mem]
  exact congrArg _ String.ofList_toList

section Short

variable {letter : Char} (distinct : Distinct options) (mem : option ∈ options)
  (own : option.short = some letter)

include distinct mem own

theorem Distinct.ne_dash : letter ≠ '-' := by
  rintro rfl
  exact distinct.lettered option mem own

theorem Distinct.classify_short :
    classify options ("-" ++ String.singleton letter) = .awaiting option := by
  have chars : ("-" ++ String.singleton letter).toList = ['-', letter] := by simp
  rw [classify_of_letter (distinct.ne_dash mem own) chars, shortArgument.eq_def,
    distinct.find?_short mem own]

theorem Distinct.classify_shortJoined (nonempty : value ≠ "")
    (unmarked : ¬ ['='] <+: value.toList) :
    classify options ("-" ++ String.singleton letter ++ value) = .complete option value := by
  have chars : ("-" ++ String.singleton letter ++ value).toList =
      '-' :: letter :: value.toList := by simp
  rw [classify_of_letter (distinct.ne_dash mem own) chars, shortArgument.eq_def,
    distinct.find?_short mem own]
  split
  · rename_i empty
    exact absurd (String.toList_eq_nil_iff.mp empty) nonempty
  · rename_i tail _ marked
    exact absurd ⟨tail, marked.symm⟩ unmarked
  · rename_i same _ _
    rw [← Option.some.inj same, String.ofList_toList]
  · rename_i missing
    cases missing

theorem Distinct.classify_shortMarked :
    classify options ("-" ++ String.singleton letter ++ "=" ++ value) = .complete option value := by
  have chars : ("-" ++ String.singleton letter ++ "=" ++ value).toList =
      '-' :: letter :: '=' :: value.toList := by simp
  rw [classify_of_letter (distinct.ne_dash mem own) chars, shortArgument.eq_def,
    distinct.find?_short mem own]
  exact congrArg _ String.ofList_toList

end Short

/-- An option is read with its value in whatever way it is written. -/
theorem Distinct.readArguments_append (distinct : Distinct options) (mem : option ∈ options)
    {front : List String} (writes : option.Writes value front) (rest : List String)
    (values : Values) :
    readArguments options (front ++ rest) values =
      (values.add option value).elim .invalid (readArguments options rest) := by
  have awaiting {argument : String} (alone : StandsAlone value)
      (read : classify options argument = .awaiting option) :
      readArguments options (argument :: value :: rest) values =
        (values.add option value).elim .invalid (readArguments options rest) := by
    rw [readArguments, read]
    simp only [isSeparateValue_eq_true_iff.mpr alone, if_true]
    cases values.add option value <;> rfl
  have complete {argument : String} (read : classify options argument = .complete option value) :
      readArguments options (argument :: rest) values =
        (values.add option value).elim .invalid (readArguments options rest) := by
    rw [readArguments, read]
    cases added : values.add option value <;> simp [added]
  cases writes with
  | long alone => exact awaiting alone (distinct.classify_long mem)
  | longJoined => exact complete (distinct.classify_longJoined mem value)
  | short own alone => exact awaiting alone (distinct.classify_short mem own)
  | shortJoined own nonempty unmarked =>
      exact complete (distinct.classify_shortJoined mem own nonempty unmarked)
  | shortMarked own => exact complete (distinct.classify_shortMarked mem own)

end Single

/-! ## Values -/

namespace Values

/-- Add the values of several options. -/
def addAll (values : Values) (given : Given) : Option Values :=
  given.foldlM (fun values (option, value) => values.add option value) values

theorem addAll_cons (values : Values) (option : OptionSpec) (value : String) (given : Given) :
    values.addAll ((option, value) :: given) =
      (values.add option value).bind fun next => next.addAll given := rfl

theorem lookup_eq_none_iff {values : Values} {key : String} :
    values.lookup key = none ↔ key ∉ values.map Prod.fst := by
  simp only [List.lookup_eq_none_iff, bne_iff_ne, List.mem_map, not_exists, not_and]
  exact forall₂_congr fun _ _ => ne_comm

theorem lookup_isSome_iff {values : Values} {key : String} :
    (values.lookup key).isSome = true ↔ key ∈ values.map Prod.fst := by
  rw [← Option.ne_none_iff_isSome, Ne, lookup_eq_none_iff, not_not]

theorem nodup_names_reverse {values : Values} :
    (values.reverse.map Prod.fst).Nodup ↔ (values.map Prod.fst).Nodup := by
  rw [List.map_reverse, List.nodup_reverse]

/-- A value is added if there is none of that name and the option takes it. -/
theorem add_eq_some_iff {values after : Values} {option : OptionSpec} {value : String} :
    values.add option value = some after ↔ option.long ∉ values.map Prod.fst ∧
      option.accepts value = true ∧ (option.long, value) :: values = after := by
  rw [add, Option.ite_none_right_eq_some, Bool.and_eq_true, Option.isNone_iff_eq_none,
    lookup_eq_none_iff, Option.some.injEq, and_assoc]

/-- Values are added if their options take them and no two are of one name. -/
theorem addAll_eq_some_iff {values after : Values} {given : Given}
    (start : (values.map Prod.fst).Nodup) :
    values.addAll given = some after ↔ (∀ pair ∈ given, pair.1.accepts pair.2 = true) ∧
      ((given.values.reverse ++ values).map Prod.fst).Nodup ∧
      given.values.reverse ++ values = after := by
  induction given generalizing values with
  | nil => simp [addAll, Given.values, start]
  | cons pair given ih =>
      obtain ⟨option, value⟩ := pair
      rw [addAll_cons, Option.bind_eq_some_iff, Given.values_cons, List.reverse_cons,
        List.append_assoc, List.singleton_append, List.forall_mem_cons]
      constructor
      · rintro ⟨next, added, rest⟩
        obtain ⟨free, accepted, rfl⟩ := add_eq_some_iff.mp added
        have own : (((option.long, value) :: values).map Prod.fst).Nodup :=
          List.nodup_cons.mpr ⟨free, start⟩
        obtain ⟨others, once, result⟩ := (ih own).mp rest
        exact ⟨⟨accepted, others⟩, once, result⟩
      · rintro ⟨⟨accepted, others⟩, once, result⟩
        have own : (((option.long, value) :: values).map Prod.fst).Nodup :=
          once.sublist ((List.sublist_append_right _ _).map Prod.fst)
        exact ⟨_, add_eq_some_iff.mpr ⟨(List.nodup_cons.mp own).1, accepted, rfl⟩,
          (ih own).mpr ⟨others, once, result⟩⟩

/-- Values suffice for a run if none is missing that has to be there. -/
theorem request_eq_run_iff {options : List OptionSpec} {values final : Values} :
    values.request options = .run final ↔ values = final ∧
      ∀ option ∈ options, option.isRequired = true → option.long ∈ values.map Prod.fst := by
  have complete : (options.all fun option =>
      !option.isRequired || (values.lookup option.long).isSome) = true ↔
      ∀ option ∈ options, option.isRequired = true → option.long ∈ values.map Prod.fst := by
    simp only [List.all_eq_true, Bool.or_eq_true, lookup_isSome_iff, Bool.not_eq_true',
      ← Bool.not_eq_true, or_iff_not_imp_left, not_not]
  rw [request, ← complete]
  split_ifs with all <;> simp [all]

theorem lookup_eq_some_iff_mem {values : Values} (once : (values.map Prod.fst).Nodup)
    {key value : String} : values.lookup key = some value ↔ (key, value) ∈ values := by
  induction values with
  | nil => simp
  | cons pair values ih =>
      obtain ⟨own, first⟩ := pair
      obtain ⟨other, once⟩ := List.nodup_cons.mp once
      by_cases same : key = own
      · subst same
        have free : ∀ value, (key, value) ∉ values := fun value mem =>
          other (List.mem_map.mpr ⟨_, mem, rfl⟩)
        simp [free, eq_comm]
      · rw [List.lookup_cons, beq_false_of_ne same]
        simpa [same] using ih once

end Values

/-! ## All arguments -/

section All

variable {options : List OptionSpec} {arguments : List String} {values final : Values}

/-- Options that are written one behind the other are read one behind the other. -/
theorem Distinct.readArguments_of_written (distinct : Distinct options) {given : Given}
    (written : given.Written arguments) (known : ∀ pair ∈ given, pair.1 ∈ options) :
    readArguments options arguments values =
      (values.addAll given).elim .invalid (Values.request options) := by
  induction written generalizing values with
  | nil => rfl
  | stop => rfl
  | @cons option value front rest given first others ih =>
      obtain ⟨mem, known⟩ := List.forall_mem_cons.mp known
      rw [distinct.readArguments_append mem first, Values.addAll_cons]
      cases values.add option value with
      | none => rfl
      | some next => exact ih known

/-- Do the arguments write options whose values, added to those that are there, are the values of
the run? -/
def AccountFor (options : List OptionSpec) (arguments : List String) (values final : Values) :
    Prop :=
  ∃ given : Given, given.Written arguments ∧ (∀ pair ∈ given, pair.1 ∈ options) ∧
    ∃ all, values.addAll given = some all ∧ all.request options = .run final

theorem AccountFor.nil (enough : values.request options = .run final) :
    AccountFor options [] values final :=
  ⟨[], .nil, fun _ mem => absurd mem List.not_mem_nil, values, rfl, enough⟩

theorem AccountFor.stop (enough : values.request options = .run final) :
    AccountFor options ["--"] values final :=
  ⟨[], .stop, fun _ mem => absurd mem List.not_mem_nil, values, rfl, enough⟩

theorem AccountFor.cons {option : OptionSpec} {value : String} {front rest : List String}
    {next : Values} (mem : option ∈ options) (writes : option.Writes value front)
    (added : values.add option value = some next) (others : AccountFor options rest next final) :
    AccountFor options (front ++ rest) values final := by
  obtain ⟨given, written, known, all, result, enough⟩ := others
  refine ⟨(option, value) :: given, .cons writes written,
    List.forall_mem_cons.mpr ⟨mem, known⟩, all, ?_, enough⟩
  rw [Values.addAll_cons, added]
  exact result

/-- What is read for a run has been written. -/
theorem accountFor_of_readArguments (read : readArguments options arguments values = .run final) :
    AccountFor options arguments values final := by
  have sound := sound_classify options
  fun_induction readArguments options arguments values with
  | case1 values => exact .nil read
  | case2 argument rest values option value classified next added ih =>
      obtain ⟨mem, writes⟩ : _ ∧ _ := classified ▸ sound argument
      exact .cons mem writes added (ih read)
  | case4 argument values option classified value rest separate next added ih =>
      obtain ⟨mem, writes⟩ : _ ∧ _ := classified ▸ sound argument
      exact .cons mem (writes value (isSeparateValue_eq_true_iff.mp separate)) added (ih read)
  | case8 argument rest values classified last =>
      have dashes : Argument.stop.Sound options argument := classified ▸ sound argument
      obtain rfl : argument = "--" := dashes
      obtain rfl := List.isEmpty_iff.mp last
      exact .stop read
  | case3 | case5 | case6 | case7 | case9 | case10 | case11 | case12 => cases read

/-- Arguments ask for a run exactly if they give options as they have to be given, and then for a
run with their values. -/
theorem Distinct.request_eq_run_iff (distinct : Distinct options) :
    request options arguments = .run values ↔
      ∃ given : Given, given.WellGiven options arguments ∧ given.values.reverse = values := by
  have start : (([] : Values).map Prod.fst).Nodup := List.nodup_nil
  constructor
  · intro read
    obtain ⟨given, written, known, all, added, enough⟩ := accountFor_of_readArguments read
    obtain ⟨accepted, once, rfl⟩ := (Values.addAll_eq_some_iff start).mp added
    obtain ⟨rfl, complete⟩ := Values.request_eq_run_iff.mp enough
    rw [List.append_nil] at once complete ⊢
    refine ⟨given, ⟨known, accepted, Values.nodup_names_reverse.mp once,
      fun option mem required => ?_, written⟩, rfl⟩
    have there := complete option mem required
    rwa [List.map_reverse, List.mem_reverse] at there
  · rintro ⟨given, well, rfl⟩
    have once : ((given.values.reverse ++ []).map Prod.fst).Nodup := by
      rw [List.append_nil]
      exact Values.nodup_names_reverse.mpr well.once
    have added : Values.addAll [] given = some given.values.reverse :=
      (Values.addAll_eq_some_iff start).mpr ⟨well.accepted, once, List.append_nil _⟩
    rw [request, distinct.readArguments_of_written well.written well.known, added]
    refine Values.request_eq_run_iff.mpr ⟨rfl, fun option mem required => ?_⟩
    rw [List.map_reverse, List.mem_reverse]
    exact well.complete option mem required

/-- A value that is given is found by the name of its option. -/
theorem Given.WellGiven.lookup_eq_some_iff {given : Given}
    (well : given.WellGiven options arguments) {key value : String} :
    given.values.reverse.lookup key = some value ↔ (key, value) ∈ given.values := by
  have once := Values.nodup_names_reverse.mpr well.once
  rw [Values.lookup_eq_some_iff_mem once, List.mem_reverse]

/-- The same options, or at least the same values, are given by the same arguments. -/
theorem Distinct.values_unique (distinct : Distinct options) {given other : Given}
    (well : given.WellGiven options arguments) (other_well : other.WellGiven options arguments) :
    given.values = other.values := by
  have read := distinct.request_eq_run_iff.mpr ⟨given, well, rfl⟩
  rw [distinct.request_eq_run_iff.mpr ⟨other, other_well, rfl⟩] at read
  exact (List.reverse_injective (Request.run.inj read)).symm

/-- Does one of the arguments ask for what is requested, if this is not a run? -/
def Request.Asked (arguments : List String) : Request → Prop
  | .help => ∃ argument ∈ arguments, AsksFor "help" 'h' argument
  | .version => ∃ argument ∈ arguments, AsksFor "version" 'V' argument
  | .run _ => True
  | .invalid => True

theorem Request.Asked.of_subset {request : Request} {some all : List String}
    (asked : request.Asked some) (subset : some ⊆ all) : request.Asked all := by
  cases request with
  | help => exact asked.imp fun argument found => ⟨subset found.1, found.2⟩
  | version => exact asked.imp fun argument found => ⟨subset found.1, found.2⟩
  | run => trivial
  | invalid => trivial

/-- Help and the version are for those who ask for them. -/
theorem asked_readArguments : (readArguments options arguments values).Asked arguments := by
  have sound := sound_classify options
  have enough (values : Values) (arguments : List String) :
      (values.request options).Asked arguments := by
    unfold Values.request
    split_ifs <;> trivial
  fun_induction readArguments options arguments values with
  | case1 values => exact enough values []
  | case2 argument rest values option value classified next added ih =>
      exact ih.of_subset (List.subset_cons_self argument rest)
  | case4 argument values option classified value rest separate next added ih =>
      exact ih.of_subset (List.subset_append_right [argument, value] rest)
  | case8 argument rest values classified last => exact enough values _
  | case10 argument rest values classified =>
      have asks : Argument.help.Sound options argument := classified ▸ sound argument
      exact ⟨argument, List.mem_cons_self, asks⟩
  | case11 argument rest values classified =>
      have asks : Argument.version.Sound options argument := classified ▸ sound argument
      exact ⟨argument, List.mem_cons_self, asks⟩
  | case3 | case5 | case6 | case7 | case9 | case12 => trivial

end All

end SymbolFont.CommandLine
