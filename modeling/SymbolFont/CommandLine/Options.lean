/-
# Options

The arguments of a program are options with values; each may be given once, and nothing else
may be given.  A value stands in the next argument or, for a long option after an equals
sign, for a short one with or without it, in the same.  In an argument of its own a value
does not begin with a dash, unless it is a dash.

Arguments are read from left to right, so that asking for help works in front of a mistake
but not behind it.
-/

namespace SymbolFont.CommandLine

/-- An option. -/
structure OptionSpec where
  long : String
  short : Option Char := none
  /-- What the option is for. -/
  purpose : String
  isRequired : Bool := false
  /-- The value that is taken if none is given, as far as users are told. -/
  default? : Option String := none
  /-- Which values the option takes. -/
  accepts : String → Bool := fun value => !value.isEmpty

namespace OptionSpec

/-- The option with a place for its value. -/
def form (option : OptionSpec) : String :=
  let place := option.long.map fun c => if c = '-' then '_' else c.toUpper
  "--" ++ option.long ++ " <" ++ place ++ ">"

/-- What users are told of the option. -/
def about (option : OptionSpec) : String :=
  match option.default? with
  | some value => option.purpose ++ " [default: " ++ value ++ "]"
  | none => option.purpose

end OptionSpec

/-- A line of a list of options: the letter, the option, and what it is for, which begins in the
column behind the widest option. -/
def helpLine (width : Nat) (line : Option Char × String × String) : String :=
  let (short, form, about) := line
  let letter := match short with
    | some letter => "-" ++ String.singleton letter ++ ", "
    | none => "    "
  "  " ++ letter ++ form ++ String.ofList (List.replicate (width + 2 - form.length) ' ') ++ about ++
    "\n"

/-- How a program is called: options that have to be given are listed. -/
def usage (name : String) (options : List OptionSpec) : String :=
  let required := (options.filter OptionSpec.isRequired).map fun option => " " ++ option.form
  "Usage: " ++ name ++ " [OPTIONS]" ++ String.join required ++ "\n"

/-- What is printed on asking for help: what the program is for, how it is called, and its
options. -/
def helpText (name purpose : String) (options : List OptionSpec) : String :=
  let lines := options.map (fun option => (option.short, option.form, option.about)) ++
    [(some 'h', "--help", "Print help"), (some 'V', "--version", "Print version")]
  let width := (lines.map fun (_, form, _) => form.length).foldl max 0
  purpose ++ "\n\n" ++ usage name options ++ "\nOptions:\n" ++
    String.join (lines.map (helpLine width))

/-- The values of options, by their long names. -/
abbrev Values := List (String × String)

/-- What arguments ask for. -/
inductive Request where
  | run (values : Values)
  | help
  | version
  | invalid
  deriving DecidableEq, Repr

/-- What a single argument is. -/
inductive Argument where
  /-- An option with its value, and one whose value is the next argument. -/
  | complete (option : OptionSpec) (value : String)
  | awaiting (option : OptionSpec)
  /-- Two dashes, after which no options may follow. -/
  | stop
  | help
  | version
  | unknown

/-- A long option, given the characters behind the two dashes. -/
def longArgument (options : List OptionSpec) (body : List Char) : Argument :=
  let name := String.ofList (body.takeWhile (· ≠ '='))
  match options.find? (·.long == name), body.dropWhile (· ≠ '=') with
  | some option, [] => .awaiting option
  | some option, _ :: value => .complete option (String.ofList value)
  | none, [] =>
      if name = "help" then .help else if name = "version" then .version else .unknown
  | none, _ => .unknown

/-- A short option, given its letter and the characters behind it. -/
def shortArgument (options : List OptionSpec) (letter : Char) (rest : List Char) : Argument :=
  match options.find? (·.short == some letter), rest with
  | some option, [] => .awaiting option
  | some option, '=' :: value => .complete option (String.ofList value)
  | some option, value => .complete option (String.ofList value)
  | none, _ => if letter = 'h' then .help else if letter = 'V' then .version else .unknown

/-- What an argument is. -/
def classify (options : List OptionSpec) (argument : String) : Argument :=
  match argument.toList with
  | ['-', '-'] => .stop
  | '-' :: '-' :: body => longArgument options body
  | '-' :: letter :: rest => shortArgument options letter rest
  | _ => .unknown

/-- Can the argument be the value of the option in front of it? -/
def isSeparateValue (argument : String) : Bool :=
  argument.toList.head? != some '-' || argument == "-"

/-- Add the value of an option, unless it has one or does not take this one. -/
def Values.add (values : Values) (option : OptionSpec) (value : String) : Option Values :=
  if (values.lookup option.long).isNone && option.accepts value then
    some ((option.long, value) :: values)
  else none

/-- The request with these values, if all are there that have to be. -/
def Values.request (options : List OptionSpec) (values : Values) : Request :=
  if options.all fun option => !option.isRequired || (values.lookup option.long).isSome then
    .run values
  else .invalid

/-- Read arguments behind those that have given the values. -/
def readArguments (options : List OptionSpec) : List String → Values → Request
  | [], values => values.request options
  | argument :: rest, values =>
      match classify options argument with
      | .complete option value =>
          match values.add option value with
          | some values => readArguments options rest values
          | none => .invalid
      | .awaiting option =>
          match rest with
          | value :: rest =>
              if isSeparateValue value then
                match values.add option value with
                | some values => readArguments options rest values
                | none => .invalid
              else .invalid
          | [] => .invalid
      | .stop => if rest.isEmpty then values.request options else .invalid
      | .help => .help
      | .version => .version
      | .unknown => .invalid

/-- What the arguments of a program ask for. -/
def request (options : List OptionSpec) (arguments : List String) : Request :=
  readArguments options arguments []

end SymbolFont.CommandLine
