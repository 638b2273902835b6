/-!
# Command line arguments

`Request.parse` makes a request of the arguments. Options may stand before, between and after the
files, each of them once; everything after `--` is a file. The value of an option stands after an
equals sign or in the next argument, which then must not look like an option itself.
-/

namespace Laye.CommandLine

/-- What the tool can do with syntax trees. -/
inductive Action where
  | check
  | build
deriving DecidableEq, Repr, Inhabited

/-- How diagnostics are shown. -/
inductive Format where
  | text
  | json
deriving DecidableEq, Repr, Inhabited

/-- The format of a name. -/
def Format.ofName? : String → Option Format
  | "text" => some .text
  | "json" => some .json
  | _ => none

/-- The options of an action, as far as they are given. -/
structure Options where
  files : List String := []
  keepGoing : Bool := false
  format : Option Format := none
  output : Option String := none
  emitIR : Bool := false
deriving DecidableEq, Repr, Inhabited

/-- What the user asks for. -/
inductive Request where
  /-- The arguments make no sense. -/
  | misuse
  | version
  /-- An explanation, of one action if one is named. -/
  | help (action : Option Action)
  | run (action : Action) (options : Options)
deriving DecidableEq, Repr, Inhabited

namespace Options

/-- Adds a file. -/
def addFile (o : Options) (file : String) : Option Options :=
  if file.isEmpty then none else some { o with files := o.files ++ [file] }

/-- Adds files. -/
def addFiles (o : Options) : List String → Option Options
  | [] => some o
  | file :: files => (o.addFile file).bind (·.addFiles files)

/-- Sets an option that takes no value. -/
def setFlag (action : Action) (o : Options) (name : String) : Option Options :=
  match name, action with
  | "keep-going", _ => if o.keepGoing then none else some { o with keepGoing := true }
  | "emit-ir", .build => if o.emitIR then none else some { o with emitIR := true }
  | _, _ => none

/-- Whether an option takes a value. -/
def takesValue (action : Action) (name : String) : Bool :=
  name == "format" || (name == "output" && action == .build)

/-- Sets an option that takes a value. -/
def setValue (o : Options) (name value : String) : Option Options :=
  if name = "format" then
    match o.format, Format.ofName? value with
    | none, some format => some { o with format := some format }
    | _, _ => none
  else if o.output.isSome || value.isEmpty then none
  else some { o with output := some value }

end Options

/-- Whether an argument can be the value of the option before it. -/
def isValue (arg : String) : Bool := arg == "-" || !arg.startsWith "-"

/-- An argument, by its form. -/
inductive Argument where
  | file (name : String)
  /-- The mark after which all arguments are files. -/
  | endOfOptions
  /-- An option with the value that is attached to it, if any. -/
  | option (name : String) (value : Option String)
  | help
  | unknown
deriving DecidableEq, Repr

/-- A name and what follows the first equals sign. -/
def splitValue (cs : List Char) : String × Option String :=
  match cs.dropWhile (· != '=') with
  | [] => (String.ofList cs, none)
  | _ :: value => (String.ofList (cs.takeWhile (· != '=')), some (String.ofList value))

/-- What is attached to a short option, without the equals sign it may start with. -/
def attachedValue : List Char → Option String
  | [] => none
  | '=' :: value => some (String.ofList value)
  | value => some (String.ofList value)

/-- The form of an argument of an action. -/
def Argument.of (arg : String) : Argument :=
  match arg.toList with
  | ['-', '-'] => .endOfOptions
  | '-' :: '-' :: long =>
    let (name, value) := splitValue long
    if name = "help" ∧ value = none then .help else .option name value
  | '-' :: 'h' :: _ => .help
  | '-' :: 'o' :: attached => .option "output" (attachedValue attached)
  | '-' :: _ :: _ => .unknown
  | _ => .file arg

namespace Request

/-- The request for an action, which needs files. -/
def ofOptions (action : Action) (o : Options) : Request :=
  if o.files.isEmpty then .misuse else .run action o

/-- Reads the arguments of an action. -/
def parseOptions (action : Action) : List String → Options → Request
  | [], o => ofOptions action o
  | arg :: rest, o =>
    match Argument.of arg with
    | .help => .help (some action)
    | .unknown => .misuse
    | .endOfOptions =>
      match o.addFiles rest with
      | some o => ofOptions action o
      | none => .misuse
    | .file name =>
      match o.addFile name with
      | some o => parseOptions action rest o
      | none => .misuse
    | .option name value =>
      if Options.takesValue action name then
        match value, rest with
        | some value, rest =>
          match o.setValue name value with
          | some o => parseOptions action rest o
          | none => .misuse
        | none, value :: rest =>
          if isValue value then
            match o.setValue name value with
            | some o => parseOptions action rest o
            | none => .misuse
          else .misuse
        | none, [] => .misuse
      else
        match value, o.setFlag action name with
        | none, some o => parseOptions action rest o
        | _, _ => .misuse

/-- Reads the arguments of the tool. -/
def parse : List String → Request
  | "check" :: rest => parseOptions .check rest {}
  | "build" :: rest => parseOptions .build rest {}
  | ["help", "check"] => .help (some .check)
  | ["help", "build"] => .help (some .build)
  | ["help"] | ["help", "help"] => .help none
  | "--help" :: _ => .help none
  | "--version" :: _ => .version
  | arg :: _ =>
    match arg.toList with
    | '-' :: 'h' :: _ => .help none
    | '-' :: 'V' :: _ => .version
    | _ => .misuse
  | [] => .misuse

end Request

end Laye.CommandLine
