import GridStencil.Backend
import GridStencil.Log
import GridStencil.Program.Basic
import GridStencil.Text.Blank

/-!
The options of the compiler.

Options are read from the left to the right. An option with a value takes the next word, whatever it
looks like; `--` ends the options; a request for help is answered once all words are read, and only
words that are no options may follow it.
-/

namespace GridStencil.CommandLine

/-- What the compiler prints. -/
inductive Emission
  | program
  | extents
  | id
  | kernel
  | json
deriving DecidableEq

namespace Emission

/-- All things that can be printed. -/
def all : List Emission := [program, extents, id, kernel, json]

/-- The word for what is printed. -/
def name : Emission → String
  | program => "ir"
  | extents => "extents"
  | id => "id"
  | kernel => "kernel"
  | json => "json"

end Emission

/-- Where the compiler prints to. -/
inductive Target
  | stdout
  | file (path : String)
deriving DecidableEq

namespace Target

/-- The target that a word stands for. -/
def ofText (word : String) : Target := if word = "-" then stdout else file word

/-- The word for a target. -/
def render : Target → String
  | stdout => "-"
  | file path => path

/-- Whether a target is a terminal, if the standard output is none. -/
def isTerminal : Target → Bool
  | stdout | file _ => false

end Target

/-- How urgent messages have to be to be shown. -/
inductive LogLevel
  | off
  | error
  | warn
  | info
  | debug
  | trace
deriving DecidableEq

namespace LogLevel

/-- All levels. -/
def all : List LogLevel := [off, error, warn, info, debug, trace]

/-- The word for a level. -/
def name : LogLevel → String
  | off => "off"
  | error => "error"
  | warn => "warn"
  | info => "info"
  | debug => "debug"
  | trace => "trace"

/-- Whether messages of some urgency are shown. -/
def shows (level : LogLevel) : Severity → Bool
  | .error => level != off
  | .warning => level != off && level != error

end LogLevel

/-- The options of a run. -/
structure Options where
  file : Option String
  stencil : Option String
  backend : Option Backend
  externals : List (String × Literal)
  types : List (String × ElementType)
  emission : Option Emission
  target : Option Target
  logLevel : Option LogLevel
  listPasses : Bool

/-- The options before any word is read. -/
def Options.start : Options := ⟨none, none, none, [], [], none, none, none, false⟩

/-- An option. -/
inductive Flag
  | stencil
  | backend
  | external
  | type
  | emit
  | output
  | logLevel
  | listPasses
deriving DecidableEq

namespace Flag

/-- All options in the order of the help text. -/
def all : List Flag := [stencil, backend, external, type, emit, output, logLevel, listPasses]

/-- The long name of an option, without the dashes. -/
def name : Flag → String
  | stencil => "stencil"
  | backend => "backend"
  | external => "external"
  | type => "type"
  | emit => "emit"
  | output => "output"
  | logLevel => "log-level"
  | listPasses => "list-passes"

/-- The letter of an option that has one. -/
def letter? : Flag → Option String
  | stencil => some "s"
  | backend => some "b"
  | external => some "x"
  | type => some "t"
  | output => some "o"
  | emit | logLevel | listPasses => none

/-- What an option is for. -/
def description : Flag → String
  | stencil => "stencil to compile, defaults to the first one in the file"
  | backend => "backend: debug or vector"
  | external => "value of an external as NAME=VALUE"
  | type => "element type override as field=dtype"
  | emit => "what to print: ir, extents, id, kernel or json"
  | output => "output file, default is stdout"
  | logLevel => "logging level"
  | listPasses => "list all the available passes and exit"

/-- The words that stand for an option. -/
def words (flag : Flag) : List String :=
  (flag.letter?.map ("-" ++ ·)).toList ++ ["--" ++ flag.name]

/-- The option that a word stands for. -/
def named? (word : String) : Option Flag := all.find? (·.words.contains word)

/-- Whether an option may be given more than once. -/
def repeats : Flag → Bool
  | external | type => true
  | _ => false

/-- An option with its value, as the usage line shows it. -/
def usage (flag : Flag) : String :=
  let word := flag.words.headD ""
  let value := if flag = listPasses then "" else
    " <" ++ flag.name ++ (if flag.repeats then "...>" else ">")
  "[" ++ word ++ value ++ "]"

end Flag

/-- The name under which the compiler speaks of itself. -/
def programName : String := "strata"

/-- A name in the help text with what it is for, in two columns. -/
def helpLine (name description : String) : String :=
  "  " ++ name ++ Text.blanks (18 - name.length) ++ description

/-- The words that ask for help. -/
def helpWords : List String := ["--help", "help"]

/-- The help text. -/
def helpText : String :=
  Text.unlines <|
    ["Usage: " ++ programName ++ " " ++ " ".intercalate (Flag.all.map Flag.usage) ++
      " [--] [<file>]", "", "Compiler for stencil computations on structured grids", "",
      "Positional Arguments:", helpLine "file" "input stencil file", "", "Options:"] ++
    Flag.all.map (fun flag => helpLine (", ".intercalate flag.words) flag.description) ++
    [helpLine (", ".intercalate helpWords) "display usage information"]

/-- Why the words on the command line do not make options. -/
inductive Misuse
  | unrecognized (word : String)
  | missingValue (word : String)
  | badValue (word value reason : String)
  | wordBehindHelp
deriving DecidableEq

/-- A sentence that says why. -/
def Misuse.message : Misuse → String
  | unrecognized word => "Unrecognized argument: " ++ word ++ "\n"
  | missingValue word => "No value provided for option '" ++ word ++ "'.\n"
  | badValue word value reason =>
    "Error parsing option '" ++ word ++ "' with value '" ++ value ++ "': " ++ reason ++ "\n"
  | wordBehindHelp => "Trailing arguments are not allowed after `help`."

/-- What the words on the command line come to. -/
inductive Request
  | run (options : Options)
  | help

namespace Options

/-- The parts of a text before and behind the first equals sign. -/
def splitPair? (text : String) : Option (String × String) :=
  match text.toList.span (· != '=') with
  | (name, _ :: value) => some (String.ofList name, String.ofList value)
  | (_, []) => none

/-- The value of an external. -/
def readExternal (text : String) : Except String (String × Literal) :=
  match splitPair? text with
  | none => .error (Text.quoted text ++ ": externals must be given as NAME=VALUE")
  | some (name, value) =>
    match Literal.read value with
    | .ok literal => .ok (Text.trimBlank name, literal)
    | .error fault => .error fault.message

/-- The type of a parameter. -/
def readType (text : String) : Except String (String × ElementType) :=
  match splitPair? text with
  | none => .error (Text.quoted text ++ ": types must be given as field=dtype")
  | some (name, word) =>
    let word := Text.trimBlank word
    match ElementType.named? word with
    | some type => .ok (Text.trimBlank name, type)
    | none => .error (Cause.unknownElementType word).sentence

/-- What to print. -/
def readEmission (text : String) : Except String Emission :=
  match Emission.all.find? (·.name == text) with
  | some emission => .ok emission
  | none =>
    .error (Text.quoted text ++ " is not a valid output.\nValid outputs: " ++
      ", ".intercalate (Emission.all.map Emission.name))

/-- A level of urgency, in small or capital letters. -/
def readLogLevel (text : String) : Except String LogLevel :=
  match LogLevel.all.find? (·.name == text.toLower) with
  | some level => .ok level
  | none =>
    .error "attempted to convert a string that doesn't match an existing log level"

/-- A value for an option that takes only one. -/
def once {α : Type} (old : Option α) (value : Except String α) : Except String (Option α) :=
  match old with
  | some _ => .error "duplicate values provided"
  | none => value.map some

/-- The options with the value of one more. -/
def set (options : Options) (flag : Flag) (value : String) : Except String Options :=
  match flag with
  | .stencil => return { options with stencil := ← once options.stencil (.ok value) }
  | .backend => return { options with
      backend := ← once options.backend ((Backend.named value).mapError Cause.sentence) }
  | .external => return { options with externals := options.externals ++ [← readExternal value] }
  | .type => return { options with types := options.types ++ [← readType value] }
  | .emit => return { options with emission := ← once options.emission (readEmission value) }
  | .output => return { options with target := ← once options.target (.ok (.ofText value)) }
  | .logLevel => return { options with logLevel := ← once options.logLevel (readLogLevel value) }
  | .listPasses => return { options with listPasses := true }

/-- The options with a word that is none itself. -/
def setFile (options : Options) (word : String) : Except Misuse Options :=
  match options.file with
  | some _ => .error (.unrecognized word)
  | none => .ok { options with file := some word }

/-- Reads the words behind the end of the options. -/
def readFiles (options : Options) (words : List String) : Except Misuse Options :=
  words.foldlM setFile options

/-- Reads words; `help` says that help was asked for. -/
def readWords (help : Bool) (options : Options) : List String → Except Misuse Request
  | [] => .ok (if help then .help else .run options)
  | word :: rest =>
    if helpWords.contains word then readWords true options rest
    else if word = "--" then do
      let options ← readFiles options rest
      return if help then .help else .run options
    else if word.startsWith "-" then
      if help then .error .wordBehindHelp
      else
        match Flag.named? word with
        | none => .error (.unrecognized word)
        | some .listPasses => readWords help { options with listPasses := true } rest
        | some flag =>
          match rest with
          | [] => .error (.missingValue word)
          | value :: rest =>
            match options.set flag value with
            | .error reason => .error (.badValue word value reason)
            | .ok options => readWords help options rest
    else
      match options.setFile word with
      | .error misuse => .error misuse
      | .ok options => readWords help options rest

/-- What the words on the command line ask for. -/
def read (words : List String) : Except Misuse Request := readWords false start words

end Options

end GridStencil.CommandLine
