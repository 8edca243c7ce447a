import GridStencil.CommandLine.Emission

/-!
Runs of the compiler.

A run reads one file, compiles one stencil of it, and prints something about it. All it does to the
world goes through `Files`, so the same run works on a disk and on files held in memory.
-/

namespace GridStencil.CommandLine

/-- How files are read and written. A failure comes with its reason. -/
structure Files (m : Type → Type) where
  read : String → m (Except String (List UInt8))
  write : String → String → m (Except String Unit)

/-- What a run leaves behind. -/
structure Ending where
  stdout : String
  stderr : String
  code : Nat
deriving DecidableEq

namespace Ending

/-- The end of a run that succeeded. -/
def success (stdout : String) : Ending := ⟨stdout, "", 0⟩

/-- The end of a run that failed. -/
def failure (error : Error) : Ending := ⟨"", "Error: " ++ error.render ++ "\n", 1⟩

/-- The end of a run whose words make no sense. -/
def misuse (misuse : Misuse) : Ending :=
  ⟨"", misuse.message ++ "\nRun " ++ programName ++ " --help for more information.\n", 1⟩

/-- The line of a message. Further lines of its text are moved right. -/
def logLine (entry : LogEntry) : String :=
  let level := entry.severity.name
  "[" ++ level ++ Text.blanks (5 - level.length) ++ " " ++ entry.target ++ "] " ++
    Text.hanging 4 entry.text ++ "\n"

/-- An end with messages before it. -/
def withLog (ending : Ending) (level : LogLevel) (log : List LogEntry) : Ending :=
  let shown := log.filter (level.shows ·.severity)
  { ending with stderr := String.join (shown.map logLine) ++ ending.stderr }

end Ending

namespace Options

/-- The stencil that is meant, of those of a file. -/
def choose (options : Options) (path : String) (definitions : List Definition) :
    Except Error Definition :=
  match options.stencil with
  | some name =>
    match Definition.find? definitions name with
    | some definition => .ok definition
    | none => .error (.ofCause (.undefined "stencil" name))
  | none =>
    match definitions with
    | definition :: _ => .ok definition
    | [] => .error (.ofCause (.noStencils path))

/-- The text of a file. -/
def decode (bytes : List UInt8) : Except Error String :=
  match Text.fault? bytes, String.fromUTF8? ⟨bytes.toArray⟩ with
  | none, some text => .ok text
  | fault, _ => .error (.ofCause (.notUtf8 (fault.getD (.incomplete 0))))

/-- The stencil that is meant, of those in the bytes of a file. -/
def definition (options : Options) (path : String) (bytes : List UInt8) :
    Except Error Definition := do
  options.choose path (← Definition.readAll ⟨path, ← decode bytes⟩)

/-- The compiled stencil, with the messages about it. -/
def compile (options : Options) (definition : Definition) :
    Except Error (Registry.Logged (Except Error Artifact)) := do
  let inserted ← Registry.empty.insert definition (.ofList options.externals)
  let (_, registry) := inserted.value
  let made := registry.specialize
    ⟨definition.name, .empty, options.backend.getD .standard, .ofList options.types⟩
  return ⟨inserted.log ++ made.log, made.value.1⟩

end Options

variable {m : Type → Type} [Monad m]

/-- Prints a text to a target. -/
def print (files : Files m) (target : Target) (text : String) : m Ending :=
  match target with
  | .stdout => return .success text
  | .file path => do
    match ← files.write path text with
    | .ok () => return .success ""
    | .error reason => return .failure (.ofCause (.uncreatableFile path reason))

/-- Compiles the stencil in the bytes of a file and prints something about it. -/
def runOn (files : Files m) (options : Options) (path : String) (bytes : List UInt8) :
    m Ending := do
  match options.definition path bytes >>= options.compile with
  | .error error => return .failure error
  | .ok made =>
    let ending ←
      match made.value >>= (options.emission.getD .kernel).render with
      | .error error => pure (Ending.failure error)
      | .ok text => print files (options.target.getD .stdout) text
    return ending.withLog (options.logLevel.getD .warn) made.log

/-- Runs the compiler with some options. -/
def runWith (files : Files m) (options : Options) : m Ending := do
  if options.listPasses then return .success (PassTable.standard.helpAll ++ "\n")
  match options.file with
  | none => return .failure (.ofCause .noInput)
  | some path =>
    match ← files.read path with
    | .error reason => return .failure (.ofCause (.unreadableFile path reason))
    | .ok bytes => runOn files options path bytes

/-- Runs the compiler with the words on its command line. -/
def run (files : Files m) (words : List String) : m Ending :=
  match Options.read words with
  | .error misuse => return .misuse misuse
  | .ok .help => return .success (helpText ++ "\n")
  | .ok (.run options) => runWith files options

end GridStencil.CommandLine
