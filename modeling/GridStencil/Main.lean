import GridStencil.CommandLine.Run

/-!
The compiler as a program.
-/

namespace GridStencil.CommandLine

/-- The reason for a failed access as the operating system words it. -/
def reasonOf (error : IO.Error) : String :=
  match error with
  | .noFileOrDirectory _ code _ => "No such file or directory (os error " ++ toString code ++ ")"
  | .permissionDenied _ code _ => "Permission denied (os error " ++ toString code ++ ")"
  | .inappropriateType _ code _ =>
    (if code = 20 then "Not a directory" else "Is a directory") ++
      " (os error " ++ toString code ++ ")"
  | other => toString other

/-- The files on the disk. -/
def disk : Files IO where
  read path := do
    try
      let bytes ← IO.FS.readBinFile path
      return .ok bytes.toList
    catch error => return .error (reasonOf error)
  write path text := do
    try
      IO.FS.writeFile path text
      return .ok ()
    catch error => return .error (reasonOf error)

end GridStencil.CommandLine

/-- Runs the compiler with the words on the command line. -/
def main (words : List String) : IO UInt32 := do
  let ending ← GridStencil.CommandLine.run GridStencil.CommandLine.disk words
  IO.print ending.stdout
  IO.eprint ending.stderr
  return ending.code.toUInt32
