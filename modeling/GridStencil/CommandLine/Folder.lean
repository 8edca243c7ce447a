import GridStencil.CommandLine.Run
import GridStencil.StencilId

/-!
Files held in memory.

Paths lead from the folder downwards. A file can be written where its directory exists; directories
exist as far as files lie in them.
-/

namespace GridStencil.CommandLine

/-- Files by the names on their paths from the folder. -/
structure Folder where
  files : List (List String × List UInt8)

namespace Folder

/-- Why a path cannot be used. -/
inductive Obstacle
  | notFound
  | notDirectory
  | isDirectory
deriving DecidableEq

/-- The reason as the operating system words it. -/
def Obstacle.reason : Obstacle → String
  | notFound => "No such file or directory (os error 2)"
  | notDirectory => "Not a directory (os error 20)"
  | isDirectory => "Is a directory (os error 21)"

/-- The names on a path. -/
def names (path : String) : List String :=
  (path.splitOn "/").filter fun name => name != "" && name != "."

/-- Whether a path says by its end that it leads to a directory. -/
def endsInDirectory (path : String) : Bool :=
  match (path.splitOn "/").getLast? with
  | some last => last == "" || last == "."
  | none => false

/-- A folder of some files. -/
def ofList (files : List (String × List UInt8)) : Folder :=
  ⟨files.map fun (path, bytes) => (names path, bytes)⟩

/-- The bytes of the file at a path of names. -/
def file? (folder : Folder) (path : List String) : Option (List UInt8) :=
  folder.files.lookup path

/-- Whether a path of names leads to a directory. -/
def hasDirectory (folder : Folder) (path : List String) : Bool :=
  path.isEmpty || folder.files.any fun (file, _) => path != file && path.isPrefixOf file

/-- Whether a path of names leads through a file. -/
def leadsThroughFile (folder : Folder) (path : List String) : Bool :=
  folder.files.any fun (file, _) => path != file && file.isPrefixOf path

/-- Whether a path leaves the folder, where nothing is known. -/
def leaves (path : String) : Bool := path = "" || path.startsWith "/"

/-- The bytes of the file at a path. -/
def read (folder : Folder) (path : String) : Except Obstacle (List UInt8) :=
  let parts := names path
  if leaves path then .error .notFound
  else if folder.hasDirectory parts then .error .isDirectory
  else if folder.leadsThroughFile parts then .error .notDirectory
  else
    match folder.file? parts with
    | none => .error .notFound
    | some bytes => if endsInDirectory path then .error .notDirectory else .ok bytes

/-- The folder after bytes were written to a path. -/
def write (folder : Folder) (path : String) (bytes : List UInt8) : Except Obstacle Folder :=
  let parts := names path
  if leaves path then .error .notFound
  else if folder.hasDirectory parts || endsInDirectory path then .error .isDirectory
  else if folder.leadsThroughFile parts then .error .notDirectory
  else if folder.hasDirectory parts.dropLast then
    .ok ⟨(parts, bytes) :: folder.files.filter (·.1 != parts)⟩
  else .error .notFound

/-- The files of a folder that a run may read and write. -/
def asFiles : Files (StateM Folder) where
  read path := fun folder => ((folder.read path).mapError Obstacle.reason, folder)
  write path text := fun folder =>
    match folder.write path (StencilId.utf8 text) with
    | .ok folder => (.ok (), folder)
    | .error obstacle => (.error obstacle.reason, folder)

/-- The end of a run in a folder, and the folder behind it. -/
def run (folder : Folder) (words : List String) : Ending × Folder :=
  CommandLine.run asFiles words folder

end Folder

end GridStencil.CommandLine
