/-
# Reading and writing files

Programs on files are written over an arbitrary way of reading and writing them.  `FileSystem` is
a store of files as a value: it holds texts and directories under paths relative to its own
directory.  A path is followed step by step.  It can lead out of the store into the directories
around it, which hold nothing that can be named; a step or a path that is too long leads nowhere.
-/
import ConvFlow.NameMap

namespace ConvFlow

/-- Why a file cannot be read or written. -/
inductive FileError where
  /-- There is no such file or directory. -/
  | notFound
  /-- A file stands where a directory is needed. -/
  | notDirectory
  /-- A directory stands where a file is needed. -/
  | isDirectory
  /-- The path, or one of its steps, is too long. -/
  | nameTooLong
  /-- The path holds a NUL character. -/
  | nameWithNul
  /-- Some other cause, in words. -/
  | other (text : String)
  deriving DecidableEq

/-- The wording of a cause. -/
def FileError.message : FileError → String
  | notFound => "No such file or directory (os error 2)"
  | notDirectory => "Not a directory (os error 20)"
  | isDirectory => "Is a directory (os error 21)"
  | nameTooLong => "File name too long (os error 36)"
  | nameWithNul => "file name contained an unexpected NUL byte"
  | other text => text

/-- Reading and writing texts by path. -/
class Storage (m : Type → Type) where
  /-- The text of a file. -/
  read : String → m (Except FileError String)
  /-- Replace the text of a file, or create the file. -/
  write : String → String → m (Except FileError Unit)

namespace Path

/-- The steps of a path; an empty step leads nowhere. -/
def steps (path : String) : List String := (path.splitOn "/").filter (· != "")

/-- The path with the given steps, of which the last comes first. -/
def ofReversed (steps : List String) : String := "/".intercalate steps.reverse

/-- The part behind the last point of a file's name, if something stands before the point. -/
def extension? (path : String) : Option String := do
  let name ← ((steps path).filter (· != ".")).getLast?
  if name = ".." then none
  else
    let behind := (name.toList.reverse.takeWhile (· != '.')).reverse
    let before := name.length - behind.length
    if before ≤ 1 then none else some (String.ofList behind)

/-- How many bytes a step may have. -/
def stepLimit : Nat := 255

/-- How many bytes a path may have. -/
def lengthLimit : Nat := 4095

end Path

/-- What a path can lead to. -/
inductive FileSystem.Entry where
  /-- A file with its text. -/
  | file (text : String)
  | directory
  deriving DecidableEq

/-- Files and directories, each under the path that leads to it. -/
abbrev FileSystem := NameMap FileSystem.Entry

namespace FileSystem

/-- A directory. -/
inductive Directory where
  /-- A directory of the store, by the steps that lead to it from the store's own, last one
  first. -/
  | inside (place : List String)
  /-- A directory around the store. -/
  | outside

/-- The end of a path. -/
inductive Target where
  /-- The path ends with a step to the same place or back, and so in a directory. -/
  | directory
  /-- The path ends with a name in a directory. -/
  | name (parent : Directory) (name : String)

/-- Whether something is stored below a path. -/
def hasBelow (fs : FileSystem) (name : String) : Bool :=
  fs.keys.any fun k => (name ++ "/").isPrefixOf k

/-- What stands at a place in the store. -/
def entryAt? (fs : FileSystem) (place : List String) : Option Entry :=
  let name := Path.ofReversed place
  if hasBelow fs name then some .directory else fs[name]?

/-- The place of a name in a directory.  The directories around the store hold nothing. -/
def place (parent : Directory) (name : String) : Except FileError (List String) :=
  if Path.stepLimit < name.utf8ByteSize then .error .nameTooLong
  else
    match parent with
    | .inside above => .ok (name :: above)
    | .outside => .error .notFound

/-- The directory that a name in a directory stands for. -/
def descend (fs : FileSystem) (parent : Directory) (name : String) :
    Except FileError Directory := do
  let place ← place parent name
  match fs.entryAt? place with
  | some .directory => return .inside place
  | some (.file _) => throw .notDirectory
  | none => throw .notFound

/-- The directory that holds a directory. -/
def Directory.up : Directory → Directory
  | inside (_ :: place) => inside place
  | inside [] => outside
  | outside => outside

/-- Follow steps from a directory: all but the last have to lead to directories. -/
def follow (fs : FileSystem) (d : Directory) : List String → Except FileError Target
  | [] => .ok .directory
  | "." :: rest => follow fs d rest
  | ".." :: rest => follow fs d.up rest
  | [s] => .ok (.name d s)
  | s :: rest => do follow fs (← fs.descend d s) rest

/-- The end of a path. -/
def locate (fs : FileSystem) (path : String) : Except FileError Target :=
  if path.contains '\x00' then .error .nameWithNul
  else if path = "" then .error .notFound
  else if Path.lengthLimit < path.utf8ByteSize then .error .nameTooLong
  else follow fs (if path.startsWith "/" then .outside else .inside []) (Path.steps path)

/-- The text of the file at a path.  A path that goes on behind the name asks for a directory. -/
def readText (fs : FileSystem) (path : String) : Except FileError String := do
  match ← fs.locate path with
  | .directory => throw .isDirectory
  | .name parent name =>
    match fs.entryAt? (← place parent name) with
    | some (.file text) => if path.endsWith "/" then throw .notDirectory else return text
    | some .directory => throw .isDirectory
    | none => throw .notFound

/-- The files after writing a text to a path.  A path that goes on behind the name is taken for a
directory's before anything is looked for. -/
def writeText (fs : FileSystem) (path text : String) : Except FileError FileSystem := do
  match ← fs.locate path with
  | .directory => throw .isDirectory
  | .name parent name =>
    if path.endsWith "/" then throw .isDirectory
    let place ← place parent name
    match fs.entryAt? place with
    | some .directory => throw .isDirectory
    | _ => return fs.insert (Path.ofReversed place) (.file text)

/-- Reading and writing in a store of files. -/
instance : Storage (StateM FileSystem) where
  read path := do return readText (← get) path
  write path text := do
    match writeText (← get) path text with
    | .ok fs => set fs; return .ok ()
    | .error e => return .error e

end FileSystem

end ConvFlow
