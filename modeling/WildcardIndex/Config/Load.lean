import WildcardIndex.Config.Text
/-!
# Configuration — loading it from where the program runs

The settings of a file count more than the defaults, and those of the
environment more than the file's. What the program runs in is a value here: the
files of its working directory and the variables it was started with. A file
that is missing is skipped, unless it is required.
-/

namespace WildcardIndex

/-- What a program runs in. -/
structure Surroundings where
  /-- The files of the working directory, with their texts. -/
  files : List (String × String)
  /-- The environment, in the order it was set. -/
  environment : List (String × String)

/-- What there is at a path. -/
inductive Located where
  /-- A file, by its name. -/
  | file (name text : String)
  /-- A directory. -/
  | directory
  /-- Nothing. -/
  | nothing
  /-- A file, where the path goes on as if it were a directory. -/
  | throughFile
  /-- Nothing, for no name can be as long. -/
  | tooLong

namespace Surroundings

/-- The most bytes of a path. -/
def longestPath : Nat := 4095

/-- The most bytes of a component of a path. -/
def longestName : Nat := 255

/-- What there is at a path. Components that stay where they are do not count,
but only a directory can have one behind it. -/
def locate (s : Surroundings) (path : String) : Located :=
  let steps := path.splitOn "/"
  if longestPath < path.utf8ByteSize then .tooLong
  else match steps.filter fun step => step != "" && step != "." with
    | [] => if path.isEmpty then .nothing else .directory
    | name :: below =>
      if longestName < name.utf8ByteSize then .tooLong
      else if name = ".." then (if below.isEmpty then .directory else .nothing)
      else if path.startsWith "/" then .nothing
      else match s.files.lookup name with
        | none => .nothing
        | some text =>
          if below.isEmpty && steps.getLast? == some name then .file name text
          else .throughFile

end Surroundings

namespace Config

/-- The file that is loaded by default. -/
def defaultPath : String := "likeindex.toml"

/-- Loads a configuration from the file at a path, if there is one, and from
the environment. -/
def load (s : Surroundings) (path : String) (codec : Codec := .standard) :
    Except ConfigError Config := do
  let given ← match s.locate path with
    | .file name text => do pure (codec.merge codec.defaults (← givenBy codec (.file name) text))
    | _ => pure codec.defaults
  ofData codec (codec.merge given (codec.environment s.environment))

/-- Loads a configuration from the file at a path, which has to be there. -/
def loadRequired (s : Surroundings) (path : String) (codec : Codec := .standard) :
    Except ConfigError Config :=
  if path.contains '\x00' then
    .error (.unreadable "file name contained an unexpected NUL byte")
  else
    match s.locate path with
    | .nothing => .error (.fileNotFound path)
    | .throughFile => .error (.unreadable "Not a directory (os error 20)")
    | .tooLong => .error (.unreadable "File name too long (os error 36)")
    | _ => load s path codec

end Config

end WildcardIndex
