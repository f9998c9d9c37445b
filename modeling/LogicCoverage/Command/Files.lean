/-!
# Files

The files that a command sees, each under the names of the directories that lead to it from the
root. Paths are followed a name at a time, and every name but the last has to be a directory.
-/

namespace LogicCoverage

/-- The names that lead from the root to a file or directory. -/
abbrev Location := List String

/-- Why a file could not be read. -/
inductive FileError where
  | notFound
  | notDirectory
  | isDirectory
  | nameTooLong
  | nulInPath
  | notUtf8
deriving DecidableEq

def FileError.message : FileError → String
  | notFound => "No such file or directory (os error 2)"
  | notDirectory => "Not a directory (os error 20)"
  | isDirectory => "Is a directory (os error 21)"
  | nameTooLong => "File name too long (os error 36)"
  | nulInPath => "file name contained an unexpected NUL byte"
  | notUtf8 => "stream did not contain valid UTF-8"

structure Files where
  /-- Where paths start that do not start at the root. -/
  workingDirectory : Location
  /-- Directories that may hold no file. -/
  directories : List Location
  contents : List (Location × ByteArray)

namespace Files

variable (fs : Files)

def content? (place : Location) : Option ByteArray := fs.contents.lookup place

/-- Directories are those given and those that lead to something. -/
def isDirectoryAt (place : Location) : Bool :=
  place.isPrefixOf fs.workingDirectory || fs.directories.any place.isPrefixOf ||
    fs.contents.any fun (file, _) => place.isPrefixOf file && place ≠ file

/-- The bytes that a name may take. -/
def maxName : Nat := 255

/-- The bytes that a path may take. -/
def maxPath : Nat := 4095

/-- Follows names from a location. -/
def follow : Location → List String → Except FileError Location
  | place, [] => .ok place
  | place, name :: rest =>
    if !fs.isDirectoryAt place then
      .error (if (fs.content? place).isSome then .notDirectory else .notFound)
    else if name = "" || name = "." then follow place rest
    else if name = ".." then follow place.dropLast rest
    else if maxName < name.utf8ByteSize then .error .nameTooLong
    else follow (place ++ [name]) rest

/-- The stretches of text between slashes. -/
def splitSlashes : List Char → List (List Char)
  | [] => [[]]
  | c :: rest =>
    if c = '/' then [] :: splitSlashes rest
    else
      match splitSlashes rest with
      | part :: parts => (c :: part) :: parts
      | [] => [[c]]

/-- The parts of a path between its slashes. -/
def parts (path : String) : List String := (splitSlashes path.toList).map String.ofList

/-- The path starts at the root. -/
def isAbsolute (path : String) : Bool := path.toList.head? = some '/'

/-- The location that a path leads to; whether something is there is another matter. A slash at the
end leads to a directory. -/
def locate (path : String) : Except FileError Location :=
  if path.toList.contains '\x00' then .error .nulInPath
  else if path.isEmpty then .error .notFound
  else if maxPath < path.utf8ByteSize then .error .nameTooLong
  else fs.follow (if isAbsolute path then [] else fs.workingDirectory) (parts path)

/-- The path leads to a directory. -/
def isDirectory (path : String) : Bool :=
  match fs.locate path with
  | .ok place => fs.isDirectoryAt place
  | .error _ => false

/-- The path leads to a file. -/
def isFile (path : String) : Bool :=
  match fs.locate path with
  | .ok place => (fs.content? place).isSome
  | .error _ => false

/-- The text that a file holds. -/
def read (path : String) : Except FileError String := do
  let place ← fs.locate path
  match fs.content? place with
  | some bytes =>
    match String.fromUTF8? bytes with
    | some text => .ok text
    | none => .error .notUtf8
  | none => .error (if fs.isDirectoryAt place then .isDirectory else .notFound)

/-- The text that a file was given is read. -/
theorem read_eq {path text : String} {place : Location} (hplace : fs.locate path = .ok place)
    (h : fs.content? place = some text.toUTF8) : fs.read path = .ok text := by
  have htext : String.fromUTF8? text.toUTF8 = some text := dif_pos text.isValidUTF8
  simp only [read, hplace, bind, Except.bind, h, htext]

/-- Replaces what the file at a location holds. -/
def writeAt (place : Location) (text : String) : List (Location × ByteArray) → List (Location × ByteArray)
  | [] => [(place, text.toUTF8)]
  | (file, bytes) :: rest =>
    if file = place then (file, text.toUTF8) :: rest else (file, bytes) :: writeAt place text rest

/-- Writes a text to a file. -/
def write (path text : String) : Except FileError Files := do
  let place ← fs.locate path
  if fs.isDirectoryAt place then .error .isDirectory
  else .ok { fs with contents := writeAt place text fs.contents }

/-- The path of a file within a directory. -/
def join (directory name : String) : String :=
  if directory.toList.getLast? = some '/' then directory ++ name else directory ++ "/" ++ name

end Files

end LogicCoverage
