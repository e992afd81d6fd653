import RegisterMachine.Memory.Image

/-!
# Files

The program knows its files by their paths, and `Files` is whatever answers
for them: a path leads to a file with its content, to a folder, or nowhere.
A folder can be opened like a file. That it cannot be read shows only when
it is.
-/

namespace RegisterMachine.CommandLine

/-- **Why a file cannot be had.** -/
inductive FileError where
  /-- There is nothing at the path. -/
  | notFound
  /-- The path goes through something that is no folder. -/
  | notADirectory
  /-- There is a folder, and it was to be read. -/
  | isADirectory
  /-- Something else, in the words of the system. -/
  | other (message : String)
  deriving DecidableEq, Repr

/-- The wording of a file error. -/
def FileError.message : FileError → String
  | .notFound => "No such file or directory (os error 2)"
  | .notADirectory => "Not a directory (os error 20)"
  | .isADirectory => "Is a directory (os error 21)"
  | .other message => message

/-- **Why a program cannot be loaded.** -/
inductive LoadError where
  | file (error : FileError)
  | image (error : ImageError)
  deriving DecidableEq, Repr

/-- The wording of a load error. -/
def LoadError.message : LoadError → String
  | .file error => error.message
  | .image error => error.message

/-- **What a path can lead to.** -/
inductive Node where
  | file (content : List Byte)
  | folder
  deriving DecidableEq, Repr

/-- **The files of a call.** -/
structure Files where
  /-- What there is at a path. -/
  find : String → Except FileError Node

namespace Files

/-- The content of the file at a path. -/
def read (files : Files) (path : String) : Except FileError (List Byte) :=
  match files.find path with
  | .error error => .error error
  | .ok .folder => .error .isADirectory
  | .ok (.file content) => .ok content

/-- **The memory with the program image at a path.** -/
def loadImage (files : Files) (path : String) : Except LoadError Memory :=
  match files.read path with
  | .error error => .error (.file error)
  | .ok content => (Memory.ofBytes content).mapError .image

end Files

end RegisterMachine.CommandLine
