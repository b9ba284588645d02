/-!
# Reading files

What comes of reading a file as text, and the reading of files from a folder that is given
as a value.
-/

namespace Offside

/-- Why a file cannot be read as text. -/
inductive ReadFailure where
  | missing
  | notADirectory
  | isADirectory
  /-- The bytes are no UTF-8. -/
  | notText
  | other (description : String)
  deriving DecidableEq, Repr

/-- A failure to read in words. -/
def ReadFailure.message : ReadFailure → String
  | .missing => "No such file or directory (os error 2)"
  | .notADirectory => "Not a directory (os error 20)"
  | .isADirectory => "Is a directory (os error 21)"
  | .notText => "stream did not contain valid UTF-8"
  | .other description => description

/-- The text that some bytes are in UTF-8. -/
def decodeText (bytes : ByteArray) : Except ReadFailure String :=
  match String.fromUTF8? bytes with
  | some text => .ok text
  | none => .error .notText

/-- The files of a folder by name; there are no folders in it. -/
abbrev Folder := List (String × ByteArray)

namespace Folder

/-- Where a path leads that starts in a folder. -/
inductive Place where
  | folder
  /-- A directory outside, of which nothing is known but that it is there. -/
  | outside
  | file (bytes : ByteArray)

/-- The next place on a path. -/
def enter (folder : Folder) (place : Place) (name : String) : Except ReadFailure Place :=
  match place with
  | .file _ => .error .notADirectory
  | place =>
    if name = "" || name = "." then .ok place
    else if name = ".." then .ok .outside
    else
      match place with
      | .folder =>
        match folder.lookup name with
        | some bytes => .ok (.file bytes)
        | none => .error .missing
      | _ => .error .missing

/-- The names on a path, in order. -/
def names (path : List Char) : List (List Char) :=
  match path with
  | [] => [[]]
  | c :: rest =>
    match names rest with
    | [] => [[c]]
    | first :: more => if c = '/' then [] :: first :: more else (c :: first) :: more

/-- The text of the file to which a path leads. -/
def read (folder : Folder) (path : String) : Except ReadFailure String := do
  let start : Place := if path.toList.head? = some '/' then .outside else .folder
  let place ← ((names path.toList).map String.ofList).foldlM folder.enter start
  match place with
  | .file bytes => decodeText bytes
  | _ => .error .isADirectory

end Folder
end Offside
