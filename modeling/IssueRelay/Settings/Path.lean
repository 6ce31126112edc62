import IssueRelay.Text.Cut
import IssueRelay.Text.Quoted
import IssueRelay.Text.Utf8

set_option autoImplicit false

namespace IssueRelay

/-- A path by its parts. An absolute one has one slash as its root, or two, which are told apart. -/
structure FilePath where
  root : Text
  parts : List Text
  deriving DecidableEq

namespace FilePath

def rootOf (slashes : Nat) : Text :=
  if slashes = 0 then [] else if slashes = 2 then "//" else "/"

/-- The path that a text names. Empty parts and single dots lead nowhere. -/
def ofText (t : Text) : FilePath where
  root := rootOf (t.takeWhile (· = .scalar '/')).length
  parts := (Text.split (.scalar '/') t).filter fun part => part ≠ [] && part ≠ [.scalar '.']

def text (p : FilePath) : Text :=
  if p.root = [] ∧ p.parts = [] then "." else p.root ++ [.scalar '/'].intercalate p.parts

end FilePath

inductive FileError
  | surrogates (run : Utf8.SurrogateRun)
  | nullCharacter
  | notFound (path : Text)
  | notFolder (path : Text)
  | isFolder (path : Text)
  | nameTooLong (path : Text)
  deriving DecidableEq

def FileError.message : FileError → Text
  | .surrogates run => run.message
  | .nullCharacter => "embedded null byte"
  | .notFound path => "[Errno 2] No such file or directory: " ++ Text.quoted path
  | .notFolder path => "[Errno 20] Not a directory: " ++ Text.quoted path
  | .isFolder path => "[Errno 21] Is a directory: " ++ Text.quoted path
  | .nameTooLong path => "[Errno 36] File name too long: " ++ Text.quoted path

/-- Whether a surrogate stands for an octet: in names, U+DC80 to U+DCFF do for the octets 0x80 to
0xFF. -/
def standsForOctet (i : Fin 2048) : Bool := 0x480 ≤ i.val && i.val < 0x500

/-- The first surrogate of a text that stands for no octet, with the surrogates right after it;
`start` is where the text begins. -/
def nameless? (start : Nat) : Text → Option Utf8.SurrogateRun
  | [] => none
  | .scalar _ :: rest => nameless? (start + 1) rest
  | .surrogate i :: rest =>
    if standsForOctet i then nameless? (start + 1) rest
    else some ⟨start, i, (rest.takeWhile CodePoint.isSurrogate).length⟩

def nameSize : Text → Nat
  | [] => 0
  | .scalar c :: rest => c.utf8Size + nameSize rest
  | .surrogate _ :: rest => 1 + nameSize rest

/-- The files of the folder that relative paths start from, by name. It has no folders inside. -/
abbrev Folder := List (Text × List UInt8)

namespace Folder

def find? (folder : Folder) (name : Text) : Option (List UInt8) :=
  (List.find? (·.1 = name) folder).map (·.2)

/-- What stands under the first name of a path. Outside the folder nothing is known to. -/
def first? (folder : Folder) (path : FilePath) : Option (List UInt8) :=
  if path.root = [] then path.parts.head?.bind folder.find? else none

def isUp (part : Text) : Bool := part = [.scalar '.', .scalar '.']

/-- The octets of the file at a path that can be looked up. Steps up lead to folders, as far as they
go. -/
def lookUp (folder : Folder) (path : FilePath) : Except FileError (List UInt8) :=
  if 4096 ≤ nameSize path.text then .error (.nameTooLong path.text)
  else match path.parts.dropWhile isUp with
    | [] => .error (.isFolder path.text)
    | name :: rest =>
      if 255 < nameSize name then .error (.nameTooLong path.text)
      else match folder.first? path with
        | none => .error (.notFound path.text)
        | some octets => if rest = [] then .ok octets else .error (.notFolder path.text)

/-- The octets of the file that a path leads to. A path has to have octets itself, and no zero among
them. -/
def read (folder : Folder) (path : FilePath) : Except FileError (List UInt8) :=
  match nameless? 0 path.text with
  | some run => .error (.surrogates run)
  | none =>
    if .scalar '\x00' ∈ path.text then .error .nullCharacter else folder.lookUp path

end Folder

end IssueRelay
