import AccessRules.Files.Path

/-! Files and directories around a working directory, and what reading and writing by a path do. -/
namespace AccessRules

inductive FileFault where
  | missing
  | isDirectory
  | notDirectory
  | notText
  | nameTooLong
  /-- A name holds the character that ends names. -/
  | nameCut
  | other (reason : String)
deriving DecidableEq, Repr

def FileFault.message : FileFault → String
  | .missing => "No such file or directory (os error 2)"
  | .isDirectory => "Is a directory (os error 21)"
  | .notDirectory => "Not a directory (os error 20)"
  | .notText => "stream did not contain valid UTF-8"
  | .nameTooLong => "File name too long (os error 36)"
  | .nameCut => "file name contained an unexpected NUL byte"
  | .other reason => reason

/-- What a file holds: a text, or bytes that are no text. -/
inductive Content where
  | text (s : String)
  | binary (bytes : List UInt8)
deriving DecidableEq, Repr

def Content.ofBytes (bytes : List UInt8) : Content :=
  match String.fromUTF8? (ByteArray.mk bytes.toArray) with
  | some s => .text s
  | none => .binary bytes

inductive FileEntry where
  | file (content : Content)
  | directory
deriving DecidableEq, Repr

/-- The directories from which names are counted: the root of all, or one that lies so many levels
above the working directory. -/
inductive Anchor where
  | root
  | above (levels : Nat)
deriving DecidableEq, Repr

structure Location where
  anchor : Anchor
  names : List String
deriving DecidableEq, Repr

namespace Location

def workingDirectory : Location := ⟨.above 0, []⟩

def parent (l : Location) : Location :=
  match l.names, l.anchor with
  | [], .root => l
  | [], .above n => ⟨.above (n + 1), []⟩
  | names, anchor => ⟨anchor, names.dropLast⟩

/-- One part of a path, followed from a directory. -/
def enter (l : Location) (part : String) : Location :=
  if part = "" || part = "." then l
  else if part = ".." then l.parent
  else { l with names := l.names ++ [part] }

def ofName (name : String) : Location := (Path.parts name).foldl enter workingDirectory

end Location

/-- The files and directories that are known. The directories from which names are counted exist
whatever is listed, and so does a directory that holds something. Permissions and links are not part
of the tree, and names that differ by case only are different names. -/
structure FileTree where
  entries : List (Location × FileEntry) := []

namespace FileTree

def find? (t : FileTree) (l : Location) : Option FileEntry :=
  if l.names.isEmpty then some .directory
  else
    match t.entries.lookup l with
    | some e => some e
    | none =>
      let holdsSomething := t.entries.any fun e =>
        e.1.anchor = l.anchor && l.names.isPrefixOf e.1.names
      if holdsSomething then some .directory else none

def nameLimit : Nat := 255

/-- A path has fewer bytes than this. -/
def pathLimit : Nat := 4096

/-- Follows a part of a path, which takes a directory to start from. -/
def follow (t : FileTree) (l : Location) (part : String) : Except FileFault Location :=
  match t.find? l with
  | none => .error .missing
  | some (.file _) => .error .notDirectory
  | some .directory =>
    if nameLimit < part.utf8ByteSize then .error .nameTooLong else .ok (l.enter part)

def followAll (t : FileTree) (path : String) (parts : List String) : Except FileFault Location :=
  if path.toList.contains '\x00' then .error .nameCut
  else if path.isEmpty then .error .missing
  else if pathLimit ≤ path.utf8ByteSize then .error .nameTooLong
  else
    let start := if path.toList.head? = some '/' then ⟨.root, []⟩ else Location.workingDirectory
    parts.foldlM t.follow start

def resolve (t : FileTree) (path : String) : Except FileFault Location :=
  t.followAll path (Path.parts path)

def read (t : FileTree) (path : String) : Except FileFault String := do
  match t.find? (← t.resolve path) with
  | none => .error .missing
  | some .directory => .error .isDirectory
  | some (.file (.binary _)) => .error .notText
  | some (.file (.text s)) => .ok s

def put (t : FileTree) (l : Location) (e : FileEntry) : FileTree :=
  ⟨t.entries.filter (fun old => old.1 ≠ l) ++ [(l, e)]⟩

/-- Writes a text to a file, which is created if its directory exists. A path that ends with a slash
names a directory, whether there is one or not. -/
def write (t : FileTree) (path text : String) : Except FileFault FileTree := do
  if path.toList.getLast? = some '/' then
    let above := ((Path.parts path).reverse.dropWhile String.isEmpty).tail.reverse
    let _ ← t.followAll path (above ++ [""])
    throw .isDirectory
  let l ← t.resolve path
  match t.find? l with
  | some .directory => .error .isDirectory
  | _ => .ok (t.put l (.file (.text text)))

/-- The texts of the files below the working directory that are new or changed. -/
def changes (old new : FileTree) : List (String × String) :=
  new.entries.filterMap fun (l, e) =>
    match e with
    | .file (.text s) =>
      if l.anchor = .above 0 && old.entries.lookup l ≠ some e then some ("/".intercalate l.names, s)
      else none
    | _ => none

end FileTree
end AccessRules
