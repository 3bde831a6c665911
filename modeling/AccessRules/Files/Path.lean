import AccessRules.Text.Split

/-! File paths as texts: the name of the file, its extension, and the path with another
extension. -/
namespace AccessRules
namespace Path

def parts (path : String) : List String := (Text.splitOn '/' path.toList).map String.ofList

def fileName? (path : String) : Option String :=
  match ((parts path).filter fun p => p != "" && p != ".").getLast? with
  | some ".." => none
  | name => name

/-- A name cut at its last dot. Two dots, and a dot in front that is the only one, are part of the
stem. -/
def splitName (name : List Char) : List Char × Option (List Char) :=
  let after := name.reverse.takeWhile (· != '.')
  let before := name.reverse.drop (after.length + 1)
  if name = ['.', '.'] || !name.contains '.' || before.isEmpty then (name, none)
  else (before.reverse, some after.reverse)

def extension? (path : String) : Option String := do
  let name ← fileName? path
  let ext ← (splitName name.toList).2
  return String.ofList ext

/-- Replaces what follows the stem of the file name, all behind the name included. -/
def setExtension (ext : String) (path : String) : String :=
  match (Text.splitOn '/' path.toList).reverse.dropWhile fun part => part = [] || part = ['.'] with
  | [] => path
  | name :: above =>
    if name = ['.', '.'] then path
    else String.ofList (['/'].intercalate (above.reverse ++ [(splitName name).1])) ++ "." ++ ext

/-- The path with another extension: the present one is cut off first, so that a name which is then
no file name stays without any. -/
def withExtension (ext : String) (path : String) : String :=
  let cs := path.toList
  let present := ((extension? path).getD "").length
  setExtension ext (String.ofList (cs.take (cs.length - present)))

end Path
end AccessRules
