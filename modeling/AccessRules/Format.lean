import AccessRules.Files.Path
import AccessRules.Json.Reader
import AccessRules.Toml.Reader

/-! The formats of policy documents, both of which are read as JSON values. -/
namespace AccessRules

inductive Format where
  | json
  | toml
deriving DecidableEq, Repr

namespace Format

/-- The format of a file by its extension, in which upper and lower case are alike. -/
def ofPath (path : String) : Format :=
  match Path.extension? path with
  | some ext => if ext.toList.map Char.toLower = "toml".toList then .toml else .json
  | none => .json

def read? : Format → String → Option Json
  | .json => Json.ofText?
  | .toml => Toml.ofText?

end Format
end AccessRules
