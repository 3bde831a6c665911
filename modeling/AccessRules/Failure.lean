import AccessRules.Files.FileTree
import AccessRules.Format
import AccessRules.Json.Record
import AccessRules.Policy.Basic
import AccessRules.Schema.Violation
import AccessRules.Text.Brace

/-! Why a policy cannot be compiled. -/
namespace AccessRules

inductive FailureKind where
  | configuration
  | schema
  | model
  | type
  | layout
  | output
deriving DecidableEq, Repr

/-- The full text of a failure with a reason. -/
def FailureKind.message (k : FailureKind) (reason : String) : String :=
  (match k with
    | .configuration => "configuration error: "
    | .schema => "schema validation error: "
    | .model => "invalid policy model: "
    | .type => "unsupported type: "
    | .layout => "render failed: "
    | .output => "failed to write rules output: ") ++ reason

inductive Failure where
  | unreadable (path : String) (fault : FileFault)
  | malformed (format : Format)
  | badSchema
  | violated (violations : List Violation)
  | undecodable (cause : DecodeError)
  | noMethods (segment : Segment)
  | unsupportedType (name : String)
  | unwritable (path : String) (fault : FileFault)

namespace Failure

def kind : Failure → FailureKind
  | .unreadable .. | .malformed _ | .badSchema => .configuration
  | .violated _ => .schema
  | .undecodable _ | .noMethods _ => .model
  | .unsupportedType _ => .type
  | .unwritable .. => .output

def reason : Failure → String
  | .unreadable path fault => "failed to read policy file '" ++ path ++ "': " ++ fault.message
  | .malformed .json => "failed to parse policy JSON"
  | .malformed .toml => "failed to parse policy TOML"
  | .badSchema => "invalid JSON Schema document"
  | .violated violations => "; ".intercalate (violations.map Violation.text)
  | .undecodable cause => cause.message
  | .noMethods s =>
    "allow rule on '" ++ s.collection ++ "/" ++ Text.braced s.wildcard ++
      "' must declare at least one method"
  | .unsupportedType name => name
  | .unwritable path fault => "'" ++ path ++ "': " ++ fault.message

def message (f : Failure) : String := f.kind.message f.reason

end Failure
end AccessRules
