import AccessRules.Text.Brace
import AccessRules.Text.Digits
import AccessRules.Text.Unshown

/-! Strings as they are quoted in messages, and single-quoted literals of the rule language. -/
namespace AccessRules
namespace Text

/-- A character inside a quoted string of a message: line and tab controls, the backslash and the
quote have short escapes, and a character without a shape of its own is written by its code. -/
def shownChar (c : Char) : String :=
  if c = '\x00' then "\\0"
  else if c = '\t' then "\\t"
  else if c = '\r' then "\\r"
  else if c = '\n' then "\\n"
  else if c = '\\' then "\\\\"
  else if c = '"' then "\\\""
  else if isUnshown c then "\\u" ++ braced (hexadecimal c.toNat)
  else String.singleton c

def shown (s : String) : String := "\"" ++ String.join (s.toList.map shownChar) ++ "\""

/-- A character inside a single-quoted literal: the backslash and the quote get a backslash. -/
def singleQuotedChar (c : Char) : List Char :=
  if c = '\\' || c = '\'' then ['\\', c] else [c]

def singleQuoted (cs : List Char) : List Char := cs.flatMap singleQuotedChar

end Text
end AccessRules
