import AccessRules.Json.Basic
import AccessRules.Text.Digits
import AccessRules.Text.Split

/-! References between schemas. A reference is a relative or full address with a fragment. The
address of the document at hand has a scheme of its own, no authority and the root for a path, and
the fragment is a pointer into the document. -/
namespace AccessRules
namespace Reference

def isPlain (c : Char) : Bool := c.isAlphanum || "-._~!$&'()*+,;=:@".toList.contains c

/-- Whether all characters are plain ones, some others, or written by their codes. -/
def isEncoded (others : List Char) : List Char → Bool
  | '%' :: a :: b :: rest =>
    Text.isDigitIn 16 a && Text.isDigitIn 16 b && isEncoded others rest
  | c :: rest => (isPlain c || others.contains c) && isEncoded others rest
  | [] => true

def decode : List Char → List UInt8
  | '%' :: a :: b :: rest => (Text.ofDigits 16 [a, b]).toUInt8 :: decode rest
  | c :: rest => c.toNat.toUInt8 :: decode rest
  | [] => []

def decodedText? (cs : List Char) : Option String :=
  String.fromUTF8? (ByteArray.mk (decode cs).toArray)

/-- What is left of the parts of a path when each step up takes away the part before it. -/
def climb (parts : List String) : List String :=
  (parts.foldl (fun done part =>
    if part = "." then done else if part = ".." then done.tail else part :: done) []).reverse

def isRootPath : List Char → Bool
  | '/' :: rest =>
    let parts := (Text.splitOn '/' rest).map fun p => (decodedText? p).getD "%"
    isEncoded ['/'] rest && [[], [""]].contains (climb parts)
  | _ => false

def ownScheme : List Char := "json-schema".toList

/-- Whether an address, seen from the document at hand, is that of the document. -/
def isOwnAddress (address : List Char) : Bool :=
  let scheme := address.takeWhile fun c => !(":/?".toList.contains c)
  let onward : List Char → Bool
    | '/' :: '/' :: path => isRootPath path
    | _ => false
  match address.drop scheme.length, address with
  | ':' :: rest, _ => scheme.map Char.toLower = ownScheme && onward rest
  | _, [] => true
  | _, '/' :: '/' :: path => isRootPath path
  | _, '/' :: rest => isRootPath ('/' :: rest)
  | _, relative => isRootPath ('/' :: relative)

def split (reference : String) : List Char × List Char :=
  let address := reference.toList.takeWhile (· != '#')
  (address, reference.toList.drop (address.length + 1))

def isReference (text : String) : Bool :=
  let (address, fragment) := split text
  isEncoded ['/', '?'] address && isEncoded ['/', '?'] fragment

/-- The fragment of a reference into the document at hand. -/
def fragment? (reference : String) : Option (List Char) :=
  let (address, fragment) := split reference
  if isOwnAddress address && isEncoded ['/', '?'] fragment then some fragment else none

/-- A name in a pointer, in which a tilde or a slash is written as a tilde and a digit. Any other
character after a tilde stands for itself, like the tilde. -/
def pointerName : List Char → List Char
  | '~' :: '0' :: rest => '~' :: pointerName rest
  | '~' :: '1' :: rest => '/' :: pointerName rest
  | '~' :: c :: rest => '~' :: c :: pointerName rest
  | c :: rest => c :: pointerName rest
  | [] => []

/-- The part of a value that one token of a pointer leads to. -/
def descend? (j : Json) (token : List Char) : Option Json :=
  match j with
  | .object members => members.lookup (String.ofList (pointerName token))
  | .array xs => (Text.count? (String.ofList token)).bind fun i => xs[i]?
  | _ => none

def resolve? (document : Json) (reference : String) : Option Json := do
  match ← fragment? reference with
  | [] => return document
  | '/' :: pointer => (Text.splitOn '/' (← decodedText? pointer).toList).foldlM descend? document
  | _ => none

end Reference
end AccessRules
