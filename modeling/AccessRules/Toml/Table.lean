import AccessRules.Json.Basic

/-! Tables that a TOML document builds up. A table is opened by a header, implied by a longer
header, or made by a dotted key, and this decides what may be added to it later. -/
namespace AccessRules
namespace Toml

inductive Origin where
  | opened
  | implied
  | dotted
deriving DecidableEq, Repr

inductive Item where
  | value (j : Json)
  | table (origin : Origin) (entries : List (String × Item))
  /-- An array of tables, of which the last one may still grow. -/
  | tables (finished : List (List (String × Item))) (last : List (String × Item))

abbrev Entries := List (String × Item)

namespace Entries

def set (key : String) (item : Item) : Entries → Entries
  | [] => [(key, item)]
  | (k, old) :: rest => if k = key then (k, item) :: rest else (k, old) :: set key item rest

/-- Changes the table that a path leads to, and creates the tables that are missing. A dotted key
does not enter a table that has been opened by a header, and nothing enters a value. -/
def update (dotted : Bool) (change : Origin → Entries → Option Entries) :
    List String → Origin → Entries → Option Entries
  | [], origin, entries => change origin entries
  | key :: path, _, entries =>
    match entries.lookup key with
    | none => do
      let origin := if dotted then .dotted else .implied
      return entries.set key (.table origin (← update dotted change path origin []))
    | some (.table origin inner) =>
      if dotted && origin = .opened then none
      else do return entries.set key (.table origin (← update dotted change path origin inner))
    | some (.tables finished last) => do
      return entries.set key (.tables finished (← update dotted change path .opened last))
    | some (.value _) => none

/-- Puts a value under a dotted key. A key with several parts ends in a table that dotted keys
made, a key with one part in a table that they did not make, and no key is used twice. -/
def assign (path : List String) (key : String) (j : Json) (origin : Origin) (entries : Entries) :
    Option Entries :=
  update true (fun o es =>
    if (o = .dotted) = path.isEmpty || (es.lookup key).isSome then none
    else some (es ++ [(key, .value j)])) path origin entries

/-- Opens a table, which may so far only have been implied. -/
def openTable (path : List String) (key : String) (root : Entries) : Option Entries :=
  update false (fun _ es =>
    match es.lookup key with
    | none => some (es.set key (.table .opened []))
    | some (.table .implied inner) => some (es.set key (.table .opened inner))
    | _ => none) path .opened root

def openElement (path : List String) (key : String) (root : Entries) : Option Entries :=
  update false (fun _ es =>
    match es.lookup key with
    | none => some (es.set key (.tables [] []))
    | some (.tables finished last) => some (es.set key (.tables (finished ++ [last]) []))
    | _ => none) path .opened root

/-- Puts a value under a dotted key in the table of the current header. -/
def assignIn (header path : List String) (key : String) (j : Json) (root : Entries) :
    Option Entries :=
  update false (fun origin es => es.assign path key j origin) header .opened root

end Entries

mutual

def Item.toJson : Item → Json
  | .value j => j
  | .table _ entries => Json.ofMembers (Entries.members entries)
  | .tables finished last =>
    .array (Entries.allToJson finished ++ [Json.ofMembers (Entries.members last)])

def Entries.members : List (String × Item) → List (String × Json)
  | [] => []
  | (key, item) :: rest => (key, item.toJson) :: Entries.members rest

def Entries.allToJson : List (List (String × Item)) → List Json
  | [] => []
  | entries :: rest => Json.ofMembers (Entries.members entries) :: Entries.allToJson rest

end

def Entries.toJson (entries : Entries) : Json := Json.ofMembers (Entries.members entries)

end Toml
end AccessRules
