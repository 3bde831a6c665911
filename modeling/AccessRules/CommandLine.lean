import AccessRules.Policy.Load

/-! The command line: what its arguments ask for, and a run over a tree of files. Arguments are
taken from left to right; a request for the version or for help ends the reading. -/
namespace AccessRules

/-- A compilation that the arguments ask for. -/
structure Invocation where
  input : String
  output? : Option String := none
  debug : Bool := false
  style : Style := {}
deriving DecidableEq, Repr

/-- Why the reading of arguments ends before a compilation. -/
inductive Halt where
  | showVersion
  | showHelp
  | usageError
deriving DecidableEq, Repr

namespace CommandLine

inductive Setting where
  | output
  | rulesVersion
  | indent
deriving DecidableEq, Repr

inductive Switch where
  | setting (s : Setting)
  | debug
  | version
  | help
deriving DecidableEq, Repr

def Switch.ofLongName? : String → Option Switch
  | "output" => some (.setting .output)
  | "rules-version" => some (.setting .rulesVersion)
  | "indent" => some (.setting .indent)
  | "debug" => some .debug
  | "version" => some .version
  | "help" => some .help
  | _ => none

def Switch.ofLetter? : Char → Option Switch
  | 'o' => some (.setting .output)
  | 'd' => some .debug
  | 'V' => some .version
  | 'h' => some .help
  | _ => none

/-- What has been given so far; nothing is given twice. -/
structure Collected where
  input? : Option String := none
  output? : Option String := none
  debug : Bool := false
  version? : Option String := none
  indent? : Option Nat := none
deriving DecidableEq, Repr

inductive Expecting where
  | anything
  | valueOf (s : Setting)
  | operand
deriving DecidableEq, Repr

namespace Collected

/-- Gives a value to a setting that has none; paths are not empty. -/
def set (c : Collected) (s : Setting) (value : String) : Except Halt Collected :=
  match s with
  | .output =>
    if c.output?.isSome || value.isEmpty then .error .usageError
    else .ok { c with output? := some value }
  | .rulesVersion =>
    if c.version?.isSome then .error .usageError else .ok { c with version? := some value }
  | .indent =>
    match c.indent?, Text.count? value with
    | none, some n => .ok { c with indent? := some n }
    | _, _ => .error .usageError

def addOperand (c : Collected) (value : String) : Except Halt Collected :=
  if c.input?.isSome || value.isEmpty then .error .usageError
  else .ok { c with input? := some value }

def setDebug (c : Collected) : Except Halt Collected :=
  if c.debug then .error .usageError else .ok { c with debug := true }

def takeLong (c : Collected) (name : String) (value? : Option String) :
    Except Halt (Collected × Expecting) :=
  match Switch.ofLongName? name, value? with
  | some (.setting s), some value => do return (← c.set s value, .anything)
  | some (.setting s), none => .ok (c, .valueOf s)
  | some .debug, none => do return (← c.setDebug, .anything)
  | some .version, none => .error .showVersion
  | some .help, none => .error .showHelp
  | _, _ => .error .usageError

/-- Letters of short options in a row; what follows a setting's letter is its value, with or without
an equals sign. -/
def takeShort (c : Collected) : List Char → Except Halt (Collected × Expecting)
  | [] => .ok (c, .anything)
  | letter :: rest =>
    match Switch.ofLetter? letter with
    | some (.setting s) =>
      match rest with
      | [] => .ok (c, .valueOf s)
      | '=' :: value => do return (← c.set s (String.ofList value), .anything)
      | value => do return (← c.set s (String.ofList value), .anything)
    | some .debug => do takeShort (← c.setDebug) rest
    | some .version => .error .showVersion
    | some .help => .error .showHelp
    | none => .error .usageError

/-- Takes one argument. A value that starts with a hyphen has to be attached to its option. -/
def take : Collected × Expecting → String → Except Halt (Collected × Expecting)
  | (c, .operand), arg => do return (← c.addOperand arg, .operand)
  | (c, .valueOf s), arg =>
    match arg.toList with
    | '-' :: _ :: _ => .error .usageError
    | _ => do return (← c.set s arg, .anything)
  | (c, .anything), arg =>
    match arg.toList with
    | ['-', '-'] => .ok (c, .operand)
    | '-' :: '-' :: rest =>
      let name := String.ofList (rest.takeWhile (· != '='))
      match rest.dropWhile (· != '=') with
      | _ :: value => c.takeLong name (some (String.ofList value))
      | [] => c.takeLong name none
    | '-' :: letters@(_ :: _) => c.takeShort letters
    | _ => do return (← c.addOperand arg, .anything)

/-- The compilation that all arguments ask for. -/
def finish : Collected × Expecting → Except Halt Invocation
  | (_, .valueOf _) => .error .usageError
  | (c, _) =>
    match c.input? with
    | none => .error .usageError
    | some input =>
      let style : Style := { version := c.version?.getD "2", indent := c.indent?.getD 2 }
      .ok { input := input, output? := c.output?, debug := c.debug, style := style }

end Collected

def parse (args : List String) : Except Halt Invocation := do
  Collected.finish (← args.foldlM Collected.take ({}, .anything))

end CommandLine

namespace Invocation

/-- Where the rules go: by default next to the input, under another extension. -/
def outputPath (i : Invocation) : String := i.output?.getD (Path.withExtension "rules" i.input)

def compile (i : Invocation) (contents : Except FileFault String) : Except Failure String := do
  let document ← Policy.readDocument i.input contents
  Policy.compileDocument Policy.schema i.style document

/-- Compiles a file of the tree and writes the rules into it; yields the path written. -/
def run (i : Invocation) (t : FileTree) : Except Failure (String × FileTree) := do
  let text ← i.compile (t.read i.input)
  match t.write i.outputPath text with
  | .ok written => return (i.outputPath, written)
  | .error fault => .error (.unwritable i.outputPath fault)

end Invocation

namespace CommandLine

def versionLine : String := "firerules 0.1.0"

def helpLines : List String :=
  ["Compiles an access policy (JSON or TOML) into a security rules file.", "",
    "Usage: firerules [OPTIONS] <INPUT>", "",
    "Options:",
    "  -o, --output <OUTPUT>      where to save the rules [default: INPUT with extension .rules]",
    "  -d, --debug                say what is being done",
    "      --rules-version <V>    value of the version header [default: 2]",
    "      --indent <N>           blanks for each nesting level [default: 2]",
    "  -h, --help                 print this help",
    "  -V, --version              print the version"]

def successLine (path : String) : String := "Wrote " ++ path

def failureLine (f : Failure) : String := "firerules: " ++ f.message

structure Outcome where
  exitCode : Nat
  output : List String := []
  errors : List String := []
  files : FileTree

def run (args : List String) (t : FileTree) : Outcome :=
  match parse args with
  | .error .showVersion => { exitCode := 0, output := [versionLine], files := t }
  | .error .showHelp => { exitCode := 0, output := helpLines, files := t }
  | .error .usageError => { exitCode := 2, errors := helpLines, files := t }
  | .ok i =>
    match i.run t with
    | .ok (path, written) => { exitCode := 0, output := [successLine path], files := written }
    | .error f => { exitCode := 1, errors := [failureLine f], files := t }

end CommandLine
end AccessRules
