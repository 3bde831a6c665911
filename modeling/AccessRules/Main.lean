import AccessRules.CommandLine

/-! The program: reads its arguments and files, compiles, and writes the result. -/
namespace AccessRules

def FileFault.ofError : IO.Error → FileFault
  | .noFileOrDirectory .. => .missing
  | .inappropriateType _ code _ => if code = 21 then .isDirectory else .notDirectory
  | e@(.invalidArgument _ code _) => if code = 36 then .nameTooLong else .other (toString e)
  | e => .other (toString e)

def readContents (path : String) : IO (Except FileFault String) := do
  try
    let bytes ← IO.FS.readBinFile path
    match Content.ofBytes bytes.toList with
    | .text s => return .ok s
    | .binary _ => return .error .notText
  catch e => return .error (FileFault.ofError e)

def writeContents (path text : String) : IO (Except FileFault Unit) := do
  try
    IO.FS.writeFile path text
    return .ok ()
  catch e => return .error (FileFault.ofError e)

def fail (f : Failure) : IO UInt32 := do
  IO.eprintln (CommandLine.failureLine f)
  return 1

def perform (i : Invocation) : IO UInt32 := do
  let contents ← readContents i.input
  match i.compile contents with
  | .error f => fail f
  | .ok text =>
    match ← writeContents i.outputPath text with
    | .error fault => fail (.unwritable i.outputPath fault)
    | .ok () =>
      IO.println (CommandLine.successLine i.outputPath)
      return 0

end AccessRules

open AccessRules in
def main (args : List String) : IO UInt32 := do
  match CommandLine.parse args with
  | .ok i => perform i
  | .error .showVersion =>
    IO.println CommandLine.versionLine
    return 0
  | .error .showHelp =>
    for line in CommandLine.helpLines do IO.println line
    return 0
  | .error .usageError =>
    for line in CommandLine.helpLines do IO.eprintln line
    return 2
