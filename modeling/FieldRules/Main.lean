import FieldRules.CommandLine.Outcome

namespace FieldRules.CommandLine

open Files

/-! The program looks at the files that a command may use, runs the command on
them, and shows and writes what comes out. -/

/-- What is at a path, if it can be looked at. A directory is given with all that
is in it or empty; links in it are not followed to other directories. -/
partial def look (path : String) (whole : Bool) : IO (Option Tree) := do
  let place := (← IO.currentDir) / path
  let .ok found ← place.metadata.toBaseIO | return none
  if found.type != .dir then
    let .ok bytes ← (IO.FS.readBinFile path).toBaseIO | return none
    return some (.file bytes)
  let mut entries : Entries Tree := []
  if whole then
    for entry in ← place.readDir do
      let inner := Path.join path entry.fileName
      let linked := (← (place / entry.fileName).symlinkMetadata).type == .symlink
      if let some tree ← look inner (!linked) then
        entries := entries.put entry.fileName tree
  return some (.directory entries)

/-- Takes in what is at a path, if nothing is known of it. -/
def observe (disk : Disk) (path : String) : IO Disk := do
  if path = "" ∨ (disk.root.get? (disk.placeOf path)).isSome then return disk
  let some tree ← look path false | return disk
  return disk.take path tree

/-- Takes in what is at a path and at each step of it. -/
def observeSteps (disk : Disk) (path : String) : IO Disk :=
  (Path.steps path).foldlM observe disk

def observeWhole (disk : Disk) (path : String) : IO Disk := do
  let disk ← observeSteps disk path
  let some tree ← look path true | return disk
  return disk.take path tree

/-- The disk as far as a command looks at it. -/
def observeFor (environment : Environment) (arguments : Arguments) : IO Disk := do
  let place := (Path.parts (← IO.currentDir).toString).filter (· != "")
  let empty : Disk := ⟨Tree.put (.directory []) place (.directory []), place⟩
  let sources := Settings.sources environment arguments.settingsFile
  let disk ← (sources ++ arguments.command.files).foldlM observeSteps empty
  match effectiveSettings disk environment arguments with
  | .error _ => return disk
  | .ok settings =>
      match arguments.command.directory? settings with
      | some directory => observeWhole disk directory
      | none => return disk

/-- The variables that are set for this process, if they are all texts. -/
def processVariables : IO Environment := do
  let .ok bytes ← (IO.FS.readBinFile "/proc/self/environ").toBaseIO | return []
  return (((String.fromUTF8? bytes).getD "").splitOn "\x00").filterMap fun entry =>
    match entry.splitOn "=" with
    | name :: value@(_ :: _) => some (name, "=".intercalate value)
    | _ => none

def writeBack (exit : Exit) (arguments : Arguments) : IO Unit := do
  match arguments.command with
  | .config (some path) =>
      if let .ok bytes := exit.disk.readBytes path then
        IO.FS.writeBinFile path bytes
  | _ => return ()

/-- Runs the program on the files and variables that it finds. -/
def runProcess (arguments : List String) : IO UInt32 := do
  let environment ← processVariables
  let exit ← match Invocation.ofArguments arguments with
    | .run taken => do
        let exit := run (← observeFor environment taken) environment arguments
        if exit.status = 0 then writeBack exit taken
        pure exit
    | _ => pure (run ⟨.directory [], []⟩ environment arguments)
  IO.print exit.output
  IO.eprint exit.errors
  return exit.status.toUInt32

end FieldRules.CommandLine

def main (arguments : List String) : IO UInt32 := FieldRules.CommandLine.runProcess arguments
