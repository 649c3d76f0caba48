import Novella.Command.Run

/-!
# The program

The command line on real files.
-/

namespace Novella

open Files (Disk Found)

def succeeds (action : IO Unit) : IO Bool := do
  try
    action
    return true
  catch _ => return false

/-- The directory part of a path; empty where there is none. -/
def directoryOf (path : String) : String :=
  String.ofList ((path.toList.reverse.dropWhile (· ≠ '/')).drop 1).reverse

def causeOf : IO.Error → String
  | .noFileOrDirectory _ _ _ => "No such file or directory (os error 2)"
  | e => toString e

partial def walkFiles (path : String) : IO (List Found) := do
  try
    let place ← IO.FS.realPath path
    if ← place.isDir then
      let entries ← place.readDir
      return (← entries.toList.mapM fun e => walkFiles (Files.below path e.fileName)).flatten
    else
      return [.file path]
  catch e => return [Files.walkFailure path (causeOf e)]

def realDisk : Disk IO where
  read? path := do
    try
      return some (← IO.FS.readFile path)
    catch _ => return none
  exists? path := succeeds do
    let _ ← IO.FS.realPath path
  write path text := succeeds do
    let directory := directoryOf path
    unless directory.isEmpty do IO.FS.createDirAll directory
    IO.FS.writeFile path text
  walk := walkFiles

end Novella

def main (args : List String) : IO UInt32 := do
  let outcome ← Novella.Command.runArguments Novella.realDisk args
  IO.print outcome.output
  unless outcome.complaint.isEmpty do IO.eprintln outcome.complaint
  return UInt32.ofNat outcome.exit
