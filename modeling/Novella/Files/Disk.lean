/-!
# Disks

What a program needs of a file system. A `Disk m` does it in the monad `m`, so that the same
program runs on real files and on a `Tree` of texts.
-/

namespace Novella.Files

/-- What a walk over a directory meets: a file, or a place that it cannot look at. -/
inductive Found where
  | file (path : String)
  | failure (message : String)
  deriving DecidableEq

/-- Access to files by their paths. -/
structure Disk (m : Type → Type) where
  /-- The text of a file; nothing if there is no such file. -/
  read? : String → m (Option String)
  /-- Whether there is a file or a directory. -/
  exists? : String → m Bool
  /-- Writes a file, and makes the directories that it is in; tells whether that succeeds. -/
  write : String → String → m Bool
  /-- The file of a path, or all files in and below a directory. -/
  walk : String → m (List Found)

def below (path name : String) : String :=
  if path.endsWith "/" then path ++ name else path ++ "/" ++ name

def walkFailure (path cause : String) : Found :=
  .failure ("IO error for operation on " ++ path ++ ": " ++ cause)

/-- Whether the name of a file ends with a point and the given extension, and has something
before that. -/
def hasExtension (extension path : String) : Bool :=
  let name := (path.toList.reverse.takeWhile (· ≠ '/')).reverse
  let ending := '.' :: extension.toList
  ending.length < name.length && ending.isSuffixOf name

end Novella.Files
