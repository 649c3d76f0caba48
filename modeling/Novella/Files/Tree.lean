import Novella.Files.Disk

/-!
# Trees of files

A `Tree` is a file system made of texts. A directory is there as long as a file is in or below
it. Paths are relative; a path that ends with a slash can only name a directory.
-/

namespace Novella.Files

/-- Files under their paths, a path being the names on the way to the file and its own. -/
structure Tree where
  files : List (List String × String) := []

def splitSlashes : List Char → List (List Char)
  | [] => [[]]
  | c :: rest =>
    if c = '/' then [] :: splitSlashes rest
    else match splitSlashes rest with
      | [] => [[c]]
      | part :: parts => (c :: part) :: parts

def names (path : String) : List String :=
  ((splitSlashes path.toList).filter fun part => part ≠ [] && part ≠ ['.']).map String.ofList

/-- Whether a path can only be that of a directory. -/
def namesDirectory (path : String) : Bool :=
  match (splitSlashes path.toList).getLast? with
  | some part => part = [] || part = ['.']
  | none => true

inductive Place where
  | file (text : String)
  | directory
  | missing
  /-- A path that leads through a file. -/
  | belowFile
  deriving DecidableEq

namespace Tree

def put (t : Tree) (path : List String) (text : String) : Tree :=
  ⟨t.files.filter (·.1 ≠ path) ++ [(path, text)]⟩

def ofList (files : List (String × String)) : Tree :=
  files.foldl (fun t (path, text) => t.put (names path) text) {}

def look (t : Tree) (path : String) : Place :=
  let ns := names path
  if path.startsWith "/" then .missing
  else match t.files.lookup ns with
    | some text => if namesDirectory path then .belowFile else .file text
    | none =>
      if t.files.any fun (p, _) => p.isPrefixOf ns then .belowFile
      else if ns.isEmpty || t.files.any fun (p, _) => ns.isPrefixOf p then .directory
      else .missing

def read? (t : Tree) (path : String) : Option String :=
  match t.look path with
  | .file text => some text
  | _ => none

def exists? (t : Tree) (path : String) : Bool :=
  match t.look path with
  | .file _ | .directory => true
  | .missing | .belowFile => false

def write? (t : Tree) (path text : String) : Option Tree :=
  match t.look path with
  | .file _ => some (t.put (names path) text)
  | .missing =>
    if path.startsWith "/" || namesDirectory path then none else some (t.put (names path) text)
  | .directory | .belowFile => none

/-- The file of a path, or all files in and below a directory. -/
def walk (t : Tree) (root : String) : List Found :=
  match t.look root with
  | .file _ => [.file root]
  | .missing => [walkFailure root "No such file or directory (os error 2)"]
  | .belowFile => [walkFailure root "Not a directory (os error 20)"]
  | .directory =>
    let ns := names root
    (t.files.filter fun (p, _) => ns.isPrefixOf p).map fun (p, _) =>
      .file (below root ("/".intercalate (p.drop ns.length)))

def disk : Disk (StateM Tree) where
  read? path := return (← get).read? path
  exists? path := return (← get).exists? path
  walk root := return (← get).walk root
  write path text := do
    match (← get).write? path text with
    | some t => set t; return true
    | none => return false

end Tree

end Novella.Files
