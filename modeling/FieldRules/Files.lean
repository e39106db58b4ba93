import FieldRules.Error

namespace FieldRules.Files

/-! Paths are texts whose names are divided by slashes. A file system takes other bytes than
those of texts for names too; such names are left out here. -/

namespace Path

def parts (path : String) : List String := (path.toList.splitOn '/').map String.ofList

def isAbsolute (path : String) : Bool := path.startsWith "/"

/-- The starts of a path, up to the whole of it. -/
def steps (path : String) : List String :=
  let names := parts path
  (List.range names.length).map fun count => "/".intercalate (names.take (count + 1))

def join (directory name : String) : String :=
  if directory = "" then name
  else if directory.endsWith "/" then directory ++ name
  else directory ++ "/" ++ name

/-- The last name of a path, if it is not a step upwards. -/
def fileName? (path : String) : Option String :=
  match (parts path).filter (fun part => part != "" && part != ".") |>.getLast? with
  | some name => if name = ".." then none else some name
  | none => none

/-- A path up to the end of its last name, if it has one. -/
def upToName? (path : String) : Option String :=
  (fileName? path).map fun _ =>
    let trailing := (parts path).reverse.dropWhile fun part => part == "" || part == "."
    "/".intercalate trailing.reverse

/-- A name split before its last point; a point at the start does not count. -/
def splitName (name : String) : String × Option String :=
  let chars := name.toList
  let suffix := (chars.reverse.takeWhile (· != '.')).reverse
  let stem := chars.take (chars.length - suffix.length - 1)
  if suffix.length < chars.length && !stem.isEmpty then
    (String.ofList stem, some (String.ofList suffix))
  else (name, none)

def stem? (path : String) : Option String := (fileName? path).map fun name => (splitName name).1

def extension? (path : String) : Option String :=
  (fileName? path).bind fun name => (splitName name).2

end Path

inductive Tree
  | file (bytes : ByteArray)
  | directory (entries : List (String × Tree))

namespace Tree

instance : Inhabited Tree := ⟨.directory []⟩

def get? (tree : Tree) : List String → Option Tree
  | [] => some tree
  | name :: rest =>
      match tree with
      | .file _ => none
      | .directory entries => (Entries.get? entries name).bind (·.get? rest)

/-- Puts a tree at a place, making the directories on the way. -/
def put (tree : Tree) (place : List String) (new : Tree) : Tree :=
  match place with
  | [] => new
  | name :: rest =>
      match tree with
      | .file _ => .directory [(name, put (.directory []) rest new)]
      | .directory entries =>
          let old := (Entries.get? entries name).getD (.directory [])
          .directory (Entries.putSorted entries name (put old rest new))

mutual

/-- The files at or below a path, each directory's entries in the order of their
names and the content of a directory at its place. -/
def filesAt (path : String) : Tree → List (String × ByteArray)
  | .file bytes => [(path, bytes)]
  | .directory entries =>
      (Entries.sort (filesOfEntries path entries)).flatMap Prod.snd

def filesOfEntries (path : String) :
    List (String × Tree) → List (String × List (String × ByteArray))
  | [] => []
  | (name, tree) :: rest =>
      (name, filesAt (Path.join path name) tree) :: filesOfEntries path rest

end

end Tree

/-- A tree of files with a directory in it from which relative paths start. -/
structure Disk where
  root : Tree
  workingDirectory : List String

namespace Disk

/-- The longest name that a file can have, in bytes. -/
def longestName : Nat := 255

/-- The longest path that can be followed, in bytes. -/
def longestPath : Nat := 4095

def canFollow (path : String) : Bool := path.utf8ByteSize ≤ longestPath

def step (disk : Disk) (place : List String) (name : String) :
    Except FileError (List String) :=
  match disk.root.get? place with
  | none => .error .notFound
  | some (.file _) => .error .notDirectory
  | some (.directory entries) =>
      if name = "" ∨ name = "." then .ok place
      else if name = ".." then .ok place.dropLast
      else if longestName < name.utf8ByteSize then .error .nameTooLong
      else if Entries.contains entries name then .ok (place ++ [name])
      else .error .notFound

def start (disk : Disk) (path : String) : List String :=
  if Path.isAbsolute path then [] else disk.workingDirectory

/-- The place of a path whose steps can all be taken. -/
def placeOf (disk : Disk) (path : String) : List String :=
  (Path.parts path).foldl
    (fun place name =>
      if name = "" ∨ name = "." then place
      else if name = ".." then place.dropLast
      else place ++ [name])
    (disk.start path)

def locate (disk : Disk) (path : String) : Except FileError (List String) :=
  if path = "" then .error .notFound
  else if path.toList.contains '\x00' then .error .nulInName
  else if !canFollow path then .error .nameTooLong
  else (Path.parts path).foldlM disk.step (disk.start path)

def tree (disk : Disk) (path : String) : Except FileError Tree := do
  match disk.root.get? (← disk.locate path) with
  | some tree => return tree
  | none => .error .notFound

def take (disk : Disk) (path : String) (tree : Tree) : Disk :=
  { disk with root := disk.root.put (disk.placeOf path) tree }

def isFile (disk : Disk) (path : String) : Bool :=
  match disk.tree path with
  | .ok (.file _) => true
  | _ => false

def isThere (disk : Disk) (path : String) : Bool := (disk.tree path).toBool

def readBytes (disk : Disk) (path : String) : Except FileError ByteArray := do
  match ← disk.tree path with
  | .file bytes => return bytes
  | .directory _ => .error .isDirectory

def textOf (bytes : ByteArray) : Except FileError String :=
  match String.fromUTF8? bytes with
  | some text => .ok text
  | none => .error .notText

def readText (disk : Disk) (path : String) : Except FileError String := do
  textOf (← disk.readBytes path)

def writeText (disk : Disk) (path text : String) : Except FileError Disk :=
  let new : Tree := .file text.toUTF8
  match disk.tree path with
  | .ok (.directory _) => .error .isDirectory
  | .ok (.file _) => do
      return { disk with root := disk.root.put (← disk.locate path) new }
  | .error .notFound =>
      if path = "" then .error .notFound else do
        let names := (Path.parts path).reverse.dropWhile (· == "")
        let directory ← names.tail.reverse.foldlM disk.step (disk.start path)
        let directory ← disk.step directory "."
        if path.endsWith "/" then .error .isDirectory
        else return { disk with root := disk.root.put (directory ++ [names.headD ""]) new }
  | .error cause => .error cause

end Disk

end FieldRules.Files
