/-!
# Files

What the program asks of the files around it, and a tree of files that answers. Paths are texts
with slashes between their parts; one that does not start with a slash leads from the working
directory. A part leads on only from a directory that is there.
-/

namespace PitFleet

class Files (m : Type → Type) where
  /-- Whether a path leads to a file or a directory. -/
  present : String → m Bool
  /-- The text of a file, none if there is no file that can be read. -/
  read : String → m (Option String)
  /-- Makes the directories of a path up to its last part that are not there; false if one of them
  cannot be made. -/
  makeParent : String → m Bool
  /-- Writes a file anew; false if that cannot be done. -/
  write : String → String → m Bool

instance {m : Type → Type} {ε : Type} [Monad m] [Files m] : Files (ExceptT ε m) where
  present path := ExceptT.lift (Files.present path)
  read path := ExceptT.lift (Files.read path)
  makeParent path := ExceptT.lift (Files.makeParent path)
  write path text := ExceptT.lift (Files.write path text)

namespace Path

/-- The parts of a path; a path of slashes only has none. -/
def parts (path : String) : List String :=
  (path.splitOn "/").filter (· ≠ "")

def isAbsolute (path : String) : Bool :=
  path.toList.head? = some '/'

def wantsDirectory (path : String) : Bool :=
  path.toList.getLast? = some '/'

/-- The pieces between slashes, the last one first, without those at the end of the path that lead
nowhere. A dot counts only as the first piece. -/
def dropIdle : List String → List String
  | [] => []
  | [p] => if p = "" then [] else [p]
  | p :: ps => if p = "" ∨ p = "." then dropIdle ps else p :: ps

/-- The path to the directory; a path that leads nowhere has none. -/
def parent? (path : String) : Option String :=
  match dropIdle (path.splitOn "/").reverse with
  | [] => none
  | _ :: ps => some ("/".intercalate (dropIdle ps).reverse)

/-- The most bytes of a path. -/
def lengthLimit : Nat := 4095

/-- The most bytes of the name of a file or a directory. -/
def nameLimit : Nat := 255

/-- Whether a file system takes the path; one that it refuses leads nowhere. -/
def isSound (path : String) : Bool :=
  path.utf8ByteSize ≤ lengthLimit && !path.toList.contains '\x00'

/-- Whether there can be a file or a directory of that name. -/
def isName (part : String) : Bool :=
  part.utf8ByteSize ≤ nameLimit

def join (path part : String) : String :=
  if path.isEmpty ∨ wantsDirectory path then path ++ part else path ++ "/" ++ part

end Path

inductive FileNode
  | file (text : String)
  | directory (entries : List (String × FileNode))

namespace FileNode

def get? : FileNode → List String → Option FileNode
  | node, [] => some node
  | .file _, _ :: _ => none
  | .directory entries, p :: ps => (entries.lookup p).bind (·.get? ps)

/-- The tree with another node at a place; directories on the way that are not there are made, and
nothing is put below a file. -/
def set (new : FileNode) : List String → FileNode → FileNode
  | [], _ => new
  | _ :: _, .file text => .file text
  | p :: ps, .directory entries =>
    let old := (entries.lookup p).getD (.directory [])
    .directory ((p, set new ps old) :: entries.filter (·.1 ≠ p))

end FileNode

structure FileTree where
  root : FileNode
  /-- The place of the working directory. -/
  working : List String

namespace FileTree

def get? (t : FileTree) (place : List String) : Option FileNode :=
  t.root.get? place

def isDirectory (t : FileTree) (place : List String) : Bool :=
  match t.get? place with
  | some (.directory _) => true
  | _ => false

def set (t : FileTree) (place : List String) (node : FileNode) : FileTree :=
  { t with root := FileNode.set node place t.root }

/-- The place that a part leads to. -/
def step (place : List String) (part : String) : List String :=
  if part = "." then place else if part = ".." then place.dropLast else place ++ [part]

/-- The place that parts lead to; the last one need not be there. -/
def follow (t : FileTree) : List String → List String → Option (List String)
  | place, [] => some place
  | place, p :: ps => if t.isDirectory place then t.follow (step place p) ps else none

def start (t : FileTree) (path : String) : List String :=
  if Path.isAbsolute path then [] else t.working

def find? (t : FileTree) (path : String) : Option FileNode :=
  if path.isEmpty || !Path.isSound path then none
  else do
    let place ← t.follow (t.start path) (Path.parts path)
    match ← t.get? place with
    | .file text => if Path.wantsDirectory path then none else some (.file text)
    | node => some node

def makeDirectories (t : FileTree) : List String → List String → Option FileTree
  | _, [] => some t
  | place, p :: ps =>
    let place := step place p
    match t.get? place with
    | none =>
      if Path.isName p then (t.set place (.directory [])).makeDirectories place ps else none
    | some (.directory _) => t.makeDirectories place ps
    | some (.file _) => none

def makeParent (t : FileTree) (path : String) : Option FileTree :=
  match Path.parent? path with
  | none => some t
  | some parent =>
    if Path.isSound parent then t.makeDirectories (t.start path) (Path.parts parent) else none

/-- Puts a file where none or another one is; its directory has to be there. -/
def write (t : FileTree) (path text : String) : Option FileTree :=
  match (Path.parts path).getLast? with
  | none => none
  | some last =>
    if last = "." ∨ last = ".." ∨ Path.wantsDirectory path then none
    else if !Path.isSound path || !Path.isName last then none
    else do
      let place ← t.follow (t.start path) (Path.parts path)
      if t.isDirectory place then none else some (t.set place (.file text))

end FileTree

instance : Files (StateM FileTree) where
  present path t := ((t.find? path).isSome, t)
  read path t :=
    (match t.find? path with
      | some (.file text) => some text
      | _ => none, t)
  makeParent path t :=
    match t.makeParent path with
    | some t => (true, t)
    | none => (false, t)
  write path text t :=
    match t.write path text with
    | some t => (true, t)
    | none => (false, t)

end PitFleet
