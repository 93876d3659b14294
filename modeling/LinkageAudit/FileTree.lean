import LinkageAudit.Disk

/-!
# Directory trees

A directory with all it holds, as a value, and the disk that it makes. Relative paths start at its
top. Nothing outside is known but that there are directories: a path that leads out of the tree
finds no file there.

* `FileTree.locate`: follows a path name by name, as the system does.
* `FileTree.disk`: reading every path of a tree.
-/

namespace LinkageAudit

/-- What stands under a name. -/
inductive Node where
  | file (content : ByteArray)
  | directory

/-- The names from the top of a tree down to a node. -/
abbrev Location := List String

/-- The nodes below the top of a tree. A location stands there once, after its directories. -/
structure FileTree where
  nodes : List (Location × Node)

namespace FileTree

/-- The tree with nothing below its top. -/
def empty : FileTree := ⟨[]⟩

/-- The node at a location. -/
def node? (t : FileTree) (loc : Location) : Option Node :=
  if loc.isEmpty then some .directory else t.nodes.lookup loc

/-- Where a path leads: to a node of the tree, or to a directory outside. -/
inductive Place where
  | inside (loc : Location) (node : Node)
  | outside

/-- The length of the longest name that is looked up, in bytes. -/
def maxName : Nat := 255

/-- The length of the longest path that is followed, in bytes. -/
def maxPath : Nat := 4095

/-- Takes one step along a path. An empty name and `.` stay where they are, but only directories
can be stayed in. -/
def step (t : FileTree) (place : Place) (name : String) : Except ReadError Place :=
  match place with
  | .outside =>
    if name.isEmpty || name == "." || name == ".." then .ok .outside
    else if maxName < name.utf8ByteSize then .error .nameTooLong
    else .error .notFound
  | .inside _ (.file _) => .error .notDirectory
  | .inside loc .directory =>
    if name.isEmpty || name == "." then .ok place
    else if name == ".." then
      if loc.isEmpty then .ok .outside else .ok (.inside loc.dropLast .directory)
    else if maxName < name.utf8ByteSize then .error .nameTooLong
    else match t.node? (loc ++ [name]) with
      | some node => .ok (.inside (loc ++ [name]) node)
      | none => .error .notFound

/-- Follows a path. -/
def locate (t : FileTree) (path : Path) : Except ReadError Place :=
  if path.text.contains (Char.ofNat 0) then .error .zeroByte
  else if path.text.isEmpty then .error .notFound
  else if maxPath < path.text.utf8ByteSize then .error .nameTooLong
  else
    let start : Place := if path.isAbsolute then .outside else .inside [] .directory
    (path.text.splitOn "/").foldlM t.step start

/-- What reading a path gives. -/
def read (t : FileTree) (path : Path) : Except ReadError ByteArray := do
  match ← t.locate path with
  | .inside _ (.file content) => return content
  | .inside _ .directory | .outside => throw .isDirectory

/-- The tree as a disk. -/
def disk (t : FileTree) : Disk := ⟨t.read⟩

/-- The location that a path names in a tree whose directories are not yet made. -/
def locationOf (path : Path) : Location :=
  (path.text.splitOn "/").foldl (fun loc name =>
    if name.isEmpty || name == "." then loc
    else if name == ".." then loc.dropLast
    else loc ++ [name]) []

/-- Puts a node at a location, in place of what was there. -/
def set (t : FileTree) (loc : Location) (node : Node) : FileTree :=
  ⟨t.nodes.filter (·.1 != loc) ++ [(loc, node)]⟩

/-- Makes a directory, unless there is one. -/
def makeDirectory (t : FileTree) (loc : Location) : FileTree :=
  match t.node? loc with
  | some .directory => t
  | _ => t.set loc .directory

/-- Writes a node and the directories that lead to it. A directory keeps what it holds. -/
def write (t : FileTree) (path : Path) (node : Node) : FileTree :=
  let loc := locationOf path
  let withParents := (List.range loc.length).foldl (fun t n => t.makeDirectory (loc.take n)) t
  match node with
  | .directory => withParents.makeDirectory loc
  | .file content => withParents.set loc (.file content)

/-- Removes a node and everything below it. -/
def remove (t : FileTree) (path : Path) : FileTree :=
  ⟨t.nodes.filter fun (loc, _) => !(locationOf path).isPrefixOf loc⟩

end FileTree

end LinkageAudit
