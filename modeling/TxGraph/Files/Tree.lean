import TxGraph.Files.Path

/-!
# Files held in memory

A tree of folders and files is a place that keeps files. A path is followed part by part, from the
root or from a current folder; a part that cannot be followed decides why the path fails.
-/

namespace TxGraph

inductive FileTree
  | file (content : Bytes)
  | folder (entries : List (String × FileTree))
  deriving Repr, Inhabited

namespace FileTree

def empty : FileTree := folder []

/-- A tree with nothing but the folders down to a place. -/
def emptyAt : (place : List String) → FileTree
  | [] => empty
  | name :: rest => folder [(name, emptyAt rest)]

/-! ## Entries of folders -/

/-- Entries with a name replaced or added. -/
def put (name : String) (t : FileTree) : List (String × FileTree) → List (String × FileTree)
  | [] => [(name, t)]
  | entry :: rest => if entry.1 = name then (name, t) :: rest else entry :: put name t rest

/-- The tree with an entry put into the folder at a place. -/
def putAt : FileTree → (place : List String) → (name : String) → (new : FileTree) → FileTree
  | file content, _, _, _ => file content
  | folder entries, [], name, new => folder (put name new entries)
  | folder entries, next :: rest, name, new =>
    match entries.lookup next with
    | none => folder entries
    | some t => folder (put next (t.putAt rest name new) entries)

/-! ## Following paths -/

/-- What has been entered on the way from the root, the last first. -/
abbrev Trail := List (String × FileTree)

/-- Where a trail ends. -/
def reached (root : FileTree) : Trail → FileTree
  | [] => root
  | (_, t) :: _ => t

/-- The names down to the end of a trail. -/
def placeOf (trail : Trail) : List String :=
  (trail.map Prod.fst).reverse

/-- The entries of the folder in which a trail ends. -/
def entriesAt (root : FileTree) (trail : Trail) : Except FileError (List (String × FileTree)) :=
  match reached root trail with
  | folder entries => .ok entries
  | file _ => .error .notFolder

/-- The entry of a name. -/
def entry? (entries : List (String × FileTree)) (name : String) :
    Except FileError (Option FileTree) :=
  if Path.maxName < name.utf8ByteSize then .error .nameTooLong else .ok (entries.lookup name)

/-- A trail one part further. -/
def step (root : FileTree) (trail : Trail) (part : String) : Except FileError Trail := do
  let entries ← entriesAt root trail
  if part = "." then return trail
  else if part = ".." then return trail.tail
  else
    match ← entry? entries part with
    | some t => return (part, t) :: trail
    | none => .error .notFound

def follow (root : FileTree) : Trail → List String → Except FileError Trail
  | trail, [] => .ok trail
  | trail, part :: rest => do root.follow (← root.step trail part) rest

/-- The trail to the folder from which a path starts. -/
def start (root : FileTree) (here : List String) (p : Path) : Except FileError Trail :=
  if p.fromRoot then .ok [] else root.follow [] here

/-- What a path leads to. -/
def find (root : FileTree) (here : List String) (p : Path) : Except FileError FileTree := do
  return root.reached (← root.follow (← root.start here p) p.parts)

/-- The folder in which the last part of a path stands: its place and its entries. -/
def around (root : FileTree) (here : List String) (p : Path) :
    Except FileError (List String × List (String × FileTree)) := do
  let trail ← root.follow (← root.start here p) p.parts.dropLast
  return (placeOf trail, ← root.entriesAt trail)

/-! ## Reading and writing -/

def read (root : FileTree) (here : List String) (path : String) : Except FileError Bytes := do
  let p ← Path.ofText path
  match ← root.find here p with
  | folder _ => .error .isFolder
  | file content => if p.asksFolder then .error .notFolder else .ok content

/-- The tree with a file at a path; the folders on the way have to exist. -/
def write (root : FileTree) (here : List String) (path : String) (content : Bytes) :
    Except FileError FileTree := do
  let p ← Path.ofText path
  let (place, entries) ← root.around here p
  match p.name? with
  | none => .error .isFolder
  | some name =>
    if p.asksFolder then .error .isFolder
    else
      match ← entry? entries name with
      | some (folder _) => .error .isFolder
      | _ => .ok (root.putAt place name (file content))

/-! ## Making folders -/

/-- The tree with an empty folder at a path where nothing stands. -/
def makeFolder (root : FileTree) (here : List String) (p : Path) : Except FileError FileTree := do
  let (place, entries) ← root.around here p
  match p.name? with
  | none => .error .occupied
  | some name =>
    match ← entry? entries name with
    | some _ => .error .occupied
    | none => .ok (root.putAt place name empty)

def hasFolder (root : FileTree) (here : List String) (p : Path) : Bool :=
  match root.find here p with
  | .ok (folder _) => true
  | _ => false

/-- Makes a folder that need not be new. -/
def settle (here : List String) (p : Path) : StateM FileTree (Except FileError Unit) :=
  fun root =>
    match root.makeFolder here p with
    | .ok root => (.ok (), root)
    | .error e => (if root.hasFolder here p then .ok () else .error e, root)

/-- Makes a folder, after what is above it if that is missing. -/
def settleAfter (here : List String) (p : Path) (above : StateM FileTree (Except FileError Unit)) :
    StateM FileTree (Except FileError Unit) := do
  match ← settle here p with
  | .error .notFound =>
    match ← above with
    | .ok _ => settle here p
    | .error e => return .error e
  | result => return result

/-- Makes the folders along parts, which are given with the last first. -/
def settleAll (here : List String) (fromRoot : Bool) :
    List String → StateM FileTree (Except FileError Unit)
  | [] => return .ok ()
  | part :: above =>
    settleAfter here ⟨fromRoot, (part :: above).reverse, false⟩ (settleAll here fromRoot above)

/-- Makes the folders along a path. Those made before a failure stay. -/
def makeFolders (here : List String) (path : String) : StateM FileTree (Except FileError Unit) :=
  if path.isEmpty then return .ok ()
  else
    match Path.ofText path with
    | .error e => return .error e
    | .ok p =>
      settleAfter here p (settleAll here p.fromRoot (p.parts.filter (· != ".")).reverse.tail)

/-! ## As a store -/

/-- The files of a tree, seen from a current folder. A write that fails changes nothing. -/
def asStore (here : List String) : FileStore (StateM FileTree) where
  read path := fun root => (root.read here path, root)
  write path content := fun root =>
    match root.write here path content with
    | .ok root => (.ok (), root)
    | .error e => (.error e, root)
  makeFolders := makeFolders here

end FileTree

end TxGraph
