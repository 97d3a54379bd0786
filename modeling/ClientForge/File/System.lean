-- SUMMARY: What is asked of a file system, and a tree of files and links that answers.
import ClientForge.Failure
import ClientForge.File.Path

/-!
# File systems

Commands read through a `FileReader` and write through a `FileWriter`, whatever
the file system is. `FileTree` is a file system in memory: places, each a list of
names from the root, with what is there. Its reader cannot change it.

A tree holds files, directories and links. A path is walked part by part from the
root or the working directory, and a link on the way leads elsewhere (`FileTree.locate`),
so that many paths may lead to one place. What a system refuses beyond that, as by its
permissions, is a table of the tree. Devices, several names of one file, and changes by
others in the meantime are not in it, and neither is a file that the system stops writing
in the middle.
-/

namespace ClientForge

/-- What a place holds. -/
inductive FileKind
  | file
  | directory
  | link
deriving DecidableEq, Repr

/-- Looking at a file system. -/
structure FileReader (m : Type → Type) where
  /-- The working directory. -/
  current : m Path
  /-- What a path leads to. -/
  kind : Path → m (Except FileFault FileKind)
  /-- The content of a file. -/
  read : Path → m (Except FileFault ByteArray)
  /-- The absolute path without links and steps back that leads to the same place,
  whether or not anything is there. -/
  resolve : Path → m (Except FileFault Path)

/-- Changing a file system. -/
structure FileWriter (m : Type → Type) where
  /-- Make a directory in one that is there. -/
  makeDirectory : Path → m (Except FileFault Unit)
  isDirectory : Path → m Bool
  /-- Write a file, over one that is there. -/
  write : Path → String → m (Except FileFault Unit)

/-! ## Trees of files -/

/-- A place in a tree: the names on the way from the root. -/
abbrev Place := List String

inductive FileEntry
  | file (content : ByteArray)
  | directory
  /-- A path that is taken instead; a relative one is seen from the directory that the
  link is in. -/
  | link (target : Path)

def FileEntry.kind : FileEntry → FileKind
  | .file _ => .file
  | .directory => .directory
  | .link _ => .link

/-- What can be refused at a place. -/
inductive Access
  /-- Going on from a directory. -/
  | enter
  /-- Reading a file. -/
  | read
  /-- Writing over a file, or making an entry in a directory. -/
  | change
deriving DecidableEq, Repr

/-- A working directory, the entries that there are, and what the system refuses where,
in its words. -/
structure FileTree where
  current : Path
  entries : List (Place × FileEntry)
  refuses : Access → Place → Option String := fun _ _ => none

namespace FileTree

/-- What is at a place. The root and the directories around the working directory
are always there. -/
def entry? (t : FileTree) (p : Place) : Option FileEntry :=
  match t.entries.lookup p with
  | some e => some e
  | none => if p.isPrefixOf t.current.parts then some .directory else none

/-- The path that is taken instead, if a link is at a place. -/
def link? (t : FileTree) (p : Place) : Option Path :=
  match t.entry? p with
  | some (.link target) => some target
  | _ => none

/-- Go on unless it is refused. -/
def allow (t : FileTree) (a : Access) (p : Place) : Except FileFault Unit :=
  match t.refuses a p with
  | some reason => .error (.refused reason)
  | none => .ok ()

/-! ## Walking -/

/-- Most bytes of a name. -/
def longestName : Nat := 255

/-- Most bytes of a path. -/
def longestPath : Nat := 4095

/-- Most links on one walk. -/
def mostLinks : Nat := 40

/-- Where one part leads: to a place, or to another path. -/
inductive Step
  | place (p : Place)
  | link (target : Path)

/-- From a directory one part further. -/
def step (t : FileTree) (p : Place) (part : String) : Except FileFault Step := do
  match t.entry? p with
  | some .directory =>
    t.allow .enter p
    if longestName < part.utf8ByteSize then .error .nameTooLong
    else
      match t.link? (Path.stepTo p part) with
      | some target => return .link target
      | none => return .place (Path.stepTo p part)
  | some _ => .error .notADirectory
  | none => .error .missing

/-- One part further, whether or not anything is there. A link that cannot be looked at
is none. -/
def stepAnyway (t : FileTree) (p : Place) (part : String) : Step :=
  match t.link? (Path.stepTo p part), t.refuses .enter p with
  | some target, none => .link target
  | _, _ => .place (Path.stepTo p part)

/-- How far parts lead: to a place, or to a link around which a walk goes on. -/
inductive Stretch
  | arrived (p : Place)
  | linked (around : Place) (target : Path) (rest : List String)

/-- Follow parts up to the first link. -/
def advance (step : Place → String → Except FileFault Step) :
    Place → List String → Except FileFault Stretch
  | p, [] => .ok (.arrived p)
  | p, part :: rest => do
    match ← step p part with
    | .place q => advance step q rest
    | .link target => return .linked p target rest

/-- Where a path starts in a directory. -/
def start (directory : Place) (p : Path) : Place := if p.isAbsolute then [] else directory

/-- The place that parts lead to over at most so many links. -/
def walk (step : Place → String → Except FileFault Step) (links : Nat) (p : Place)
    (parts : List String) : Except FileFault Place := do
  match ← advance step p parts with
  | .arrived q => return q
  | .linked around target rest =>
    match links with
    | 0 => .error .tooManyLinks
    | links + 1 => walk step links (start around target) (target.parts ++ rest)

/-- A path that the system can look up. -/
def checkPath (p : Path) : Except FileFault Unit :=
  if p.endsEarly then .error .endedEarly
  else if longestPath < p.toString.utf8ByteSize then .error .nameTooLong
  else .ok ()

/-- The place that parts lead to, seen from the working directory unless the path is
absolute. -/
def walkFrom (t : FileTree) (step : Place → String → Except FileFault Step) (p : Path)
    (parts : List String) : Except FileFault Place :=
  walk step mostLinks (start t.current.parts p) parts

/-- The place that a path leads to. All on the way there are directories; the place
itself may hold a file, a directory or nothing. -/
def locate (t : FileTree) (p : Path) : Except FileFault Place := do
  checkPath p
  t.walkFrom t.step p p.parts

/-- The place where a path would make an entry: its last part is taken as it is, also
where a link has that name. -/
def locateNew (t : FileTree) (p : Path) : Except FileFault Place := do
  checkPath p
  match p.parts.getLast? with
  | none => return start t.current.parts p
  | some name =>
    let directory ← t.walkFrom t.step p p.parts.dropLast
    let _ ← t.step directory name
    return Path.stepTo directory name

/-- The place that a path means, whether or not anything is there or on the way. -/
def meant (t : FileTree) (p : Path) : Except FileFault Place :=
  t.walkFrom (fun q part => .ok (t.stepAnyway q part)) p p.parts

/-! ## Reading -/

/-- What a path leads to. -/
def find (t : FileTree) (p : Path) : Except FileFault FileEntry := do
  match t.entry? (← t.locate p) with
  | some e => return e
  | none => .error .missing

def read (t : FileTree) (p : Path) : Except FileFault ByteArray := do
  let place ← t.locate p
  match t.entry? place with
  | some (.file content) =>
    t.allow .read place
    return content
  | some .directory => .error .isADirectory
  -- A walk does not end at a link.
  | some (.link _) => .error .tooManyLinks
  | none => .error .missing

/-- The absolute path of the place that a path means. -/
def resolve (t : FileTree) (p : Path) : Except FileFault Path :=
  if p.endsEarly then .error .endedEarly else (t.meant p).map fun place => ⟨.slash, place⟩

/-! ## Changing -/

/-- Set what is at a place. -/
def put (t : FileTree) (p : Place) (e : FileEntry) : FileTree :=
  { t with entries := (p, e) :: t.entries.filter (·.1 ≠ p) }

def makeDirectory (t : FileTree) (p : Path) : Except FileFault FileTree := do
  let place ← t.locateNew p
  match t.entry? place with
  | some _ => .error .exists
  | none =>
    t.allow .change place.dropLast
    return t.put place .directory

def isDirectory (t : FileTree) (p : Path) : Bool :=
  match t.find p with
  | .ok .directory => true
  | _ => false

def write (t : FileTree) (p : Path) (text : String) : Except FileFault FileTree := do
  let place ← t.locate p
  match t.entry? place with
  | some .directory => .error .isADirectory
  | some (.link _) => .error .tooManyLinks
  | some (.file _) =>
    t.allow .change place
    return t.put place (.file text.toUTF8)
  | none =>
    t.allow .change place.dropLast
    return t.put place (.file text.toUTF8)

/-- Reading a tree. -/
def reader : FileReader (ReaderM FileTree) where
  current t := t.current
  kind p t := (t.find p).map FileEntry.kind
  read p t := t.read p
  resolve p t := t.resolve p

/-- A change that is made if it does not fail. -/
def change (f : FileTree → Except FileFault FileTree) : StateM FileTree (Except FileFault Unit) :=
  fun t =>
    match f t with
    | .ok t' => (.ok (), t')
    | .error e => (.error e, t)

/-- Writing to a tree. -/
def writer : FileWriter (StateM FileTree) where
  makeDirectory p := change (·.makeDirectory p)
  isDirectory p t := (t.isDirectory p, t)
  write p text := change (·.write p text)

end FileTree

end ClientForge
