import Arbor.Action
import Arbor.Command.Program
import Arbor.Text.Pieces

/-!
# Workspaces

A workspace is a directory with everything below it, in a system with the usual directories,
devices and lists of users, so that the program can be run without touching a disk. Paths are
followed from the directory, or from the root of the system, as a file system would follow them.
The workspace lies in the system's directory for temporary files, whose other contents are not
known and taken to be none.

Files are kept on a medium that can fail whenever it is used. A file that is opened to be written is
emptied at once, and what the medium has taken of the bytes before it fails is what the file then
holds.
-/

namespace Arbor.Cli

/-- What a name in a directory stands for. A device is empty and swallows what is written to it,
or refuses it if it is full. -/
inductive Entry
  | directory
  | file (bytes : List UInt8)
  | device (isFull : Bool)

/-- Entries by the names that lead to them. -/
abbrev Entries := Table (List String) Entry

/-- The directories that every system has at its root. -/
def systemDirectories : List String :=
  ["bin", "boot", "dev", "etc", "home", "lib", "lib64", "media", "mnt", "opt", "proc", "root",
    "run", "sbin", "srv", "sys", "tmp", "usr", "var"]

/-- The directories and devices that every system has among its devices. -/
def systemDevices : List (String × Entry) :=
  [("shm", .directory), ("pts", .directory), ("mqueue", .directory), ("null", .device false),
    ("zero", .device false), ("random", .device false), ("urandom", .device false),
    ("full", .device true)]

/-- The lists of users and groups that every system has, down to the one entry that is always
there. -/
def systemLists : List (String × Entry) :=
  [("passwd", .file "root:x:0:0:root:/root:/bin/sh\n".toUTF8.toList),
    ("group", .file "root:x:0:\n".toUTF8.toList)]

def systemEntries : Entries :=
  (systemDirectories.map fun name => ([name], .directory)) ++
    (systemDevices.map fun (name, entry) => (["dev", name], entry)) ++
    systemLists.map fun (name, entry) => (["etc", name], entry)

/-- Where names are counted from: the workspace, or the root of the system, which can be written
with one slash or with two. -/
inductive Base
  | workspace
  | root
  | doubledRoot
  deriving DecidableEq, Repr

/-- A place in the file system: the names that lead to it from a base. -/
structure Place where
  base : Base
  names : List String
  deriving DecidableEq, Repr

/-- What the medium fails with, if it does: when the file at a place is opened to be read, when a
directory is made there, and when a file is opened there to be written. When bytes are written there
it can fail with only some of them taken. -/
structure Medium where
  reading : Place → Option FileCause := fun _ => none
  making : Place → Option FileCause := fun _ => none
  opening : Place → Option FileCause := fun _ => none
  writing : Place → List UInt8 → Option (Nat × FileCause) := fun _ _ => none

/-- The entries below a directory, the directory's own path, the entries of the system, and the
medium that keeps them all. -/
structure Workspace where
  location : String
  entries : Entries
  system : Entries := systemEntries
  medium : Medium := {}

/-- The directory that the workspace lies in. -/
def Place.aboveWorkspace : Place := ⟨.root, ["tmp"]⟩

/-- The place one name on from a place. Nothing is above the root of the system. -/
def Place.enter (name : String) (place : Place) : Place :=
  if name = "" || name = "." then place
  else if name ≠ ".." then ⟨place.base, place.names ++ [name]⟩
  else if place = ⟨.workspace, []⟩ then .aboveWorkspace
  else ⟨place.base, place.names.dropLast⟩

namespace Workspace

/-! ## Paths -/

/-- The names between the slashes of a path. -/
def splitPath (path : String) : List String :=
  (Text.pieces '/' path.toList).map String.ofList

def entriesOf (w : Workspace) : Base → Entries
  | .workspace => w.entries
  | .root | .doubledRoot => w.system

def entry? (w : Workspace) (place : Place) : Option Entry :=
  if place.names.isEmpty then some .directory else (w.entriesOf place.base).get? place.names

/-- Where the names of a path lead, each of them from a directory. -/
def follow (w : Workspace) : List String → Place → Except FileCause Place
  | [], place => .ok place
  | name :: names, place =>
    match w.entry? place with
    | none => .error .notFound
    | some .directory =>
      if 255 < name.utf8ByteSize then .error .nameTooLong
      else follow w names (place.enter name)
    | some _ => .error .notDirectory

/-- Where a path starts. Two slashes are kept, three or more are one. -/
def startOf (path : String) : Place :=
  if !path.startsWith "/" then ⟨.workspace, []⟩
  else if path.startsWith "//" && !path.startsWith "///" then ⟨.doubledRoot, []⟩
  else ⟨.root, []⟩

/-- The number of bytes that no path may reach. -/
def pathBound : Nat := 4096

/-- Where names lead from the start of a path; an empty path leads nowhere. -/
def resolve (w : Workspace) (path : String) (names : List String) : Except FileCause Place :=
  if path.isEmpty then .error .notFound
  else if pathBound ≤ path.utf8ByteSize then .error .nameTooLong
  else w.follow names (startOf path)

/-- Whether a text holds the character that no path can hold. -/
def hasNul (s : String) : Bool := s.toList.contains '\x00'

/-- The outcome of an attempt at a path, which must not hold the null character. -/
def attempt (path : String) (outcome : Except FileCause α) : Except Fault α :=
  if hasNul path then .error .nulInPath
  else outcome.mapError fun cause => .refused cause path

def failIf (failure : Option FileCause) : Except FileCause Unit :=
  match failure with
  | some cause => .error cause
  | none => .ok ()

/-! ## Reading -/

def read (w : Workspace) (path : String) : Except Fault (List UInt8) :=
  attempt path do
    let place ← w.resolve path (splitPath path)
    failIf (w.medium.reading place)
    match w.entry? place with
    | some (.file bytes) => return bytes
    | some (.device _) => return []
    | some .directory => throw .isDirectory
    | none => throw .notFound

/-! ## Writing -/

/-- The place that the names of a path lead to when each `..` takes back the name before it. -/
def normalize (path : String) : Place :=
  (splitPath path).foldl (fun place name => place.enter name) (startOf path)

/-- The workspace with an entry at a place. -/
def put (w : Workspace) (place : Place) (entry : Entry) : Workspace :=
  match place.base with
  | .workspace => { w with entries := w.entries.set place.names entry }
  | .root | .doubledRoot => { w with system := w.system.set place.names entry }

def pathOf (w : Workspace) (place : Place) : String :=
  match place.base with
  | .workspace => "/".intercalate (w.location :: place.names)
  | .root => "/" ++ "/".intercalate place.names
  | .doubledRoot => "//" ++ "/".intercalate place.names

/-- The workspace with a directory at a place. The directory above it has to be there; a directory
that is there already is left alone. -/
def withDirectory (w : Workspace) (place : Place) : Except FileCause Workspace :=
  let above := w.entry? ⟨place.base, place.names.dropLast⟩
  if pathBound ≤ (w.pathOf place).utf8ByteSize then .error .nameTooLong
  else match above, w.entry? place with
  | none, _ => .error .notFound
  | some .directory, some .directory => .ok w
  | some .directory, some _ => .error .exists_
  | some .directory, none => do
    if 255 < (place.names.getLastD "").utf8ByteSize then throw .nameTooLong
    failIf (w.medium.making place)
    return w.put place .directory
  | some _, _ => .error .notDirectory

def makeDirectory (place : Place) : Action Workspace Unit := do
  let w ← get
  let made ← Action.ofResult ((w.withDirectory place).mapError (.refused · (w.pathOf place)))
  set made

/-- The number of directories in a row that can be made for one file. -/
def maxDirectories : Nat := 989

/-- The places above a place at which nothing is, which may not be too many. -/
def missing (w : Workspace) (place : Place) : Except Fault (List Place) :=
  let above := (List.range place.names.length).map fun i => ⟨place.base, place.names.take i⟩
  let missing := above.filter fun place => (w.entry? place).isNone
  if maxDirectories ≤ missing.length then .error (.nestedTooDeep .directory) else .ok missing

/-- Makes a directory and all directories above it that are missing. Whatever is above it already is
taken for a directory; the next step down finds out. -/
def makeDirectories (place : Place) : Action Workspace Unit := do
  let missing ← Action.query fun w => w.missing place
  missing.forM makeDirectory
  makeDirectory place

/-- The place at a path, if a file can be written there. A path that ends in a slash can only be
that of a directory, so its last name is never looked at. -/
def target (w : Workspace) (path : String) : Except Fault Place :=
  attempt path do
    let names := splitPath path
    if path.endsWith "/" then
      let directory := ((names.reverse.dropWhile String.isEmpty).drop 1).reverse
      let _ ← w.resolve path (directory ++ [""])
      throw .isDirectory
    let place ← w.resolve path names
    match w.entry? place with
    | some .directory => throw .isDirectory
    | _ =>
      failIf (w.medium.opening place)
      return place

/-- The workspace with an empty file at a place. A device that is there stays. -/
def withEmptyFile (w : Workspace) (place : Place) : Workspace :=
  match w.entry? place with
  | some (.device _) => w
  | _ => w.put place (.file [])

/-- Opens the file at a path to be written, which makes or empties it. -/
def openFile (path : String) : Action Workspace Place := do
  let w ← get
  let place ← Action.ofResult (w.target path)
  set (w.withEmptyFile place)
  return place

def writeBytes (place : Place) (bytes : List UInt8) : Action Workspace Unit := do
  let w ← get
  match w.entry? place with
  | some (.device isFull) => if isFull && !bytes.isEmpty then throw (.notWritten .noSpace)
  | _ =>
    match w.medium.writing place bytes with
    | none => set (w.put place (.file bytes))
    | some (taken, cause) => do
      set (w.put place (.file (bytes.take taken)))
      throw (.notWritten cause)

/-- The directory that is made for the file at a path. Only directories before the first name that
no path can hold are made. -/
def directoryFor (path : String) : Place :=
  ⟨(normalize path).base, (normalize path).names.dropLast.takeWhile fun name => !hasNul name⟩

/-- Creates the file at a path and the directories it needs, and leaves it open. -/
def create (path : String) : Action Workspace Place := do
  makeDirectories (directoryFor path)
  openFile path

/-- Writes a text to the file at a path. A text that cannot be encoded is found out when the file
has been created. -/
def writeFile (path : String) (contents : LooseText) : Action Workspace Unit := do
  let place ← create path
  let bytes ← Action.ofResult (Utf8.encode contents)
  writeBytes place bytes

end Workspace

/-! ## Running the program -/

/-- A workspace in which the program runs, and what the program has printed on the standard output
and beside it, the latest first. -/
structure Session where
  workspace : Workspace
  printed : List LooseText := []
  warned : List LooseText := []

namespace Session

def stdout (s : Session) : LooseText := s.printed.reverse.flatten

def stderr (s : Session) : LooseText := s.warned.reverse.flatten

instance : Console (Action Session) where
  readFile path := Action.query fun s => s.workspace.read path
  writeFile path contents :=
    Action.within workspace (fun w s => { s with workspace := w })
      (Workspace.writeFile path contents)
  print text := modify fun s => { s with printed := text :: s.printed }
  warn text := modify fun s => { s with warned := text :: s.warned }

end Session

def Workspace.run (w : Workspace) (words : List String) : Report × Workspace :=
  match readInvocation words with
  | .error halt => (.ofHalt halt, w)
  | .ok invocation =>
    match (invocation.run : Action Session Nat).run { workspace := w } with
    | .ok code s => (⟨.code code, s.stdout, s.stderr⟩, s.workspace)
    | .error fault s => (⟨.unhandled fault, s.stdout, s.stderr⟩, s.workspace)

end Arbor.Cli
