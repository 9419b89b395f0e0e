import LexerGen.Command.Path
import LexerGen.Command.Run

/-! A directory as a value: files by name, with no directories inside. The command runs on it
without touching anything outside. Of what lies around the directory only the devices are known; a
file can be created there, but there is none to read. -/

namespace LexerGen.Command

/-- A file that is not stored anywhere. -/
inductive Device where
  /-- Takes any text and keeps none. -/
  | null
  /-- Takes no text. -/
  | full
  | standardInput
  | standardOutput
deriving Repr, DecidableEq

namespace Device

def all : List Device := [null, full, standardInput, standardOutput]

def name : Device → String
  | null => "null"
  | full => "full"
  | standardInput => "stdin"
  | standardOutput => "stdout"

end Device

abbrev Directory := StringMap ByteArray

namespace Directory

/-- A place that a path can pass through. -/
inductive Folder where
  /-- The directory itself. -/
  | here
  /-- A directory around it. -/
  | above
  | root
  /-- The directory of devices. -/
  | devices
deriving Repr, DecidableEq

def Folder.parent : Folder → Folder
  | here => above
  | above => above
  | root => root
  | devices => root

/-- What a name stands for in a folder. -/
inductive Entry where
  | folder (folder : Folder)
  | file (bytes : ByteArray)
  | device (device : Device)
  | absent

/-- Looks a name up in a folder. -/
def entry (d : Directory) (folder : Folder) (name : String) : Except FileError Entry :=
  if Path.maxNameLength < name.utf8ByteSize then .error .nameTooLong
  else if name = "." then .ok (.folder folder)
  else if name = ".." then .ok (.folder folder.parent)
  else
    match folder with
    | .here =>
      match d.get? name with
      | some bytes => .ok (.file bytes)
      | none => .ok .absent
    | .above => .ok .absent
    | .root => .ok (if name = "dev" then .folder .devices else .absent)
    | .devices =>
      match Device.all.find? (·.name = name) with
      | some device => .ok (.device device)
      | none => .ok .absent

/-- Goes from a folder through the names of a path. -/
def walk (d : Directory) (folder : Folder) : List String → Except FileError Folder
  | [] => .ok folder
  | name :: rest =>
    match d.entry folder name with
    | .error e => .error e
    | .ok (.folder next) => d.walk next rest
    | .ok .absent => .error .noSuchFile
    | .ok _ => .error .notDirectory

/-- The folder that holds what `path` means, and its name there. A path that is a root has none. -/
def locate (d : Directory) (path : Path) : Except FileError (Folder × Option String) :=
  match d.walk (if path.absolute then .root else .here) path.parts.dropLast with
  | .error e => .error e
  | .ok folder => .ok (folder, path.parts.getLast?)

/-- Reads a path, unless it is empty or too long. -/
def checkPath (path : String) : Except FileError Path :=
  if path = "" then .error .noSuchFile
  else if Path.lengthLimit ≤ path.utf8ByteSize then .error .nameTooLong
  else .ok (.ofString path)

/-- The bytes of a file. Devices have none. -/
def readBytes (d : Directory) (path : String) : Except FileError ByteArray := do
  let path ← checkPath path
  match ← d.locate path with
  | (_, none) => .error .isDirectory
  | (folder, some name) =>
    match ← d.entry folder name with
    | .folder _ => .error .isDirectory
    | .absent => .error .noSuchFile
    | .file bytes => if path.slashed then .error .notDirectory else .ok bytes
    | .device _ => if path.slashed then .error .notDirectory else .ok .empty

def readText (d : Directory) (path : String) : Except FileError String := do
  match String.fromUTF8? (← d.readBytes path) with
  | none => .error .notUtf8
  | some text => .ok text

/-- Where text goes. -/
inductive Target where
  /-- A file of the directory. -/
  | file (name : String)
  /-- A file somewhere else. -/
  | elsewhere
  | device (device : Device)
deriving Repr, DecidableEq

/-- The file to create for `path`. A name with a slash behind it is taken for a directory, whatever
it stands for. -/
def target (d : Directory) (path : String) : Except FileError Target := do
  let path ← checkPath path
  match ← d.locate path with
  | (_, none) => .error .isDirectory
  | (folder, some name) =>
    if path.slashed then .error .isDirectory
    else
      match ← d.entry folder name with
      | .folder _ => .error .isDirectory
      | .file _ => .ok (.file name)
      | .absent => .ok (if folder = .here then .file name else .elsewhere)
      | .device device => .ok (.device device)

end Directory

/-- What a run of the command leaves behind. -/
structure World where
  directory : Directory
  output : String := ""
  reports : List String := []

namespace World

def print (w : World) (text : String) : World := { w with output := w.output ++ text }

def report (w : World) (message : String) : World := { w with reports := w.reports ++ [message] }

def writeText (w : World) (path text : String) : Except WriteError World :=
  match w.directory.target path with
  | .error e => .error (.notCreated e)
  | .ok (.file name) => .ok { w with directory := w.directory.insert name text.toUTF8 }
  | .ok (.device .full) => .error (.notWritten .noSpace)
  | .ok (.device .standardOutput) => .ok (w.print text)
  | .ok _ => .ok w

/-- The host that works on a `World`. -/
def host : Host (StateM World) where
  readText path := do return (← get).directory.readText path
  writeText path text := do
    match (← get).writeText path text with
    | .error e => return .error e
    | .ok w =>
      set w
      return .ok ()
  print text := modify (·.print text)
  report message := modify (·.report message)

end World

/-- Runs the command in a directory. -/
def runIn (directory : Directory) (args : List String) : Exit × World :=
  (run World.host args).run { directory }

end LexerGen.Command
