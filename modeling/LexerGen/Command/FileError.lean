/-! Why files cannot be read or written, and how that is reported. -/

namespace LexerGen.Command

/-- Why a file could not be used. -/
inductive FileError where
  /-- The system refused, with its text and code. -/
  | system (text : String) (code : Nat)
  /-- The bytes of the file are not text. -/
  | notUtf8
deriving Repr, DecidableEq

namespace FileError

def noSuchFile : FileError := .system "No such file or directory" 2

def permissionDenied : FileError := .system "Permission denied" 13

def notDirectory : FileError := .system "Not a directory" 20

def isDirectory : FileError := .system "Is a directory" 21

def noSpace : FileError := .system "No space left on device" 28

def nameTooLong : FileError := .system "File name too long" 36

def message : FileError → String
  | system text code => s!"{text} (os error {code})"
  | notUtf8 => "stream did not contain valid UTF-8"

/-- The report about a file that cannot be read. -/
def unread (path : String) (e : FileError) : String := s!"unable to read {path}: {e.message}"

end FileError

/-- Why text could not be put into a file. -/
inductive WriteError where
  | notCreated (error : FileError)
  | notWritten (error : FileError)
deriving Repr, DecidableEq

/-- The report about a file that cannot be written. -/
def WriteError.unwritten (path : String) : WriteError → String
  | notCreated e => s!"unable to create file: {path}: {e.message}"
  | notWritten e => s!"unable to write the generated scanner: {e.message}"

end LexerGen.Command
