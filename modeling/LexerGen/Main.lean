import LexerGen.Command.Run

/-! The command on the real file system. -/

namespace LexerGen.Command

/-- What the system says about a refused file. -/
def FileError.ofSystem (e : IO.Error) : FileError :=
  match e with
  | .noFileOrDirectory .. => noSuchFile
  | .permissionDenied .. => permissionDenied
  | .inappropriateType _ code _ => if code = 21 then isDirectory else notDirectory
  | .resourceExhausted .. => noSpace
  | .invalidArgument .. => nameTooLong
  | e => .system (toString e) 5

/-- The host that works on files. -/
def systemHost : Host IO where
  readText path := do
    match ← (IO.FS.readBinFile path).toBaseIO with
    | .error e => return .error (.ofSystem e)
    | .ok bytes =>
      match String.fromUTF8? bytes with
      | none => return .error .notUtf8
      | some text => return .ok text
  writeText path text := do
    match ← (IO.FS.Handle.mk path .write).toBaseIO with
    | .error e => return .error (.notCreated (.ofSystem e))
    | .ok file =>
      let write : IO Unit := do
        file.putStr text
        file.flush
      match ← write.toBaseIO with
      | .error e => return .error (.notWritten (.ofSystem e))
      | .ok () => return .ok ()
  print text := do
    let out ← IO.getStdout
    out.putStr text
    out.flush
  report message := IO.eprintln s!"error: {message}"

end LexerGen.Command

def main (args : List String) : IO UInt32 := do
  let exit ← LexerGen.Command.run LexerGen.Command.systemHost args
  return exit.code.toUInt32
