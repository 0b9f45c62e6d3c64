import RichTable.Command

/-!
# The program

The command line on the real system.
-/

namespace RichTable.Main

/-- Whether an error code stands for error `n`. Some calls of the system give its negative. -/
def isError (code n : UInt32) : Bool := code == n || code == 0 - n

/-- The system's text for an error, with its number. -/
def systemText (e : IO.Error) : String :=
  match e with
  | .noFileOrDirectory .. => "No such file or directory (os error 2)"
  | .permissionDenied .. => "Permission denied (os error 13)"
  | .inappropriateType _ code _ =>
    if isError code 20 then "Not a directory (os error 20)" else "Is a directory (os error 21)"
  | .resourceExhausted _ code _ =>
    if isError code 28 then "No space left on device (os error 28)" else toString e
  | .invalidArgument _ code _ =>
    if isError code 36 then "File name too long (os error 36)" else toString e
  | e => toString e

/-- Runs an action of the system and catches its error. -/
def guarded {α : Type} (action : IO α) : IO (Except String α) := do
  try
    return .ok (← action)
  catch e =>
    return .error (systemText e)

/-- The text of bytes. -/
def decode (bytes : ByteArray) : Except String String :=
  match String.fromUTF8? bytes with
  | some s => .ok s
  | none => .error "stream did not contain valid UTF-8"

/-- All bytes of a stream behind those read so far. -/
partial def readAll (stream : IO.FS.Stream) (bytes : ByteArray) : IO ByteArray := do
  let chunk ← stream.read 65536
  if chunk.isEmpty then return bytes else readAll stream (bytes ++ chunk)

/-- Writes a file. What the system still holds back is written before the file is closed, so that
its errors are seen. -/
def writeAll (path contents : String) : IO Unit :=
  IO.FS.withFile path .write fun file => do
    file.putStr contents
    file.flush

/-- The real system. -/
def host : Command.Host IO where
  input := do
    match ← guarded (do readAll (← IO.getStdin) .empty) with
    | .ok bytes => return decode bytes
    | .error e => return .error e
  load path := do
    match ← guarded (IO.FS.readBinFile path) with
    | .ok bytes => return decode bytes
    | .error e => return .error e
  store path contents := guarded (writeAll path contents)
  out := IO.print
  err := IO.eprint

end RichTable.Main

def main (args : List String) : IO UInt32 := RichTable.Command.run RichTable.Main.host args
