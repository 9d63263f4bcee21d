import CometLang.CommandLine

/-!
# The program

Reads the arguments, the file and the standard input, and writes what the
command has computed. Input is read line by line, only when the program asks
for more of it than it has: a run on a longer input starts with the same output,
so that it is repeated from the start and only what is new is written.
-/

namespace CometLang

/-- Why a file could not be read. -/
def readFailure : IO.Error → String
  | .noFileOrDirectory .. => "No such file or directory (os error 2)"
  | .permissionDenied .. => "Permission denied (os error 13)"
  | .inappropriateType .. => "Is a directory (os error 21)"
  | error => toString error

/-- The bytes of a file, or why there are none. -/
def fileBytes (path : String) : IO (Except String ByteArray) :=
  try
    return .ok (← IO.FS.readBinFile path)
  catch error =>
    return .error (readFailure error)

/-- The bytes of the next line of a stream. -/
partial def nextLine
    (stream : IO.FS.Stream)
    (line : List UInt8) : IO (List UInt8) := do
  let bytes ← stream.read 1
  match bytes.toList with
  | [] => return line.reverse
  | byte :: _ =>
      if byte = 10 then
        return (byte :: line).reverse
      else
        nextLine stream (byte :: line)

/-- Runs a command on the input read so far, and on more while it asks for more. -/
partial def converse
    (command : Command)
    (file : Except String ByteArray)
    (input : List UInt8)
    (written : Nat) : IO Bool := do
  let effect := command.perform file input
  let stdout ← IO.getStdout
  stdout.write ⟨effect.output.extract written effect.output.size⟩
  stdout.flush
  let more ← if effect.starved then nextLine (← IO.getStdin) [] else pure []
  if more.isEmpty then
    IO.eprint effect.after
    return effect.success
  else
    converse command file (input ++ more) effect.output.size

end CometLang

open CometLang in
def main (arguments : List String) : IO UInt32 := do
  match Command.ofArguments? arguments with
  | none =>
      IO.eprint Command.usage
      return 2
  | some command =>
      let file ← fileBytes command.path
      IO.eprint (command.perform file []).before
      let success ← converse command file [] 0
      return if success then 0 else 1
