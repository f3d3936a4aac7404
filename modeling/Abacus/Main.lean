import Abacus.CommandLine

/-!
# The program

Hands the arguments, the input and the files to the commands, and writes what they give. An
interactive session is answered line by line, so that each answer is seen before the next line is
typed.

Model of `main` on the standard streams.

Out of scope: what is logged. The proofs are about the commands and sessions that are run here, and
not about the loop that reads the standard input.
-/

namespace Abacus

/-- Write texts to the standard streams. -/
def perform (writes : List (Stream × String)) : IO Unit := do
  for (stream, text) in writes do
    let handle ← match stream with
      | .out => IO.getStdout
      | .err => IO.getStderr
    handle.putStr text
    handle.flush

/-- The bytes of the next line of the standard input. -/
partial def readLine (bytes : Array UInt8) : IO (List UInt8) := do
  let chunk ← (← IO.getStdin).read 1
  match chunk.data[0]? with
  | none => return bytes.toList
  | some b => if b = 0x0A then return (bytes.push b).toList else readLine (bytes.push b)

/-- Prompt for lines and answer them until the input ends. -/
partial def interact (config : Interactive) : IO Exit := do
  perform [(.out, config.prompt)]
  match ← readLine #[] with
  | [] => return ⟨[(.out, "\n")], 0⟩
  | line =>
    match Interactive.decodeLine? line with
    | none => return report ⟨[], .error .invalidText⟩
    | some text =>
      perform (config.answerLine text).1
      interact config

/-- The cause of a failed reading. -/
def fileError : IO.Error → FileError
  | .noFileOrDirectory .. => .notFound
  | .inappropriateType _ code _ => if code = 20 ∨ code = -20 then .notDirectory else .isDirectory
  | e => .other (toString e)

/-- The bytes of a file. -/
def readFile (path : String) : IO (Except FileError ByteArray) := do
  try
    return .ok (← IO.FS.readBinFile path)
  catch e =>
    return .error (fileError e)

/-- Run a command on the standard streams. -/
def runCommand (command : Command) : IO Exit := do
  match command with
  | .interactive config =>
    perform (if config.banner then [(.out, Interactive.greeting ++ "\n")] else [])
    interact config
  | .run path =>
    let file ← readFile path
    return command.exec ⟨[], fun _ => file⟩
  | command => return command.exec ⟨[], fun _ => .error .notFound⟩

end Abacus

/-- Run the program. -/
def main (args : List String) : IO UInt32 := do
  let result ← Abacus.runCommand (.ofArgs args)
  Abacus.perform result.writes
  return result.code.toUInt32
