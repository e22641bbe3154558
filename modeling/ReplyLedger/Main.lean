import ReplyLedger.CommandLine.Program

/-!
# Running the program

The program on a host of its own: an empty file system and the standard input of the process. It
shows the version, reads replies from the input and shows what they ask for; nothing that it does
to its files outlasts the run.
-/

namespace ReplyLedger

/-- A host with nothing on it but an input. -/
def freshHost (input : Text) : Host :=
  { Host.ofFiles .empty with console := { input } }

end ReplyLedger

open ReplyLedger in
/-- Run a command line and write what it shows to the two outputs. -/
def main (words : List String) : IO UInt32 := do
  let input ← (← IO.getStdin).readToEnd
  let words := words.map String.toList
  let (ending, host) := CommandLine.run [] words (freshHost input.toList)
  IO.print (String.ofList (host.console.output (CommandLine.isVerbose words)))
  IO.eprint (String.ofList host.console.errors)
  match ending with
  | .exited status => return status.toUInt32
  | .misused => return 2
  | .crashed f =>
    IO.eprintln (String.ofList f.message)
    return 1
