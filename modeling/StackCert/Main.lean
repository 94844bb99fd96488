import StackCert.Replay

/-!
# The replay command

Replays the files it is given, and all the files of the directories it is given,
and writes a line for every file and every result.
-/

namespace StackCert

/-- Replays one file; it returns whether every promise was kept. -/
def replayFile (shown : String) (contents : ByteArray) : IO Bool := do
  IO.println ("Replaying " ++ shown)
  let (results, violation?) := Replay.replay contents.data.toList
  for result in results do
    IO.println (Replay.render result)
  match violation? with
  | none => return true
  | some violation =>
      IO.eprintln ("violated: " ++ (reprStr violation))
      return false

/-- Replays a file, or the files of a directory, up to the first violation. -/
def replayArgument (argument : String) : IO Bool := do
  let root ← IO.FS.realPath argument
  if ← root.isDir then
    for entry in ← root.readDir do
      unless ← replayFile (argument ++ "/" ++ entry.fileName) (← IO.FS.readBinFile entry.path) do
        return false
    return true
  else replayFile argument (← IO.FS.readBinFile root)

end StackCert

/-- Replays each argument in turn. -/
def main (arguments : List String) : IO UInt32 := do
  for argument in arguments do
    unless ← StackCert.replayArgument argument do
      return 101
  return 0
