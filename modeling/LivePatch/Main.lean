import LivePatch.CommandLine

namespace LivePatch.CommandLine

def contentsOf (file : String) : IO FileContents := do
  try
    let bytes ← IO.FS.readBinFile file
    return .bytes bytes.data.toList
  catch
    | .noFileOrDirectory .. => return .missing
    | e => return .unreadable (toString e)

/-- Saves the file of a report; if that fails, the report says so. -/
def Report.save (report : Report) : IO Report := do
  match report.saved with
  | none => return report
  | some (file, bytes) =>
    try
      IO.FS.writeBinFile file ⟨bytes.toArray⟩
      return report
    catch e =>
      let failed := failure ("Error writing state '" ++ file ++ "'") [toString e]
      return { failed with stdout := report.stdout }

def execute (args : List String) : IO UInt32 := do
  match parse args with
  | none =>
    IO.eprint usage
    return 2
  | some command =>
    let files ← command.files.mapM fun file => return (file, ← contentsOf file)
    let report ← (command.perform fun file => (files.lookup file).getD .missing).save
    IO.print report.stdout
    IO.eprint report.stderr
    return report.exitCode.toUInt32

end LivePatch.CommandLine

def main (args : List String) : IO UInt32 :=
  LivePatch.CommandLine.execute args
