import LivePatch.Machine.Run
import LivePatch.Machine.Snapshot
import LivePatch.Program.Listing

namespace LivePatch.CommandLine

structure RunOptions where
  passes : Nat := 1
  dryRun : Bool := false
  trace : Bool := false
  /-- Where the state is resumed from and saved to. -/
  state : Option String := none
deriving DecidableEq

inductive Command where
  | run (file : String) (options : RunOptions)
  | disassemble (file : String)
deriving DecidableEq

def usage : String :=
  "usage: run FILE [--passes N] [--dry-run] [--trace] [--state FILE]\n       disasm FILE\n"

def parseOptions (options : RunOptions) : List String → Option RunOptions
  | [] => some options
  | "--dry-run" :: args => parseOptions { options with dryRun := true } args
  | "--trace" :: args => parseOptions { options with trace := true } args
  | "--state" :: path :: args => parseOptions { options with state := some path } args
  | "--passes" :: n :: args =>
    match n.toNat? with
    | some passes => parseOptions { options with passes } args
    | none => none
  | _ => none

def parse : List String → Option Command
  | ["disasm", file] => some (.disassemble file)
  | "run" :: file :: args => (parseOptions {} args).map (.run file)
  | _ => none

/-- What is found where a file is looked for. -/
inductive FileContents where
  | missing
  | unreadable (cause : String)
  | bytes (bs : Bytes)

/-- What a command prints, and the file it saves. -/
structure Report where
  exitCode : UInt8 := 0
  stdout : String := ""
  stderr : String := ""
  saved : Option (String × Bytes) := none

/-- An error and the chain of its causes; several causes are numbered. -/
def errorText (context : String) (causes : List String) : String :=
  let lines :=
    match causes with
    | [] => []
    | [cause] => ["    " ++ cause ++ "\n"]
    | _ => causes.mapIdx fun n cause => s!"    {n}: " ++ cause ++ "\n"
  "Error: " ++ context ++ "\n" ++
    if lines.isEmpty then "" else "\nCaused by:\n" ++ String.join lines

def failure (context : String) (causes : List String) : Report where
  exitCode := 1
  stderr := errorText context causes

def readCode (file : String) : FileContents → Except Report Bytes
  | .bytes bs => .ok bs
  | .unreadable cause => .error (failure ("Error reading file '" ++ file ++ "'") [cause])
  | .missing =>
    .error (failure ("Error reading file '" ++ file ++ "'")
      ["No such file or directory (os error 2)"])

/-- A state file that does not exist yet stands for the initial state. -/
def readState (file : String) : FileContents → Except Report State
  | .missing => .ok {}
  | .unreadable cause => .error (failure ("Error reading state '" ++ file ++ "'") [cause])
  | .bytes bs =>
    match State.ofBytes bs with
    | .ok s => .ok s
    | .error e => .error (failure ("Error decoding state '" ++ file ++ "'") [e.message, e.cause])

/-- The state of a machine after its run. -/
def stateText (m : Machine Memory) : String :=
  let s := m.state
  "execution count: " ++ toString s.count ++ "\n" ++
    "loaded pointer:  " ++ Text.hex 8 s.pointer.toNat ++ "\n" ++
    String.join (Register.all.map fun (r : Register) =>
      r.integerName ++ ": " ++ Text.hex 8 (s.registers.integer.get r).toNat ++ "    " ++
        r.floatName ++ ": " ++ (s.registers.float.get r).text ++ "\n") ++
    "bytes written:   " ++ toString m.host.writes ++ "\n"

/-- Runs passes one by one; an error is reported with the number of its pass. -/
def runPasses (file : String) (config : Config) (pass : Nat) :
    (passes : Nat) → (code : Bytes) → (m : Machine Memory) → Except Report (Machine Memory)
  | 0, _, m => .ok m
  | n + 1, code, m =>
    let r := m.run config code
    match r.outcome with
    | .error e => .error (failure (s!"Pass {pass} of '" ++ file ++ "' failed") e.chain)
    | .ok _ => runPasses file config (pass + 1) n r.code r.machine

def runReport (file : String) (options : RunOptions) (contents : String → FileContents) :
    Except Report Report := do
  let code ← readCode file (contents file)
  let state ← match options.state with
    | some path => readState path (contents path)
    | none => pure {}
  let config : Config := { live := !options.dryRun, trace := options.trace }
  let m ← runPasses file config 0 options.passes code { host := {}, state }
  return {
    stdout := stateText m
    saved := options.state.map fun path => (path, m.state.toBytes) }

def Command.perform (contents : String → FileContents) : Command → Report
  | .run file options =>
    match runReport file options contents with
    | .ok report => report
    | .error report => report
  | .disassemble file =>
    match readCode file (contents file) with
    | .ok code => { stdout := listing code }
    | .error report => report

/-- The files that a command may read. -/
def Command.files : Command → List String
  | .run file options => file :: options.state.toList
  | .disassemble file => [file]

end LivePatch.CommandLine
