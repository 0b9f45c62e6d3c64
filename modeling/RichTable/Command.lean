import RichTable.Format.Script

/-!
# The command line

The command reads a script from a file or from standard input, runs it, and writes the outcome as
JSON to a file or to standard output. What it needs of the system is a `Host`, so that the command
can run anywhere.
-/

namespace RichTable.Command

/-- What the command needs of the system. A failure comes with the text of the system for it. -/
structure Host (m : Type → Type) where
  /-- All of standard input. -/
  input : m (Except String String)
  /-- The text of a file. -/
  load (path : String) : m (Except String String)
  /-- Writes a file. -/
  store (path contents : String) : m (Except String Unit)
  /-- Writes to standard output. -/
  out (text : String) : m Unit
  /-- Writes to standard error. -/
  err (text : String) : m Unit

/-- What the command is asked to do. -/
structure Options where
  input : String
  output : Option String
  compact : Bool
deriving Repr, DecidableEq

/-- What is wrong with the arguments. -/
inductive ArgumentError where
  | noOutputPath
  | unexpected (argument : String)
  | noScriptPath
deriving Repr, DecidableEq

/-- The text of an argument error. -/
def ArgumentError.message : ArgumentError → String
  | noOutputPath => "-o needs a path"
  | unexpected argument => s!"unexpected argument {argument}"
  | noScriptPath => "missing script path"

/-- The version of the program. -/
def version : String := "0.1.0"

/-- How the command is called. -/
def usage : String := "Usage: docgrid_cli <script.json | -> [-o output.json] [--compact]"

/-- Reads the remaining arguments, after an input path, an output path and `--compact` may have been
seen. The last output path counts. -/
def parseFrom (input output : Option String) (compact : Bool) :
    List String → Except ArgumentError Options
  | [] =>
    match input with
    | some input => .ok { input, output, compact }
    | none => .error .noScriptPath
  | ["-o"] => .error .noOutputPath
  | "-o" :: path :: args => parseFrom input (some path) compact args
  | arg :: args =>
    if arg = "--compact" then parseFrom input output true args
    else
      match input with
      | none => parseFrom (some arg) output compact args
      | some _ => .error (.unexpected arg)

/-- Reads the arguments. -/
def parse (args : List String) : Except ArgumentError Options := parseFrom none none false args

/-- How many edits of an outcome had no effect, if any. -/
def skipNotice? {L : Type} (o : Outcome L) : Option String :=
  let skipped := o.applied.count false
  if skipped = 0 then none else some s!"{skipped} of {o.applied.length} operations had no effect"

/-- The text of an outcome. -/
def render (options : Options) (o : Outcome Float) : String :=
  o.render (if options.compact then .compact else .indented)

variable {m : Type → Type} [Monad m] (host : Host m)

/-- Writes a line to standard error and ends with exit code 1. -/
def fail (text : String) : m UInt32 := do
  host.err (text ++ "\n")
  return 1

/-- The text of the script, or the message about why it cannot be read. -/
def readScript (input : String) : m (Except String String) := do
  if input = "-" then
    return (← host.input).mapError ("Error reading stdin: " ++ ·)
  return (← host.load input).mapError (s!"Error reading {input}: " ++ ·)

/-- Writes the text of an outcome to where it is asked for. -/
def deliver (options : Options) (text : String) : m UInt32 := do
  match options.output with
  | none =>
    host.out (text ++ "\n")
    return 0
  | some path =>
    match ← host.store path text with
    | .error e => fail host s!"Error writing {path}: {e}"
    | .ok () =>
      host.err s!"Written: {path}\n"
      return 0

/-- Runs the command with options and returns its exit code. -/
def runWith (options : Options) : m UInt32 := do
  match ← readScript host options.input with
  | .error e => fail host e
  | .ok text =>
    match Script.runText (L := Float) text with
    | .error .malformed => fail host s!"Error parsing script: {ScriptError.malformed.message}"
    | .error (.failed e) => fail host s!"Error applying script: {e.message}"
    | .ok outcome =>
      if let some notice := skipNotice? outcome then host.err (notice ++ "\n")
      deliver host options (render options outcome)

/-- Runs the command with arguments and returns its exit code. -/
def run (args : List String) : m UInt32 := do
  match parse args with
  | .error e => fail host (e.message ++ "\n" ++ usage)
  | .ok options => runWith host options

end RichTable.Command
