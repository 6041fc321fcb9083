import ScriptVM.Shell

/-!
The program: reads files and lines, and writes what the shell says.
-/
namespace ScriptVM.Shell

/-- More steps than any run takes. -/
def patience : Nat := Nat.pow 2 62

/-- Writes text to its channel. -/
def write (emissions : List Emission) : IO Unit := do
  for emission in emissions do
    match emission with
    | .out text => IO.print text
    | .err text => IO.eprint text
  (← IO.getStdout).flush

/-- The content of a file that can be read. -/
def content? (name : String) : IO (Option String) := do
  try
    return some (← IO.FS.readFile name)
  catch _ =>
    return none

/-- Runs files in order. -/
def mainFiles (options : Options) (session : Session) : List String → IO (Option Session)
  | [] => return some session
  | name :: rest => do
    match runFile patience options session name (← content? name) with
    | none => return none
    | some turn =>
      write turn.emissions
      if turn.goOn then mainFiles options turn.session rest else return none

/-- Holds a dialogue. -/
partial def mainDialogue (session : Session) : IO Unit := do
  write [prompt]
  let line ← (← IO.getStdin).getLine
  if line.isEmpty then return
  match runLine patience session line with
  | none => return
  | some turn =>
    write turn.emissions
    if turn.goOn then mainDialogue turn.session

end ScriptVM.Shell

open ScriptVM.Shell in
/-- Does what the arguments ask for. -/
def main (args : List String) : IO UInt32 := do
  match Options.parse {} args with
  | none =>
    IO.eprintln ("usage: [--repl] [--dump-bytecode] [--trace] [--type-check] [--buffered] " ++
      "[--heap-cells N] [FILE]...")
    return 2
  | some options =>
    match ← mainFiles options options.session options.files with
    | none => return 1
    | some session =>
      if options.wantsDialogue then
        write banner
        mainDialogue session
      return 0
