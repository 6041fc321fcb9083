import ScriptVM.Session

/-!
What a machine and a session log.

The log of a step is a function of the state before it and its outcome, and the log of a run is that
of its steps. A session logs a line or two from every stage up to the one that refused a text, then
the steps of the machine.
-/
namespace ScriptVM

/-- How important a log line is. -/
inductive LogLevel where
  | trace
  | debug
  | error
deriving DecidableEq, Repr

/-- How a log line shows its importance. -/
def LogLevel.name : LogLevel → String
  | trace => "TRACE"
  | debug => "DEBUG"
  | error => "ERROR"

/-- One log line. -/
structure LogLine where
  level : LogLevel
  text : String
deriving DecidableEq, Repr

/-- The line with its importance in front. -/
def LogLine.render (line : LogLine) : String :=
  line.level.name ++ " " ++ line.text

namespace Machine

/-- A line for a heap that had to grow. -/
def heapLog (before after : Heap) : List LogLine :=
  if before.capacity = after.capacity then []
  else
    [⟨.debug, "heap grows from " ++ toString before.capacity ++ " to " ++ toString after.capacity ++
      " cells"⟩]

/-- The instruction before a step and the state or the fault after it. Past the end of the program
nothing is logged. -/
def stepLog (m : Machine) : List LogLine :=
  match m.code[m.pc]? with
  | none => []
  | some instruction =>
    let (after, error) := m.step
    ⟨.trace, toString m.pc ++ ": " ++ instruction.render⟩ :: heapLog m.heap after.heap ++
      match error with
      | some error => [⟨.error, error.message⟩]
      | none => [⟨.trace, toString m.pc ++ "= " ++ after.describe⟩]

/-- The lines of all steps of a run, in front of those collected before, the latest first. -/
def runLogOnto (lines : List LogLine) : Nat → Machine → List LogLine
  | 0, _ => lines
  | fuel + 1, m =>
    if m.isDone || !m.isAddressable then lines
    else
      let lines := m.stepLog.reverse ++ lines
      match m.step with
      | (m, none) => runLogOnto lines fuel m
      | (_, some _) => lines

/-- The lines of all steps of a run. -/
def runLog (fuel : Nat) (m : Machine) : List LogLine :=
  (runLogOnto [] fuel m).reverse

/-- The line of dropping every frame. -/
def unwindLog (m : Machine) : List LogLine :=
  [⟨.debug, "unwinding " ++ toString m.stack.size ++ " stack cells"⟩]

end Machine

namespace Program

/-- A line about a stage. -/
def debugLine (text : String) : LogLine := ⟨.debug, text⟩

/-- The line that announces a pass. -/
def passLine (name : String) : LogLine := debugLine ("running pass " ++ name)

/-- The line of a finished frame. -/
def frameLine (frame : Frames.Frame) : LogLine :=
  ⟨.trace, frame.kind ++ " `" ++ frame.owner ++ "` uses " ++ toString frame.locals.size ++ " slots"⟩

/-- The line of assembly. -/
def assemblyLog (source code : List Instruction) : List LogLine :=
  [debugLine ("assembled " ++ toString code.length ++ " instructions, " ++
    toString (Assembly.labels 0 source).length ++ " labels resolved")]

/-- The lines of lowering and assembly. -/
def loweringLog (document : Document) : List LogLine :=
  match document.compile with
  | .error ⟨error, code⟩ =>
    [debugLine ("compilation failed: " ++ error.message ++ "\npartial code:\n" ++
      ScriptVM.listing code),
     ⟨.error, error.message ++ "\n" ++ ScriptVM.listing code⟩]
  | .ok (_, compiled) =>
    debugLine ("compiled " ++ toString compiled.code.length ++ " instructions, result in " ++
      renderReg compiled.result) ::
    match assemble compiled.code with
    | .error _ => []
    | .ok code => assemblyLog compiled.code code

/-- The lines of the stages after the passes. -/
def constantsLog (document : Document) : List LogLine :=
  match document.collectConstants with
  | .error _ => []
  | .ok (document, pool) =>
    debugLine ("constant pool holds " ++ toString pool.size ++ " values") :: loweringLog document

/-- The lines of the optional type check and of the stages after it. -/
def typingLog (typeCheck : Bool) (document : Document) : List LogLine :=
  if typeCheck then
    passLine "type-check" ::
    match document.inferTypes with
    | .error _ => []
    | .ok (document, type) => debugLine ("module type: " ++ type.render) :: constantsLog document
  else constantsLog document

/-- The lines of frame assignment and of the stages after it. -/
def framesLog (typeCheck : Bool) (document : Document) : List LogLine :=
  passLine "collect-locals" ::
  match document.assignFrames with
  | .error _ => []
  | .ok (document, frames) => frames.map frameLine ++ typingLog typeCheck document

/-- The lines of name resolution and of the stages after it. -/
def namesLog (typeCheck : Bool) (document : Document) : List LogLine :=
  passLine "collect-names" ::
  match document.resolveNames with
  | .error _ => []
  | .ok document =>
    debugLine ("collected " ++ toString document.scopes.size ++ " namespaces") ::
      framesLog typeCheck document

/-- The lines of all stages from a source text to a program. -/
def sourceLog (typeCheck : Bool) (anonymous source : String) : List LogLine :=
  match Document.parse anonymous source with
  | .error _ => []
  | .ok parsed =>
    [debugLine ("parsed " ++ toString parsed.next ++ " nodes"), passLine "join-else",
     passLine "module-function"] ++
    match parsed.joinAlternatives.wrapProgram with
    | .error _ => []
    | .ok document => namesLog typeCheck document

end Program

namespace Session

/-- The lines of compiling a text. -/
def compileLog (session : Session) (source : String) : List LogLine :=
  Program.sourceLog session.typeCheck session.anonymousName source

/-- The lines of running a program. -/
def executeLog (fuel : Nat) (session : Session) (program : Program) : List LogLine :=
  let machine := session.machine.load program.code program.pool.values
  machine.runLog fuel ++
    match machine.run fuel with
    | some (machine, some _) => machine.unwindLog
    | _ => []

/-- The lines of evaluating a text. -/
def evaluateLog (fuel : Nat) (session : Session) (source : String) : List LogLine :=
  session.compileLog source ++
    match session.compile source with
    | (.error _, _) => []
    | (.ok program, session) => session.executeLog fuel program

end Session

end ScriptVM
