import ScriptVM.Constant
import ScriptVM.Document.Frames
import ScriptVM.Document.Names
import ScriptVM.Document.Rewrites
import ScriptVM.Document.Typing
import ScriptVM.Instruction.Assembly
import ScriptVM.Lowering
import ScriptVM.Machine
import ScriptVM.Node.Parser

/-!
Sessions: source texts evaluated one after the other on one machine.

Every text is read and lowered on its own. Only the machine and the numbers of modules without names
carry over, so a session goes on after a text that failed.
-/
namespace ScriptVM

/-- Why a text has no value, by the stage that found out. -/
inductive Error where
  | parse (error : ParseError)
  | pass (error : PassError)
  | constant (error : ConstantError)
  | compile (error : CompileError)
  | assembly (error : AssemblyError)
  | runtime (error : RuntimeError)
deriving DecidableEq, Repr

/-- The diagnostic, with the stage where it does not show otherwise. -/
def Error.message : Error → String
  | parse error => "parse error: " ++ error.message
  | pass error => error.message
  | constant error => "constant error: " ++ error.message
  | compile error => "compile error: " ++ error.message
  | assembly error => "assemble error: " ++ error.message
  | runtime error => error.message

/-- A program ready for the machine. -/
structure Program where
  code : List Instruction
  pool : Pool
  /-- The register that holds the value in the end. -/
  result : Nat
deriving DecidableEq, Repr

/-- The instructions and the constants of a program. -/
def Program.listing (program : Program) : String :=
  ScriptVM.listing program.code ++ "constants:\n" ++
    String.join (program.pool.values.toList.zipIdx.map fun (value, index) =>
      "  #" ++ toString index ++ " = " ++ value.render ++ "\n")

namespace Program

/-- A document after all passes. -/
def analyse (typeCheck : Bool) (parsed : Document) : Except PassError Document := do
  let document ← parsed.joinAlternatives.wrapProgram
  let document ← document.resolveNames
  let document ← document.assignSlots
  if typeCheck then document.checkTypes else return document

/-- The program of an analysed document. -/
def ofDocument (document : Document) : Except Error Program := do
  let (document, pool) ← document.collectConstants.mapError .constant
  let (_, compiled) ← document.compile.mapError fun failure => .compile failure.error
  let code ← (assemble compiled.code).mapError .assembly
  return ⟨code, pool, compiled.result⟩

/-- The program of a source text. A module without a name takes `anonymous`. -/
def ofSource (typeCheck : Bool) (anonymous source : String) : Except Error Program := do
  let parsed ← (Document.parse anonymous source).mapError .parse
  let document ← (analyse typeCheck parsed).mapError .pass
  ofDocument document

end Program

/-- A machine and what is needed to give it programs. -/
structure Session where
  machine : Machine
  names : FreshNames := {}
  typeCheck : Bool := false
deriving DecidableEq, Repr

namespace Session

/-- A session with a new machine. -/
def new (heapCells : Nat) (typeCheck : Bool) : Session :=
  { machine := .new heapCells, typeCheck }

/-- The name of a module that does not say its own. -/
def anonymousName (session : Session) : String :=
  (session.names.anonymous "module").1

/-- The session after reading a text: a module without a name uses up a number, even if it is
refused later. -/
def afterReading (session : Session) (source : String) : Session :=
  if Node.isAnonymous source then { session with names := session.names.take.2 } else session

/-- The program of a text. -/
def compile (session : Session) (source : String) : Except Error Program × Session :=
  (Program.ofSource session.typeCheck session.anonymousName source, session.afterReading source)

/-- Runs a program and gives the value it leaves, if that takes no more than `fuel` steps. After a
fault every frame is dropped. -/
def execute (fuel : Nat) (session : Session) (program : Program) :
    Option (Except Error Value × Session) :=
  match (session.machine.load program.code program.pool.values).run fuel with
  | none => none
  | some (machine, some error) =>
    some (.error (.runtime error), { session with machine := machine.unwind })
  | some (machine, none) =>
    match machine.registers.read program.result with
    | some value => some (.ok value, { session with machine })
    | none =>
      some (.error (.runtime ⟨machine.pc, .unsetRegister program.result⟩), { session with machine })

/-- The value of a text, if it takes no more than `fuel` steps. -/
def evaluate (fuel : Nat) (session : Session) (source : String) :
    Option (Except Error Value × Session) :=
  match session.compile source with
  | (.error e, session) => some (.error e, session)
  | (.ok program, session) => session.execute fuel program

/-- Empties the machine's output. -/
def collectOutput (session : Session) : List String × Session :=
  let (lines, machine) := session.machine.collectOutput
  (lines, { session with machine })

end Session

end ScriptVM
