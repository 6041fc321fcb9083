import ScriptVM.Instruction

/-!
Replacing labels by addresses.

A label stands for the number of instructions before it that are not labels. The first label that is
defined a second time is an error; after that, so is the first target that no label defines.
-/
namespace ScriptVM

/-- Why instructions cannot be assembled. -/
inductive AssemblyError where
  | duplicateLabel (name : String)
  | unknownLabel (name : String)
deriving DecidableEq, Repr

/-- The diagnostic for instructions that cannot be assembled. -/
def AssemblyError.message : AssemblyError → String
  | duplicateLabel name => "label `" ++ name ++ "` is defined more than once"
  | unknownLabel name => "jump to unknown label `" ++ name ++ "`"

namespace Assembly

/-- Each label with the address it stands for, in the order they appear, when the first instruction
has the given index. -/
def labels (index : Nat) : List Instruction → List (String × Nat)
  | [] => []
  | .label name :: rest => (name, index) :: labels index rest
  | _ :: rest => labels (index + 1) rest

/-- The first name that occurred before, or is among those seen. -/
def firstRepeated (seen : List String) : List String → Option String
  | [] => none
  | name :: rest => if seen.contains name then some name else firstRepeated (name :: seen) rest

/-- An instruction whose target is an address. -/
def resolve (table : List (String × Nat)) (instruction : Instruction) :
    Except AssemblyError Instruction :=
  match instruction.target? with
  | some (.label name) =>
    match table.lookup name with
    | some index => .ok (instruction.withTarget (.address index))
    | none => .error (.unknownLabel name)
  | _ => .ok instruction

/-- The instructions that are not labels, with their targets resolved. -/
def resolveAll (table : List (String × Nat)) :
    List Instruction → Except AssemblyError (List Instruction)
  | [] => .ok []
  | .label _ :: rest => resolveAll table rest
  | instruction :: rest => do
    let first ← resolve table instruction
    let others ← resolveAll table rest
    return first :: others

end Assembly

/-- Instructions without labels that do the same. -/
def assemble (code : List Instruction) : Except AssemblyError (List Instruction) :=
  let table := Assembly.labels 0 code
  match Assembly.firstRepeated [] (table.map Prod.fst) with
  | some name => .error (.duplicateLabel name)
  | none => Assembly.resolveAll table code

end ScriptVM
