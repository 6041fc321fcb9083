import ScriptVM.Scope
import ScriptVM.Ty

/-!
What the passes record about a node.

Each kind of note is written at most once: setting it again is an error, agreeing with it is not,
and only an explicit override replaces it.
-/
namespace ScriptVM

/-- The frame of one function: the qualified name and the declaration of each slot, in slot order.
-/
structure Locals where
  slots : List (String × Nat) := []
deriving DecidableEq, Repr, Inhabited

namespace Locals

/-- The number of slots. -/
def size (locals : Locals) : Nat :=
  locals.slots.length

/-- Appends a slot. Its index is the former size. -/
def insert (locals : Locals) (qualified : String) (node : Nat) : Locals :=
  ⟨locals.slots ++ [(qualified, node)]⟩

/-- The first slot with this name. -/
def indexOf? (locals : Locals) (qualified : String) : Option Nat :=
  locals.slots.findIdx? fun (name, _) => name == qualified

/-- Whether a declaration has a slot. -/
def containsNode (locals : Locals) (node : Nat) : Bool :=
  locals.slots.any fun (_, declared) => declared == node

end Locals

/-- The kinds of note. -/
inductive Note.Key where
  | scope
  | locals
  | index
  | address
  | constant
  | type
  | binding
deriving DecidableEq, Repr

/-- The name of a kind of note in diagnostics. -/
def Note.Key.name : Note.Key → String
  | scope => "namespace"
  | locals => "locals"
  | index => "index"
  | address => "address"
  | constant => "constant"
  | type => "type"
  | binding => "binding"

/-- One note. -/
inductive Note where
  /-- The scope that a node opens, or else the one it stands in. -/
  | scope (scope : Nat)
  /-- The frame of a function. -/
  | locals (locals : Locals)
  /-- The slot of a declaration. -/
  | index (slot : Nat)
  /-- The label at which a function starts. -/
  | address (label : String)
  /-- The place of a literal in the constant pool. -/
  | constant (index : Nat)
  | type (type : Ty)
  /-- The declaration that a name refers to. -/
  | binding (node : Nat)
deriving DecidableEq, Repr

/-- The kind of a note. -/
def Note.key : Note → Note.Key
  | scope _ => .scope
  | locals _ => .locals
  | index _ => .index
  | address _ => .address
  | constant _ => .constant
  | type _ => .type
  | binding _ => .binding

/-- Why a note cannot be written. -/
inductive NoteError where
  | alreadySet (key : Note.Key)
  | conflict (key : Note.Key)
deriving DecidableEq, Repr

/-- The diagnostic for a note that cannot be written. -/
def NoteError.message : NoteError → String
  | alreadySet key => "attribute `" ++ key.name ++ "` is already set"
  | conflict key => "attribute `" ++ key.name ++ "` is already set to a different value"

/-- The notes of one node. -/
structure Notes where
  scope : Option Nat := none
  locals : Option Locals := none
  index : Option Nat := none
  address : Option String := none
  constant : Option Nat := none
  type : Option Ty := none
  binding : Option Nat := none
deriving DecidableEq, Repr, Inhabited

namespace Notes

/-- The note of a kind. -/
def get? (notes : Notes) : Note.Key → Option Note
  | .scope => notes.scope.map .scope
  | .locals => notes.locals.map .locals
  | .index => notes.index.map .index
  | .address => notes.address.map .address
  | .constant => notes.constant.map .constant
  | .type => notes.type.map .type
  | .binding => notes.binding.map .binding

/-- Writes a note over the one of its kind. -/
def put (notes : Notes) : Note → Notes
  | .scope scope => { notes with scope := some scope }
  | .locals locals => { notes with locals := some locals }
  | .index slot => { notes with index := some slot }
  | .address label => { notes with address := some label }
  | .constant index => { notes with constant := some index }
  | .type type => { notes with type := some type }
  | .binding node => { notes with binding := some node }

/-- Writes a note of a kind that has none yet. -/
def set (notes : Notes) (note : Note) : Except NoteError Notes :=
  match notes.get? note.key with
  | some _ => .error (.alreadySet note.key)
  | none => .ok (notes.put note)

/-- Writes a note, or confirms that it is there already. -/
def confirm (notes : Notes) (note : Note) : Except NoteError Notes :=
  match notes.get? note.key with
  | some present => if present = note then .ok notes else .error (.conflict note.key)
  | none => .ok (notes.put note)

/-- The number of notes. -/
def size (notes : Notes) : Nat :=
  ([.scope, .locals, .index, .address, .constant, .type, .binding] : List Note.Key).countP
    fun key => (notes.get? key).isSome

theorem get?_put_self (notes : Notes) (note : Note) :
    (notes.put note).get? note.key = some note := by
  cases note <;> rfl

theorem get?_put_other (notes : Notes) (note : Note) (key : Note.Key) (other : key ≠ note.key) :
    (notes.put note).get? key = notes.get? key := by
  cases note <;> cases key <;> simp_all [Note.key, put, get?]

end Notes

end ScriptVM
