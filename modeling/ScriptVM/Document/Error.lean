import ScriptVM.Document

/-!
Why a pass over a document stops, and how diagnostics put it.
-/
namespace ScriptVM

/-- Why a node cannot be given a type. -/
inductive TypeError.Cause where
  | unknownType (name : String)
  | result (name : String) (declared body : Ty)
  | unitBinding (name : String)
  | initialiser (name : String) (declared value : Ty)
  | unitAssignment (name : String)
  | assignment (name : String) (target value : Ty)
  | condition (type : Ty)
  | operands (op : String) (left right : Ty)
  | comparison (left right : Ty)
  | argumentCount (params args : Nat)
  | argument (param arg : Ty)
  | notCallable (type : Ty)
  | elements (first other : Ty)
deriving DecidableEq, Repr

/-- The reason alone. -/
def TypeError.Cause.reason : TypeError.Cause → String
  | unknownType name => "unknown type `" ++ name ++ "`"
  | result name declared body =>
    "`" ++ name ++ "` is declared to return " ++ declared.render ++ " but its body has type " ++
      body.render
  | unitBinding name => "cannot bind a Unit value to `" ++ name ++ "`"
  | initialiser name declared value =>
    "`" ++ name ++ "` is declared " ++ declared.render ++ " but initialised with " ++ value.render
  | unitAssignment name => "cannot assign a Unit value to `" ++ name ++ "`"
  | assignment name target value =>
    "cannot assign " ++ value.render ++ " to `" ++ name ++ "` of type " ++ target.render
  | condition type => "condition must be Bool or a number, found " ++ type.render
  | operands op left right =>
    "operator `" ++ op ++ "` expects numbers, found " ++ left.render ++ " and " ++ right.render
  | comparison left right => "cannot compare " ++ left.render ++ " with " ++ right.render
  | argumentCount params args =>
    "expected " ++ toString params ++ " arguments, found " ++ toString args
  | argument param arg => "expected " ++ param.render ++ " argument, found " ++ arg.render
  | notCallable type => "value of type " ++ type.render ++ " is not callable"
  | elements first other =>
    "list elements must share a type, found " ++ first.render ++ " and " ++ other.render

/-- Why the shape of a tree makes a pass impossible. -/
inductive ShapeError where
  | rootNotModule (kind : String)
  | outsideModule (kind : String)
  | outsideFunction (name : String)
deriving DecidableEq, Repr

/-- The reason alone. -/
def ShapeError.reason : ShapeError → String
  | rootNotModule kind => "expected a Module at the root, found " ++ kind
  | outsideModule kind => kind ++ " node outside of any module"
  | outsideFunction name => "binding `" ++ name ++ "` outside of any function"

/-- Why a pass over a document stops. -/
inductive PassError where
  | name (error : NameError)
  | note (error : NoteError)
  | type (cause : TypeError.Cause) (span : Span)
  | missing (key : Note.Key) (kind : String) (span : Span)
  | shape (cause : ShapeError) (span : Span)
deriving DecidableEq, Repr

/-- The whole diagnostic. -/
def PassError.message : PassError → String
  | name error => error.message
  | note error => error.message
  | type cause span => span.render ++ ": " ++ cause.reason
  | missing key kind span =>
    span.render ++ ": " ++ kind ++ " node is missing its `" ++ key.name ++ "` annotation"
  | shape cause span => span.render ++ ": " ++ cause.reason

/-- Writes a note for a pass. -/
def Annotations.write (annotations : Annotations) (node : Nat) (note : Note) :
    Except PassError Annotations :=
  match annotations.set node note with
  | .ok annotations => .ok annotations
  | .error e => .error (.note e)

end ScriptVM
