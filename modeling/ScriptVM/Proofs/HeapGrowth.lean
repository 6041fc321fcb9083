import Mathlib.Logic.Relation
import ScriptVM.Proofs.Sessions

/-!
Cells of the heap are written once and for all.

An evaluation changes the heap in one way only: it appends cells that hold values. A program does
what its tree evaluates to, also where it faults, so this is true of every call of a session. Cells
keep their addresses and their values when the capacity grows.
-/
namespace ScriptVM

namespace Heap

variable {heap heap' heap'' : Heap} {address : Nat} {value : Value}

/-- A heap with some more cells, all of them written. -/
def Extends (heap heap' : Heap) : Prop :=
  ∃ values : List Value, heap'.cells = heap.cells ++ (values.map some).toArray

/-- Every cell that is handed out is written. -/
def Written (heap : Heap) : Prop :=
  ∀ address, address < heap.top → ∃ value, heap.load address = .ok value

theorem load_ok_iff : heap.load address = .ok value ↔ heap.cells[address]? = some (some value) := by
  rw [getElem?_cells, load, check]
  by_cases inside : address < heap.top
  · simp only [if_pos inside, bind, Except.bind]
    split <;> simp_all
  · simp [inside, bind, Except.bind]

/-- Cells that are handed out and filled come after those from before. What the reserve held does not
matter. -/
theorem cells_fill_handOut (heap : Heap) (values : List Value) :
    ((heap.handOut (heap.top + values.length)).fill heap.top values).cells =
      heap.cells ++ (values.map some).toArray := by
  apply Array.ext_getElem?
  intro address
  rw [getElem?_cells, value?_fill _ (Nat.le_refl _), value?_handOut, Array.getElem?_append, size_cells,
    getElem?_cells, top_fill, top_handOut, List.getElem?_toArray, List.getElem?_map]
  by_cases old : address < heap.top
  · rw [if_pos (by omega), if_neg (by omega), if_pos old, if_pos old]
  · rw [if_neg old]
    by_cases new : address < heap.top + values.length
    · have isNew : address - heap.top < values.length := by omega
      rw [if_pos new, if_pos (by omega), List.getElem?_eq_getElem isNew]
      rfl
    · have outside : values.length ≤ address - heap.top := by omega
      rw [if_neg new, List.getElem?_eq_none outside]
      rfl

theorem written_empty (capacity : Nat) : (empty capacity).Written :=
  fun _ inside => absurd inside (Nat.not_lt_zero _)

theorem Extends.refl (heap : Heap) : heap.Extends heap :=
  ⟨[], by simp⟩

theorem Extends.trans (first : heap.Extends heap') (second : heap'.Extends heap'') :
    heap.Extends heap'' := by
  obtain ⟨values, cells⟩ := first
  obtain ⟨values', cells'⟩ := second
  exact ⟨values ++ values', by simp [cells', cells]⟩

theorem Extends.top_le (extended : heap.Extends heap') : heap.top ≤ heap'.top := by
  obtain ⟨values, cells⟩ := extended
  rw [← heap.size_cells, ← heap'.size_cells, cells]
  simp

theorem Extends.load (extended : heap.Extends heap') (held : heap.load address = .ok value) :
    heap'.load address = .ok value := by
  obtain ⟨values, cells⟩ := extended
  rw [load_ok_iff] at held ⊢
  have inside := (Array.getElem?_eq_some_iff.mp held).1
  rw [cells, Array.getElem?_append_left inside, held]

theorem Extends.written (extended : heap.Extends heap') (written : heap.Written) :
    heap'.Written := by
  intro address inside
  by_cases old : address < heap.top
  · obtain ⟨value, held⟩ := written address old
    exact ⟨value, extended.load held⟩
  · obtain ⟨values, cells⟩ := extended
    rw [← size_cells] at inside old
    have isNew : address - heap.cells.size < values.length := by
      simp only [cells, Array.size_append, List.size_toArray, List.length_map] at inside
      omega
    refine ⟨values[address - heap.cells.size], load_ok_iff.mpr ?_⟩
    rw [cells, Array.getElem?_append_right (Nat.le_of_not_lt old)]
    simp [List.getElem?_eq_getElem isNew]

end Heap

namespace Evaluation

/-- The heap that an evaluation leaves, whether it comes to a value or not. -/
def heapAfter {α : Type} : EStateM.Result Stop State α → Heap
  | .ok _ state | .error _ state => state.heap

/-- An evaluation that only appends written cells. -/
def Grows {α : Type} (evaluation : Eval α) : Prop :=
  ∀ state : State, state.heap.Extends (heapAfter (evaluation state))

section Grows

variable {α β : Type}

theorem grows_of_heap_eq {evaluation : Eval α}
    (same : ∀ state, heapAfter (evaluation state) = state.heap) : Grows evaluation :=
  fun state => by rw [same]; exact .refl _

theorem grows_pure (a : α) : Grows (pure a) := grows_of_heap_eq fun _ => rfl

theorem grows_throw (stop : Stop) : Grows (throw stop : Eval α) := grows_of_heap_eq fun _ => rfl

theorem Grows.bind {evaluation : Eval α} {next : α → Eval β} (grows : Grows evaluation)
    (growsNext : ∀ a, Grows (next a)) : Grows (evaluation >>= next) := by
  intro state
  have before := grows state
  show Heap.Extends _ (heapAfter (EStateM.bind evaluation next state))
  unfold EStateM.bind
  cases ended : evaluation state with
  | ok a state' =>
    rw [ended] at before
    exact before.trans (growsNext a state')
  | error stop state' =>
    rw [ended] at before
    exact before

theorem grows_expect (value : Option Value) : Grows (expect value) := by
  cases value with
  | none => exact grows_throw _
  | some value => exact grows_pure value

theorem grows_settle (result : Except ValueError Value) : Grows (settle result) := by
  cases result with
  | error e => exact grows_throw _
  | ok value => exact grows_pure value

theorem grows_readVar (id : Nat) : Grows (readVar id) :=
  (grows_of_heap_eq fun _ => rfl).bind fun _ => grows_expect _

theorem grows_writeVar (id : Nat) (value : Value) : Grows (writeVar id value) :=
  grows_of_heap_eq fun _ => rfl

theorem grows_writeOnce (id : Nat) (value : Value) : Grows (writeOnce id value) := by
  refine (grows_readVar id).bind fun held => ?_
  cases held with
  | null => exact grows_writeVar id value
  | int | real => exact grows_throw _

theorem grows_allocate (values : List Value) : Grows (allocate values) :=
  fun state => ⟨values, state.heap.cells_fill_handOut values⟩

theorem Grows.activate {evaluate : Node Tag → Eval Value} (grows : ∀ node, Grows (evaluate node))
    (params : List (Node Tag)) (body : Node Tag) (args : List Value) :
    Grows (activate evaluate params body args) := by
  intro state
  rw [activate_eq]
  exact ((grows body).bind fun value => grows_of_heap_eq fun _ => rfl)
    { state with vars := parameters params args }

theorem Grows.repeatWhile {pred body : Eval Value} (growsPred : Grows pred) (growsBody : Grows body)
    (fuel : Nat) : Grows (repeatWhile pred body fuel) := by
  induction fuel with
  | zero => exact grows_throw _
  | succ fuel ih =>
    refine growsPred.bind fun value => ?_
    split
    · exact grows_pure _
    · exact growsBody.bind fun _ => ih

section Trees

variable {env : Env} {fuel : Nat} {invoke : List (Node Tag) → Node Tag → List Value → Eval Value}

section Lists

variable {nodes : List (Node Tag)} (each : ∀ node ∈ nodes, Grows (eval env fuel invoke node))

include each

theorem grows_evalAll : Grows (evalAll env fuel invoke nodes) := by
  induction nodes with
  | nil => simpa using grows_pure []
  | cons node rest ih =>
    rw [evalAll]
    refine (each node (by simp)).bind fun value => ?_
    exact (ih fun other member => each other (by simp [member])).bind fun _ => grows_pure _

theorem grows_evalStatements (last : Option Value) :
    Grows (evalStatements env fuel invoke last nodes) := by
  induction nodes generalizing last with
  | nil => simpa using grows_pure last
  | cons node rest ih =>
    have growsRest := ih fun other member => each other (by simp [member])
    rw [evalStatements]
    split
    · exact growsRest last
    · exact (each node (by simp)).bind fun value => growsRest (some value)

end Lists

/-- Evaluating a tree only appends written cells, if its calls do. -/
theorem grows_eval (invokes : ∀ params body args, Grows (invoke params body args))
    (node : Node Tag) : Grows (eval env fuel invoke node) := by
  induction node using Node.childInduction with
  | step node ih =>
    cases node with
    | leaf tag kind =>
      cases kind with
      | int | real => simpa using grows_expect _
      | bool | unit | noop => simpa using grows_pure _
      | typeId | symbolId => simpa using grows_throw _
      | valueId name =>
        rw [eval]
        split
        · exact grows_readVar _
        · exact grows_readVar _
        · exact grows_pure _
        · exact grows_throw _
    | param | orElse => simpa using grows_throw _
    | program tag name body | block tag body =>
      rw [eval]
      exact (grows_evalStatements ih none).bind fun value => grows_expect value
    | define => simpa using grows_pure _
    | declare tag mutability name type value =>
      rw [eval]
      refine (ih value (by simp [Node.children])).bind fun value => ?_
      exact (grows_writeVar _ _).bind fun _ => grows_pure _
    | assign tag name value =>
      have growsValue := ih value (by simp [Node.children])
      rw [eval]
      split
      · exact growsValue.bind fun value => (grows_writeVar _ _).bind fun _ => grows_pure _
      · split
        · exact growsValue.bind fun value => (grows_writeOnce _ _).bind fun _ => grows_pure _
        · exact grows_throw _
      · exact grows_throw _
    | branch tag pred yes no =>
      rw [eval]
      refine (ih pred (by simp [Node.children])).bind fun value => ?_
      split
      · exact ih no (by simp [Node.children])
      · exact ih yes (by simp [Node.children])
    | loop tag pred body =>
      rw [eval]
      exact (ih pred (by simp [Node.children])).repeatWhile (ih body (by simp [Node.children])) fuel
    | binary tag op left right =>
      rw [eval]
      split
      · exact grows_throw _
      · refine (ih left (by simp [Node.children])).bind fun a => ?_
        exact (ih right (by simp [Node.children])).bind fun b => grows_settle _
    | call tag callee args trailing =>
      have growsArgs : Grows (evalAll env fuel invoke args) :=
        grows_evalAll fun arg member => ih arg (by simp [Node.children, member])
      rw [eval]
      split
      · exact growsArgs.bind fun values => invokes _ _ values
      · exact grows_throw _
    | aggregate tag kind elements =>
      rw [eval]
      exact (grows_evalAll ih).bind fun values => grows_allocate values

end Trees

theorem grows_evaluate (env : Env) (fuel : Nat) (node : Node Tag) :
    Grows (evaluate env fuel node) := by
  induction fuel generalizing node with
  | zero => exact grows_eval (fun _ _ _ => grows_throw _) node
  | succ fuel ih => exact grows_eval (fun params body args => Grows.activate ih params body args) node

end Grows

end Evaluation

/-- An ended run of a program only appends written cells. -/
theorem Program.extends_of_run {typeCheck : Bool} {anonymous source : String} {program : Program}
    (compiled : Program.ofSource typeCheck anonymous source = .ok program) {m m' : Machine}
    (framePtr : m.framePtr = 0) {fuel : Nat} {error : Option RuntimeError}
    (ended : (m.load program.code program.pool.values).run fuel = some (m', error)) :
    m.heap.Extends m'.heap := by
  obtain ⟨stages⟩ := Program.stages_of_ofSource compiled
  have realises := (stages.agrees_load framePtr (fuel + 1)).realises_of_run ended
  have grows : m.heap.Extends (Evaluation.heapAfter (stages.meaning (fuel + 1) m.heap)) :=
    Evaluation.grows_evaluate stages.image.env (fuel + 1) stages.document.root ⟨_, m.heap⟩
  cases result : stages.meaning (fuel + 1) m.heap with
  | ok value state =>
    rw [result] at realises grows
    cases error with
    | none => exact realises.2 ▸ grows
    | some error => exact realises.elim
  | error stop state =>
    rw [result] at realises grows
    cases error with
    | none => exact realises.elim
    | some error => exact realises.2 ▸ grows

namespace Session

variable {session session' : Session}

/-- A call only appends written cells. -/
theorem extends_of_call (balanced : session.Balanced) (called : Call session session') :
    session.machine.heap.Extends session'.machine.heap := by
  cases called with
  | compile source =>
    show Heap.Extends _ (session.afterReading source).machine.heap
    rw [machine_afterReading]
    exact .refl _
  | evaluate ended =>
    rcases evaluate_cases balanced.framePtr ended with ⟨_, _, _, rfl⟩ |
      ⟨program, compiled, ⟨m, error, run, _, rfl⟩ | ⟨m, _, _, run, _, _, rfl⟩⟩
    · rw [machine_afterReading]
      exact .refl _
    · show Heap.Extends _ m.heap
      exact Program.extends_of_run compiled balanced.framePtr run
    · show Heap.Extends _ m.heap
      exact Program.extends_of_run compiled balanced.framePtr run

theorem Reached.written (reached : session.Reached) : session.machine.heap.Written := by
  induction reached with
  | new heapCells typeCheck => exact Heap.written_empty _
  | call before called ih => exact (extends_of_call before.balanced called).written ih

/-- Calls one after the other. -/
theorem extends_of_calls (reached : session.Reached)
    (calls : Relation.ReflTransGen Call session session') :
    session'.Reached ∧ session.machine.heap.Extends session'.machine.heap := by
  induction calls with
  | refl => exact ⟨reached, .refl _⟩
  | tail _ called ih =>
    exact ⟨ih.1.call called, ih.2.trans (extends_of_call ih.1.balanced called)⟩

/-- The heap of a session is immutable. After any calls every cell that is handed out is written, as
many cells are handed out as before or more, and those from before hold what they held. -/
theorem heap_immutable (reached : session.Reached)
    (calls : Relation.ReflTransGen Call session session') :
    (∀ address, address < session'.machine.heap.top →
      ∃ value, session'.machine.heap.load address = .ok value) ∧
    session.machine.heap.top ≤ session'.machine.heap.top ∧
    ∀ address, address < session.machine.heap.top →
      ∃ value, session.machine.heap.load address = .ok value ∧
        session'.machine.heap.load address = .ok value := by
  obtain ⟨reached', extended⟩ := extends_of_calls reached calls
  refine ⟨reached'.written, extended.top_le, ?_⟩
  intro address inside
  obtain ⟨value, held⟩ := reached.written address inside
  exact ⟨value, held, extended.load held⟩

/-- A pair in a heap of one cell, and then a list that outgrows it before a division by zero. -/
theorem heap_immutable_of_fault :
    ∃ session session' : Session,
      ((new 1 false).evaluate 80 "(1, 2)").map Prod.snd = some session ∧
      (session.evaluate 80 "val l = [3, 4, 5]; 1 / 0").map Prod.snd = some session' ∧
      session.machine.heap.top = 2 ∧ session'.machine.heap.top = 5 ∧
      ∀ address, address < 2 → ∃ value, session.machine.heap.load address = .ok value ∧
        session'.machine.heap.load address = .ok value := by
  have ends : (((new 1 false).evaluate 80 "(1, 2)").bind fun first =>
      (first.2.evaluate 80 "val l = [3, 4, 5]; 1 / 0").map fun second =>
        (first.2.machine.heap.top, second.2.machine.heap.top)) = some (2, 5) := by
    decide +kernel
  obtain ⟨⟨_, session⟩, first, ends⟩ := Option.bind_eq_some_iff.mp ends
  obtain ⟨⟨_, session'⟩, second, tops⟩ := Option.map_eq_some_iff.mp ends
  obtain ⟨top, top'⟩ := Prod.mk.inj tops
  refine ⟨session, session', by rw [first]; rfl, by rw [second]; rfl, top, top', ?_⟩
  have kept := (heap_immutable (.call (.new 1 false) (.evaluate first))
    (.single (.evaluate second))).2.2
  rwa [top] at kept

end Session

end ScriptVM
