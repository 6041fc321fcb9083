import ScriptVM.Proofs.Evaluation
import ScriptVM.Proofs.Placement
import ScriptVM.Proofs.Runs
import ScriptVM.Proofs.Scoping

/-!
How the state of an evaluation shows in the machine.

Slot by slot the current frame holds the variables of the current activation, and the heaps are the
same (`Mirrors`). Instructions of a node change only the slots of the frame and the registers given
to the node, besides the register of results (`Kept`). `Agrees` compares what an evaluation comes to
with what the machine does from some state on.
-/
namespace ScriptVM

/-- The address at which the code of a function starts, by the label noted for it. -/
def Annotations.entry (annotations : Annotations) (table : List (String × Nat)) (function : Nat) :
    Nat :=
  ((annotations.get function).address.bind fun label => table.lookup label).getD 0

/-- What stays the same while a program runs. -/
structure Image where
  nodes : List (Node Tag)
  annotations : Annotations
  pool : Array Value
  /-- The address of each label. -/
  table : List (String × Nat)
  code : Array Instruction

namespace Image

variable {image : Image}

/-- What the evaluation knows of the program. -/
def env (image : Image) : Evaluation.Env :=
  ⟨image.nodes, image.annotations, image.annotations.entry image.table⟩

/-- The declaration that a use is noted with. -/
def binding (image : Image) (use : Nat) : Option Nat :=
  (image.annotations.get use).binding

/-- The frame of a function: every declaration in it is noted with its slot. -/
structure Frame (image : Image) (owner : Nat) (locals : Locals) : Prop where
  noted : (image.annotations.get owner).locals = some locals
  indexed : ∀ slot id, locals.ids[slot]? = some id → (image.annotations.get id).index = some slot

/-- The slot that a declaration of the frame is noted with is its own. -/
theorem Frame.slot_of_index {owner id slot : Nat} {locals : Locals}
    (frame : image.Frame owner locals) (member : id ∈ locals.ids)
    (index : (image.annotations.get id).index = some slot) : locals.ids[slot]? = some id := by
  obtain ⟨slot', found⟩ := List.mem_iff_getElem?.mp member
  have same := frame.indexed slot' id found
  rw [index] at same
  cases same
  exact found

theorem entry_of_label {function address : Nat} {label : String}
    (noted : (image.annotations.get function).address = some label)
    (known : image.table.lookup label = some address) :
    image.env.function function = Machine.ofAddress address := by
  simp [Evaluation.Env.function, env, Annotations.entry, noted, known]

end Image

open Evaluation (State)

/-- The current frame holds the variables of the current activation. -/
structure Mirrors (image : Image) (locals : Locals) (state : State) (m : Machine) : Prop where
  code : m.code = image.code
  pool : m.pool = image.pool
  running : m.halted = false
  heap : m.heap = state.heap
  slots : ∀ slot id, locals.ids[slot]? = some id →
    m.stack[m.framePtr + slot + 1]? = some (state.vars id)
  frame : m.framePtr ≤ m.stack.size

/-- Nothing changed but the slots of the current frame, the heap, the register of results and the
registers from `lo` to `hi`. -/
structure Kept (slots lo hi : Nat) (m m' : Machine) : Prop where
  output : m'.output = m.output
  framePtr : m'.framePtr = m.framePtr
  size : m'.stack.size = m.stack.size
  cells : ∀ place, place ≤ m.framePtr ∨ m.framePtr + slots < place →
    m'.stack[place]? = m.stack[place]?
  registers : ∀ reg, reg ≠ resultReg → reg < lo ∨ hi ≤ reg →
    m'.registers.read reg = m.registers.read reg

namespace Kept

variable {slots lo hi : Nat} {m m' m'' : Machine}

theorem refl (slots lo hi : Nat) (m : Machine) : Kept slots lo hi m m :=
  ⟨rfl, rfl, rfl, fun _ _ => rfl, fun _ _ _ => rfl⟩

theorem trans (first : Kept slots lo hi m m') (second : Kept slots lo hi m' m'') :
    Kept slots lo hi m m'' where
  output := second.output.trans first.output
  framePtr := second.framePtr.trans first.framePtr
  size := second.size.trans first.size
  cells place outside := by
    rw [second.cells place (by rwa [first.framePtr]), first.cells place outside]
  registers reg other outside := by
    rw [second.registers reg other outside, first.registers reg other outside]

theorem widen {lo' hi' : Nat} (kept : Kept slots lo hi m m') (lower : lo' ≤ lo) (upper : hi ≤ hi') :
    Kept slots lo' hi' m m' where
  output := kept.output
  framePtr := kept.framePtr
  size := kept.size
  cells := kept.cells
  registers reg other outside := kept.registers reg other (by omega)

end Kept

section Changes

variable {image : Image} {locals : Locals} {state : State} {m : Machine}

theorem Mirrors.of_same_frame {m' : Machine} (mirrors : Mirrors image locals state m)
    (code : m'.code = m.code) (pool : m'.pool = m.pool) (halted : m'.halted = m.halted)
    (stack : m'.stack = m.stack) (framePtr : m'.framePtr = m.framePtr) (heap : m'.heap = m.heap) :
    Mirrors image locals state m' where
  code := code.trans mirrors.code
  pool := pool.trans mirrors.pool
  running := halted.trans mirrors.running
  heap := heap.trans mirrors.heap
  slots := by
    rw [stack, framePtr]
    exact mirrors.slots
  frame := by
    rw [stack, framePtr]
    exact mirrors.frame

theorem Mirrors.goto (mirrors : Mirrors image locals state m) (pc : Nat) :
    Mirrors image locals state { m with pc } :=
  mirrors.of_same_frame rfl rfl rfl rfl rfl rfl

theorem Mirrors.write (mirrors : Mirrors image locals state m) (reg : Nat) (cell : Option Value) :
    Mirrors image locals state (m.write reg cell).next :=
  mirrors.of_same_frame rfl rfl rfl rfl rfl rfl

theorem Mirrors.registers (mirrors : Mirrors image locals state m) (registers : Registers) :
    Mirrors image locals state { m with registers }.next :=
  mirrors.of_same_frame rfl rfl rfl rfl rfl rfl

theorem Kept.goto (slots lo hi : Nat) (m : Machine) (pc : Nat) : Kept slots lo hi m { m with pc } :=
  ⟨rfl, rfl, rfl, fun _ _ => rfl, fun _ _ _ => rfl⟩

theorem Kept.write {slots lo hi reg : Nat} (m : Machine) (cell : Option Value) (lower : lo ≤ reg)
    (upper : reg < hi) : Kept slots lo hi m (m.write reg cell).next where
  output := rfl
  framePtr := rfl
  size := rfl
  cells _ _ := rfl
  registers other _ outside := by
    simp only [Machine.next, Machine.write, Registers.read_write]
    rw [if_neg (by omega)]

theorem Kept.unset {slots lo hi : Nat} (m : Machine) (regs : List Nat)
    (within : ∀ reg ∈ regs, lo ≤ reg ∧ reg < hi) :
    Kept slots lo hi m { m with registers := m.registers.unset regs }.next where
  output := rfl
  framePtr := rfl
  size := rfl
  cells _ _ := rfl
  registers other _ outside := by
    have notIn : other ∉ regs := by
      intro member
      have := within other member
      omega
    simp [Machine.next, Machine.read_unset, notIn]

@[simp] theorem read_write_next (m : Machine) (reg : Nat) (cell : Option Value) :
    (m.write reg cell).next.registers.read reg = cell := by
  simp [Machine.next, Machine.write, Registers.read_write]

/-- Storing to a slot is giving its variable a value. -/
theorem Mirrors.store {owner slot id : Nat} (mirrors : Mirrors image locals state m)
    (frame : image.Frame owner locals) (found : locals.ids[slot]? = some id) (value : Value) :
    Mirrors image locals
      { state with vars := fun other => if other = id then some value else state.vars other }
      { m with stack := m.stack.setIfInBounds (m.framePtr + slot + 1) (some value) }.next where
  code := mirrors.code
  pool := mirrors.pool
  running := mirrors.running
  heap := mirrors.heap
  slots slot' id' found' := by
    have old := mirrors.slots slot' id' found'
    simp only [Machine.next, Array.getElem?_setIfInBounds]
    by_cases same : slot' = slot
    · subst same
      rw [found] at found'
      cases found'
      have inside := (Array.getElem?_eq_some_iff.mp old).1
      simp [inside]
    · have different : id' ≠ id := by
        rintro rfl
        have := frame.indexed slot id' found
        rw [frame.indexed slot' id' found'] at this
        exact same (Option.some.inj this)
      rw [if_neg (by omega), if_neg different, old]
  frame := by
    simpa [Machine.next] using mirrors.frame

theorem Kept.store {slots slot : Nat} (lo hi : Nat) (m : Machine) (value : Value)
    (inside : slot < slots) :
    Kept slots lo hi m
      { m with stack := m.stack.setIfInBounds (m.framePtr + slot + 1) (some value) }.next where
  output := rfl
  framePtr := rfl
  size := by simp [Machine.next]
  cells place outside := by
    simp only [Machine.next, Array.getElem?_setIfInBounds]
    rw [if_neg (by omega)]
  registers _ _ _ := rfl

end Changes

/-- The faults with which the machine ends where an evaluation stops. -/
def Stop.causes : Stop → Fault → Prop
  | .value e, fault => fault = .value e
  | .alreadyAssigned, fault => ∃ place, fault = .alreadyAssigned place
  | .stuck, _ | .timeout, _ => False

/-- The machine is about to end with the fault of an evaluation, and with the same heap. -/
def Faults (stop : Stop) (state : State) (m : Machine) : Prop :=
  ∃ error m', m.Fails error m' ∧ stop.causes error.fault ∧ m'.heap = state.heap

/-- From here on the machine does what an evaluation comes to. If that is the bound on calls and
repetitions, the machine takes at least so many steps. -/
structure Agrees {α : Type} (count : Nat) (goal : α → State → Machine → Prop) (m : Machine)
    (result : EStateM.Result Stop State α) : Prop where
  ok : ∀ value state, result = .ok value state → m.Leads (goal value state)
  fault : ∀ stop state, result = .error stop state → stop ≠ .timeout → m.Leads (Faults stop state)
  timeout : ∀ state, result = .error .timeout state → m.Survives count

namespace Agrees

variable {α β : Type} {count : Nat} {goal : α → State → Machine → Prop}
  {goal' : β → State → Machine → Prop} {m m' : Machine} {result : EStateM.Result Stop State α}

theorem of_ok {value : α} {state : State} (leads : m.Leads (goal value state)) :
    Agrees count goal m (.ok value state) := by
  refine ⟨?_, ?_, ?_⟩
  · rintro _ _ ⟨⟩
    exact leads
  · rintro _ _ ⟨⟩
  · rintro _ ⟨⟩

theorem of_goal {value : α} {state : State} (reached : goal value state m) :
    Agrees count goal m (.ok value state) :=
  of_ok (.here reached)

theorem of_faults {stop : Stop} {state : State} (faults : Faults stop state m) :
    Agrees count goal m (.error stop state) := by
  refine ⟨?_, ?_, ?_⟩
  · rintro _ _ ⟨⟩
  · rintro _ _ ⟨⟩ _
    exact .here faults
  · rintro _ ⟨⟩
    obtain ⟨_, _, _, impossible, _⟩ := faults
    exact impossible.elim

theorem of_outgrown (running : m.isDone = false) (full : m.isAddressable = false) :
    Agrees count goal m result :=
  ⟨fun _ _ _ => .outgrown running full, fun _ _ _ _ => .outgrown running full,
    fun _ _ => .outgrown running full⟩

theorem fewer {count' : Nat} (agrees : Agrees count goal m result) (le : count' ≤ count) :
    Agrees count' goal m result :=
  ⟨agrees.ok, agrees.fault, fun state same => (agrees.timeout state same).mono le⟩

/-- Steps that follow an evaluation and compute nothing more. -/
theorem followed {goal₂ : α → State → Machine → Prop} (agrees : Agrees count goal m result)
    (rest : ∀ value state m', goal value state m' → Agrees count goal₂ m' (.ok value state)) :
    Agrees count goal₂ m result :=
  ⟨fun value state same =>
    (agrees.ok value state same).bind fun m' reached =>
      (rest value state m' reached).ok value state rfl,
    agrees.fault, agrees.timeout⟩

/-- One step of the machine counts, should the evaluation reach its bound later. -/
theorem advance (advances : m.Advances m') (agrees : Agrees count goal m' result) :
    Agrees (count + 1) goal m result :=
  ⟨fun value state same => .next advances (agrees.ok value state same),
    fun stop state same other => .next advances (agrees.fault stop state same other),
    fun state same => .next advances (agrees.timeout state same)⟩

/-- The machine does one evaluation after another if it does the second wherever the first ends. -/
theorem bind {x : Evaluation.Eval α} {f : α → Evaluation.Eval β} {state : State}
    (first : Agrees count goal m (x state))
    (rest : ∀ value state' m', goal value state' m' → Agrees count goal' m' (f value state')) :
    Agrees count goal' m ((x >>= f) state) := by
  show Agrees count goal' m (EStateM.bind x f state)
  unfold EStateM.bind
  cases evaluated : x state with
  | ok value state' =>
    have leads := first.ok value state' evaluated
    refine ⟨?_, ?_, ?_⟩
    · intro value' state'' same
      exact leads.bind fun m' reached => (rest value state' m' reached).ok value' state'' same
    · intro stop state'' same other
      exact leads.bind fun m' reached => (rest value state' m' reached).fault stop state'' same other
    · intro state'' same
      exact leads.survives fun m' reached => (rest value state' m' reached).timeout state'' same
  | error stop state' =>
    refine ⟨?_, ?_, ?_⟩
    · rintro _ _ ⟨⟩
    · rintro _ _ ⟨⟩ other
      exact first.fault stop state' evaluated other
    · rintro _ ⟨⟩
      exact first.timeout state' evaluated

end Agrees

end ScriptVM
