import ScriptVM.Proofs.Runs
import ScriptVM.Proofs.Walks

/-!
A run shows nothing of what the machine held before.

One machine is below another if it is at the same instruction with frames of the same size and has
written less: what it has written, the other has written too, and the same. A sound run of a lowered
program takes the same steps on both, because it looks only at what it has written itself, and at
the number of heap cells handed out. The number does not matter to instructions that leave the heap
alone.
-/
namespace ScriptVM.Machine

variable {m₀ m m₀' m' : Machine}

/-- One machine has written no more than another, and is otherwise in the same place. -/
structure Below (m₀ m : Machine) : Prop where
  code : m.code = m₀.code
  pool : m.pool = m₀.pool
  pc : m.pc = m₀.pc
  framePtr : m.framePtr = m₀.framePtr
  halted : m.halted = m₀.halted
  registers : ∀ reg value, m₀.registers.read reg = some value → m.registers.read reg = some value
  size : m.stack.size = m₀.stack.size
  cells : ∀ (place : Nat) (value : Value), m₀.stack[place]? = some (some value) →
    m.stack[place]? = some (some value)

/-- An instruction that leaves the heap alone. -/
def sparesHeap : Instruction → Bool
  | .newChunk .. | .storeHeapAt .. => false
  | _ => true

/-- As many cells are handed out on both heaps, or it does not matter. -/
def Level (m₀ m : Machine) : Prop :=
  m.heap.top = m₀.heap.top ∨
    (∀ instruction ∈ m₀.code, sparesHeap instruction = true) ∧ m₀.heap.top < addressLimit ∧
      m.heap.top < addressLimit

section Reading

theorem Below.read (below : Below m₀ m) {reg : Nat} {value : Value}
    (read : m₀.read reg = .ok value) : m.read reg = .ok value := by
  unfold Machine.read at read ⊢
  cases written : m₀.registers.read reg with
  | none =>
    rw [written] at read
    cases read
  | some found =>
    rw [written] at read
    cases read
    rw [below.registers reg value written]

theorem Below.slotPlace (below : Below m₀ m) (slot : Nat) : m.slotPlace slot = m₀.slotPlace slot := by
  simp only [Machine.slotPlace, below.framePtr, below.size]

theorem Below.cell (below : Below m₀ m) {place : Nat} {value : Value}
    (found : (m₀.stack[place]?).join = some value) : (m.stack[place]?).join = some value := by
  rw [Option.join_eq_some_iff] at found ⊢
  exact below.cells place value found

theorem Below.isDone (below : Below m₀ m) : m.isDone = m₀.isDone := by
  simp only [Machine.isDone, below.halted, below.code, below.pc]

theorem Below.isAddressable (below : Below m₀ m) (level : Level m₀ m) :
    m.isAddressable = m₀.isAddressable := by
  have needed : m.stackNeeded = m₀.stackNeeded := by
    funext instruction
    cases instruction <;> simp only [Machine.stackNeeded, below.framePtr]
  simp only [Machine.isAddressable, below.code, below.pc, below.size, needed]
  rcases level with same | ⟨_, small₀, small⟩
  · rw [same]
  · simp [small₀, small]

end Reading

section Changing

theorem Below.next (below : Below m₀ m) : Below m₀.next m.next :=
  { below with pc := congrArg (· + 1) below.pc }

theorem Below.goto (below : Below m₀ m) (pc : Nat) : Below { m₀ with pc } { m with pc } :=
  { below with pc := rfl }

theorem Below.halt (below : Below m₀ m) :
    Below { m₀ with halted := true } { m with halted := true } :=
  { below with halted := rfl }

/-- Cells that are written alike. -/
theorem Below.write (below : Below m₀ m) (reg : Nat) {cell₀ cell : Option Value}
    (same : ∀ value, cell₀ = some value → cell = some value) :
    Below (m₀.write reg cell₀) (m.write reg cell) := by
  refine { below with registers := ?_ }
  intro other value written
  simp only [Machine.write, Registers.read_write] at written ⊢
  by_cases isReg : reg = other
  · rw [if_pos isReg] at written ⊢
    exact same value written
  · rw [if_neg isReg] at written ⊢
    exact below.registers other value written

theorem Below.unset (below : Below m₀ m) (regs : List Nat) :
    Below { m₀ with registers := m₀.registers.unset regs }
      { m with registers := m.registers.unset regs } := by
  refine { below with registers := ?_ }
  intro other value written
  simp only [read_unset] at written ⊢
  by_cases isUnset : other ∈ regs
  · rw [if_pos isUnset] at written
    cases written
  · rw [if_neg isUnset] at written ⊢
    exact below.registers other value written

theorem Below.stack (below : Below m₀ m) {stack₀ stack : Stack} (size : stack.size = stack₀.size)
    (cells : ∀ (place : Nat) (value : Value), stack₀[place]? = some (some value) →
      stack[place]? = some (some value)) :
    Below { m₀ with stack := stack₀ } { m with stack } :=
  { below with size, cells }

/-- What is appended to both stacks, cell by cell. -/
theorem Below.append_cells (below : Below m₀ m) {cells₀ cells : List (Option Value)}
    (length : cells.length = cells₀.length)
    (same : ∀ (place : Nat) (value : Value), cells₀[place]? = some (some value) →
      cells[place]? = some (some value)) :
    Below { m₀ with stack := m₀.stack ++ cells₀.toArray }
      { m with stack := m.stack ++ cells.toArray } := by
  refine below.stack (by simp [below.size, length]) ?_
  intro place value found
  rw [Array.getElem?_append] at found ⊢
  rw [below.size]
  by_cases inside : place < m₀.stack.size
  · rw [if_pos inside] at found ⊢
    exact below.cells place value found
  · rw [if_neg inside] at found ⊢
    simpa using same _ _ (by simpa using found)

theorem Below.setCell (below : Below m₀ m) (place : Nat) (value : Value) :
    Below { m₀ with stack := m₀.stack.setIfInBounds place (some value) }
      { m with stack := m.stack.setIfInBounds place (some value) } := by
  refine below.stack (by simp [below.size]) ?_
  intro other found written
  rw [Array.getElem?_setIfInBounds] at written ⊢
  rw [below.size]
  by_cases isPlace : place = other
  · rw [if_pos isPlace] at written ⊢
    exact written
  · rw [if_neg isPlace] at written ⊢
    exact below.cells other found written

/-- Taking the last cell off both stacks. -/
theorem Below.pop (below : Below m₀ m) :
    Below { m₀ with stack := m₀.stack.pop } { m with stack := m.stack.pop } := by
  refine below.stack (by simp [below.size]) ?_
  intro place value found
  rw [Array.getElem?_pop] at found ⊢
  rw [below.size]
  split at found
  next inside => rw [if_pos inside, below.cells place value found]
  next => cases found

theorem Below.back (below : Below m₀ m) {cell₀ : Option Value} (last : m₀.stack.back? = some cell₀) :
    ∃ cell, m.stack.back? = some cell ∧ ∀ value, cell₀ = some value → cell = some value := by
  rw [Array.back?_eq_getElem?] at last
  rw [Array.back?_eq_getElem?, below.size]
  have inside : m₀.stack.size - 1 < m.stack.size := by
    rw [below.size]
    exact (Array.getElem?_eq_some_iff.mp last).1
  refine ⟨m.stack[m₀.stack.size - 1], Array.getElem?_eq_getElem inside, ?_⟩
  intro value same
  subst same
  have written := below.cells _ value last
  rw [Array.getElem?_eq_getElem inside] at written
  exact Option.some.inj written

theorem Below.restore (below : Below m₀ m) {regs : List Nat}
    (restored : m₀.restore regs = (m₀', none)) :
    ∃ m', m.restore regs = (m', none) ∧ Below m₀' m' ∧ m₀'.heap = m₀.heap ∧ m'.heap = m.heap := by
  induction regs generalizing m₀ m with
  | nil =>
    cases restored
    exact ⟨m, rfl, below, rfl, rfl⟩
  | cons reg rest ih =>
    simp only [Machine.restore] at restored ⊢
    cases last : m₀.stack.back? with
    | none =>
      rw [last] at restored
      cases restored
    | some cell₀ =>
      rw [last] at restored
      obtain ⟨cell, lastToo, same⟩ := below.back last
      rw [lastToo]
      obtain ⟨m', restoredToo, below', heap₀, heap⟩ := ih (below.pop.write reg same) restored
      exact ⟨m', restoredToo, below', heap₀, heap⟩

theorem Below.cellAddress (below : Below m₀ m) {place address : Nat}
    (found : Machine.cellAddress m₀.stack place = .ok address) :
    Machine.cellAddress m.stack place = .ok address := by
  unfold Machine.cellAddress at found ⊢
  cases cell : (m₀.stack[place]?).join with
  | none =>
    rw [cell] at found
    cases found
  | some value =>
    rw [cell] at found
    rw [below.cell cell]
    exact found

theorem Below.shrink (below : Below m₀ m) (size : Nat) :
    Below { m₀ with stack := m₀.stack.shrink size } { m with stack := m.stack.shrink size } := by
  refine below.stack (by simp [below.size]) ?_
  intro place value found
  rw [Array.shrink_eq_take, Array.take_eq_extract, Array.getElem?_extract] at found ⊢
  rw [below.size]
  split at found
  next inside =>
    rw [if_pos inside]
    exact below.cells _ value found
  next => cases found

theorem Below.leave (below : Below m₀ m) (left : m₀.leave = (m₀', none)) :
    ∃ m', m.leave = (m', none) ∧ Below m₀' m' ∧ m₀'.heap = m₀.heap ∧ m'.heap = m.heap := by
  unfold Machine.leave at left ⊢
  rw [below.framePtr, below.size]
  by_cases outside : m₀.framePtr = 0 ∨ m₀.stack.size ≤ m₀.framePtr
  · rw [if_pos outside] at left
    cases left
  · rw [if_neg outside] at left ⊢
    dsimp only at left ⊢
    cases caller : Machine.cellAddress m₀.stack m₀.framePtr with
    | error fault =>
      rw [caller] at left
      cases left
    | ok framePtr =>
      rw [caller] at left
      rw [below.cellAddress caller]
      cases returnTo : Machine.cellAddress m₀.stack (m₀.framePtr - 1) with
      | error fault =>
        simp only [returnTo] at left
        cases left
      | ok pc =>
        simp only [returnTo] at left
        cases left
        dsimp only
        rw [below.cellAddress returnTo]
        exact ⟨_, rfl, { below.shrink (m₀.framePtr - 1) with pc := rfl, framePtr := rfl }, rfl, rfl⟩

end Changing

section Effects

/-- An effect on the heap. -/
def usesHeap : Effect → Bool
  | .allocate .. | .allocateSymbol .. | .storeHeap .. => true
  | _ => false

theorem heap_commit {effect : Effect} (spares : usesHeap effect = false) (m : Machine) :
    (m.commit effect).heap = m.heap := by
  cases effect with
  | allocate | allocateSymbol | storeHeap => cases spares
  | _ => rfl

theorem code_commit (effect : Effect) (m : Machine) : (m.commit effect).code = m.code := by
  cases effect <;> rfl

theorem top_commit {effect : Effect} (same : m.heap.top = m₀.heap.top) :
    (m.commit effect).heap.top = (m₀.commit effect).heap.top := by
  cases effect with
  | allocate | allocateSymbol | storeHeap => simp [commit, next, write, same]
  | _ => exact same

theorem push_push_append (stack : Stack) (first second : Option Value)
    (rest : List (Option Value)) :
    (stack.push first).push second ++ rest.toArray = stack ++ (first :: second :: rest).toArray := by
  apply Array.toList_inj.mp
  simp

theorem Below.call (below : Below m₀ m) (entry : Nat) (args : List Value) :
    Below (m₀.commit (.call entry args)) (m.commit (.call entry args)) := by
  have grown : Below
      { m₀ with
        stack := m₀.stack ++
          (some (ofAddress m₀.pc) :: some (ofAddress m₀.framePtr) :: args.map some).toArray }
      { m with
        stack := m.stack ++
          (some (ofAddress m₀.pc) :: some (ofAddress m₀.framePtr) :: args.map some).toArray } :=
    below.append_cells rfl fun _ _ same => same
  simp only [commit, push_push_append, below.pc, below.framePtr, below.size]
  exact { grown with pc := rfl, framePtr := rfl }

theorem Below.reserve (below : Below m₀ m) (size : Nat) :
    Below (m₀.commit (.reserve size)) (m.commit (.reserve size)) := by
  have needed : wrap (m.framePtr + 1 + size) = wrap (m₀.framePtr + 1 + size) := by
    rw [below.framePtr]
  simp only [commit, growStack, needed, below.size]
  split
  · rw [← List.toArray_replicate]
    exact (below.append_cells rfl fun _ _ same => same).next
  · exact below.next

theorem Below.save (below : Below m₀ m) (regs : List Nat) :
    Below (m₀.commit (.save regs)) (m.commit (.save regs)) := by
  refine (below.append_cells (by simp) ?_).next
  intro place value found
  rw [List.getElem?_map, Option.map_eq_some_iff] at found ⊢
  obtain ⟨reg, isReg, written⟩ := found
  exact ⟨reg, isReg, below.registers reg value written⟩

/-- The same effect on both machines. -/
theorem Below.commit (below : Below m₀ m) (effect : Effect)
    (tops : usesHeap effect = true → m.heap.top = m₀.heap.top) :
    Below (m₀.commit effect) (m.commit effect) := by
  cases effect with
  | skip => exact below.next
  | halt => exact below.halt
  | goto pc => exact below.goto pc
  | write dst cell => exact (below.write dst fun _ same => same).next
  | unset regs => exact (below.unset regs).next
  | call entry args => exact below.call entry args
  | reserve size => exact below.reserve size
  | save regs => exact below.save regs
  | store place value => exact (below.setCell place value).next
  | push value =>
    have grown : Below { m₀ with stack := m₀.stack ++ [some value].toArray }
        { m with stack := m.stack ++ [some value].toArray } :=
      below.append_cells rfl fun _ _ same => same
    simp only [← Array.push_eq_append] at grown
    exact grown.next
  | pop dst =>
    refine (below.pop.write dst ?_).next
    intro value last
    rw [Option.join_eq_some_iff] at last ⊢
    obtain ⟨cell, lastToo, same⟩ := below.back last
    rw [lastToo, same value rfl]
  | allocate dst size =>
    have written := below.write dst fun value (same : some (ofAddress m₀.heap.top) = some value) => same
    simp only [Machine.commit, Heap.allocate, tops rfl]
    exact { written with pc := congrArg (· + 1) below.pc }
  | allocateSymbol dst text =>
    have written := below.write dst fun value (same : some (ofAddress m₀.heap.top) = some value) => same
    simp only [Machine.commit, Heap.allocateSymbol, Heap.allocate, tops rfl]
    exact { written with pc := congrArg (· + 1) below.pc }
  | storeHeap address value => exact { below with pc := congrArg (· + 1) below.pc }
  | print line => exact { below with pc := congrArg (· + 1) below.pc }

end Effects

section Plans

variable {α β : Type}

/-- Whatever one computation gives, or faults with through the fault of the program, so does the
other. -/
structure Tracks (x₀ x : Except Fault α) : Prop where
  ok : ∀ a, x₀ = .ok a → x = .ok a
  fault : ∀ fault, x₀ = .error fault → fault.isOfProgram = true → x = .error fault

theorem Tracks.refl (x : Except Fault α) : Tracks x x :=
  ⟨fun _ same => same, fun _ same _ => same⟩

theorem Tracks.of_error {x : Except Fault α} {fault : Fault}
    (same : fault.isOfProgram = true → x = .error fault) : Tracks (.error fault) x where
  ok := by
    intro _ impossible
    cases impossible
  fault := by
    rintro _ ⟨⟩ blame
    exact same blame

theorem Tracks.bind_each {x₀ x : Except Fault α} {f₀ f : α → Except Fault β} (first : Tracks x₀ x)
    (rest : ∀ a, x₀ = .ok a → Tracks (f₀ a) (f a)) : Tracks (x₀ >>= f₀) (x >>= f) := by
  cases given : x₀ with
  | ok a =>
    rw [first.ok a given]
    exact rest a given
  | error fault =>
    refine Tracks.of_error fun blame => ?_
    rw [first.fault fault given blame]
    rfl

theorem Tracks.bind {x₀ x : Except Fault α} {f : α → Except Fault β} (first : Tracks x₀ x) :
    Tracks (x₀ >>= f) (x >>= f) :=
  first.bind_each fun _ _ => .refl _

theorem Below.tracks_read (below : Below m₀ m) (reg : Nat) : Tracks (m₀.read reg) (m.read reg) := by
  refine ⟨fun _ read => below.read read, ?_⟩
  intro fault failed blame
  unfold Machine.read at failed
  split at failed
  · cases failed
  · cases failed
    cases blame

theorem Below.tracks_readAll (below : Below m₀ m) (regs : List Nat) :
    Tracks (m₀.readAll regs) (m.readAll regs) := by
  induction regs with
  | nil => exact .refl _
  | cons reg rest ih =>
    exact (below.tracks_read reg).bind_each fun _ _ => ih.bind

/-- What a steady instruction is to change is the same on both machines. -/
theorem Below.tracks_plan (below : Below m₀ m) {instruction : Instruction}
    (fits : m₀.stack.size < addressLimit) (steady : m₀.Steady instruction)
    (notPhi : ∀ dst left right, instruction ≠ .phi dst left right)
    (tops : sparesHeap instruction = true ∨ m.heap.top = m₀.heap.top) :
    Tracks (m₀.plan instruction) (m.plan instruction) := by
  cases instruction with
  | halt | loadConst | loadAddress | unset | jump | ret | reserve | save | restore | newChunk =>
    exact .refl _
  | loadPool dst index =>
    simp only [Machine.plan, below.pool]
    exact .refl _
  | copy dst src => exact (below.tracks_read src).bind
  | phi dst left right => exact absurd rfl (notPhi dst left right)
  | arith op dst left right | compare op dst left right =>
    exact (below.tracks_read left).bind_each fun _ _ => (below.tracks_read right).bind
  | branchZero pred target => exact (below.tracks_read pred).bind
  | call target args =>
    exact (Tracks.refl _).bind_each fun _ _ => (below.tracks_readAll args).bind
  | loadSlot dst slot =>
    simp only [Machine.plan, below.slotPlace]
    refine (Tracks.refl _).bind_each fun place _ => ?_
    cases cell : (m₀.stack[place]?).join with
    | none =>
      refine Tracks.of_error fun blame => ?_
      cases blame
    | some value =>
      rw [below.cell cell]
      exact .refl _
  | storeSlot src slot =>
    simp only [Machine.plan, below.slotPlace]
    exact (below.tracks_read src).bind
  | storeOnce src slot =>
    obtain ⟨value, cell⟩ := steady
    simp only [Machine.plan, below.slotPlace]
    refine (below.tracks_read src).bind_each fun _ _ => (Tracks.refl _).bind_each fun place isPlace => ?_
    have written : (m₀.stack[place]?).join = some value := by
      rw [Machine.slotPlace_of_cell fits cell] at isPlace
      cases isPlace
      rw [cell]
      rfl
    rw [written, below.cell written]
    exact .refl _
  | storeHeapAt ptr offset src =>
    rcases tops with impossible | same
    · cases impossible
    · simp only [Machine.plan, Machine.pointer, Heap.check, same]
      exact ((below.tracks_read ptr).bind).bind_each fun _ _ => (below.tracks_read src).bind
  | _ => exact steady.elim

end Plans

section Steps

/-- Whatever a computation gives has a property. -/
def Gives {α : Type} (post : α → Prop) (x : Except Fault α) : Prop :=
  ∀ a, x = .ok a → post a

theorem Gives.of_ok {α : Type} {post : α → Prop} {a : α} (holds : post a) :
    Gives post (.ok a) := by
  rintro _ ⟨⟩
  exact holds

theorem Gives.of_error {α : Type} {post : α → Prop} {fault : Fault} :
    Gives post (.error fault : Except Fault α) := by
  intro _ impossible
  cases impossible

theorem Gives.bind {α β : Type} {post : β → Prop} {x : Except Fault α} {f : α → Except Fault β}
    (rest : ∀ a, Gives post (f a)) : Gives post (x >>= f) := by
  cases x with
  | error fault => exact .of_error
  | ok a => exact rest a

theorem spares_gotoIf (instruction : Instruction) (target : Target) (test : Bool) :
    Gives (fun effect => usesHeap effect = false) (gotoIf instruction target test) := by
  unfold gotoIf
  split
  · cases destination instruction target with
    | error fault => exact .of_error
    | ok address => exact .of_ok rfl
  · exact .of_ok rfl

/-- A steady instruction that leaves the heap alone has no effect on it. -/
theorem spares_plan {instruction : Instruction} (steady : m.Steady instruction)
    (spares : sparesHeap instruction = true) :
    Gives (fun effect => usesHeap effect = false) (m.plan instruction) := by
  cases instruction with
  | halt | loadConst | unset | ret | reserve | save | restore => exact .of_ok rfl
  | newChunk | storeHeapAt => cases spares
  | loadPool dst index =>
    simp only [Machine.plan]
    split
    · exact .of_ok rfl
    · exact .of_error
  | phi dst left right =>
    simp only [Machine.plan]
    split
    · exact .of_ok rfl
    · exact .of_ok rfl
    · exact .of_error
    · exact .of_error
  | loadAddress dst target => exact .bind fun _ => .of_ok rfl
  | copy dst src => exact .bind fun _ => .of_ok rfl
  | arith op dst left right | compare op dst left right =>
    exact .bind fun _ => .bind fun _ => .bind fun _ => .of_ok rfl
  | jump target =>
    simp only [Machine.plan]
    cases destination (.jump target) target with
    | error fault => exact .of_error
    | ok address => exact .of_ok rfl
  | branchZero pred target => exact .bind fun _ => spares_gotoIf _ _ _
  | call target args => exact .bind fun _ => .bind fun _ => .of_ok rfl
  | loadSlot dst slot =>
    refine .bind fun place => ?_
    split
    · exact .of_ok rfl
    · exact .of_error
  | storeSlot src slot => exact .bind fun _ => .bind fun _ => .of_ok rfl
  | storeOnce src slot =>
    refine .bind fun _ => .bind fun place => ?_
    split
    · exact .of_ok rfl
    · exact .of_ok rfl
    · exact .of_error
  | _ => exact steady.elim

theorem Below.fetch (below : Below m₀ m) : m.code[m.pc]? = m₀.code[m₀.pc]? := by
  rw [below.code, below.pc]

theorem Level.of_heap_eq (level : Level m₀ m) (code : m₀'.code = m₀.code)
    (heap₀ : m₀'.heap = m₀.heap) (heap : m'.heap = m.heap) : Level m₀' m' := by
  unfold Level
  rw [code, heap₀, heap]
  exact level

/-- The same choice, if the other machine has only one to make. -/
theorem Below.plan_phi (below : Below m₀ m) {dst left right : Nat} {effect effect' : Effect}
    (plan₀ : m₀.plan (.phi dst left right) = .ok effect)
    (plan : m.plan (.phi dst left right) = .ok effect') : effect' = effect := by
  simp only [Machine.plan] at plan₀ plan
  split at plan₀
  next value isLeft noRight =>
    cases plan₀
    rw [below.registers left value isLeft] at plan
    split at plan <;> grind
  next value noLeft isRight =>
    cases plan₀
    rw [below.registers right value isRight] at plan
    split at plan <;> grind
  next => cases plan₀
  next => cases plan₀

/-- An instruction with a plan, on both machines. -/
theorem Below.step_planned (below : Below m₀ m) (level : Level m₀ m) {instruction : Instruction}
    {effect : Effect} (fetch : m₀.code[m₀.pc]? = some instruction)
    (steady : m₀.Steady instruction) (planned : isPlanned instruction = true)
    (plan₀ : m₀.plan instruction = .ok effect) (plan : m.plan instruction = .ok effect) :
    m.step = (m.commit effect, none) ∧ Below (m₀.commit effect) (m.commit effect) ∧
      Level (m₀.commit effect) (m.commit effect) := by
  refine ⟨step_of_plan (below.fetch.trans fetch) planned plan, ?_⟩
  rcases level with same | ⟨spares, small₀, small⟩
  · exact ⟨below.commit effect fun _ => same, .inl (top_commit same)⟩
  · have unused : usesHeap effect = false :=
      spares_plan steady (spares instruction (Array.mem_of_getElem? fetch)) effect plan₀
    refine ⟨below.commit effect fun used => ?_, ?_⟩
    · rw [unused] at used
      cases used
    · exact Level.of_heap_eq (.inr ⟨spares, small₀, small⟩) (code_commit effect m₀)
        (heap_commit unused m₀) (heap_commit unused m)

theorem Below.tops (level : Level m₀ m) {instruction : Instruction}
    (fetch : m₀.code[m₀.pc]? = some instruction) :
    sparesHeap instruction = true ∨ m.heap.top = m₀.heap.top := by
  rcases level with same | ⟨spares, _, _⟩
  · exact .inr same
  · exact .inl (spares instruction (Array.mem_of_getElem? fetch))

theorem fault_phi {dst left right : Nat} {fault : Fault}
    (plan : m.plan (.phi dst left right) = .error fault) : fault.isOfProgram = false := by
  simp only [Machine.plan] at plan
  split at plan <;> cases plan <;> rfl

theorem fault_restore {regs : List Nat} {fault : Fault}
    (restored : m.restore regs = (m', some fault)) : fault.isOfProgram = false := by
  induction regs generalizing m with
  | nil => cases restored
  | cons reg rest ih =>
    simp only [Machine.restore] at restored
    split at restored
    · cases restored
      rfl
    · exact ih restored

theorem fault_cellAddress {stack : Stack} {place : Nat} {fault : Fault}
    (found : cellAddress stack place = .error fault) : fault.isOfProgram = false := by
  unfold cellAddress at found
  split at found
  · cases found
    rfl
  · unfold addressOf at found
    split at found
    · split at found <;> cases found
      rfl
    · cases found
      rfl

theorem fault_leave {fault : Fault} (left : m.leave = (m', some fault)) :
    fault.isOfProgram = false := by
  unfold Machine.leave at left
  dsimp only at left
  split at left
  · cases left
    rfl
  · split at left
    next found =>
      cases left
      exact fault_cellAddress found
    next =>
      split at left
      next found =>
        cases left
        exact fault_cellAddress found
      next => cases left

/-- A sound run that is not over goes on, or ends with a fault of the program. -/
theorem Sound.step_cases {count : Nat} (sound : m.Sound (count + 1)) (running : m.isDone = false)
    (addressable : m.isAddressable = true) :
    (∃ m', m.step = (m', none) ∧ m'.Sound count) ∨
      ∃ m' error, m.step = (m', some error) ∧ error.fault.isOfProgram = true := by
  cases sound with
  | done done =>
    rw [running] at done
    cases done
  | fails fails blame => exact .inr ⟨_, _, fails.step, blame⟩
  | next advance rest => exact .inl ⟨_, advance.step, rest⟩
  | outgrown _ full =>
    rw [addressable] at full
    cases full

/-- In a sound run the program is to blame for what its instructions refuse. -/
theorem Sound.blames {count : Nat} {instruction : Instruction} {fault : Fault}
    (sound : m.Sound (count + 1)) (running : m.isDone = false)
    (addressable : m.isAddressable = true) (fetch : m.code[m.pc]? = some instruction)
    (planned : isPlanned instruction = true) (plan : m.plan instruction = .error fault) :
    fault.isOfProgram = true := by
  have faulted := step_of_fault fetch planned plan
  rcases sound.step_cases running addressable with ⟨m', stepped, _⟩ | ⟨m', error, stepped, blame⟩
  · cases faulted.symm.trans stepped
  · cases faulted.symm.trans stepped
    exact blame

/-- Where a sound run goes on, a choice between two registers can be made. -/
theorem Sound.plan_phi {count dst left right : Nat} (sound : m.Sound (count + 1))
    (running : m.isDone = false) (addressable : m.isAddressable = true)
    (fetch : m.code[m.pc]? = some (.phi dst left right)) :
    ∃ effect, m.plan (.phi dst left right) = .ok effect := by
  cases plan : m.plan (.phi dst left right) with
  | ok effect => exact ⟨effect, rfl⟩
  | error fault =>
    have blame := sound.blames running addressable fetch rfl plan
    rw [fault_phi plan] at blame
    cases blame

theorem Sound.of_step {count : Nat} (sound : m.Sound (count + 1)) (running : m.isDone = false)
    (addressable : m.isAddressable = true) (stepped : m.step = (m', none)) : m'.Sound count := by
  rcases sound.step_cases running addressable with ⟨last, same, rest⟩ | ⟨last, error, impossible, _⟩
  · rw [stepped] at same
    cases same
    exact rest
  · rw [stepped] at impossible
    cases impossible

/-- One step of the machine that has written less is one of the other. A choice between two
registers is all that may fail because more has been written; that the other run is sound rules it
out. -/
theorem Below.step (below : Below m₀ m) (level : Level m₀ m) (advance : Advances m₀ m₀')
    {count : Nat} (sound : m.Sound (count + 1)) :
    ∃ m', m.step = (m', none) ∧ Below m₀' m' ∧ Level m₀' m' := by
  have running : m.isDone = false := below.isDone.trans advance.running
  have addressable : m.isAddressable = true :=
    (below.isAddressable level).trans advance.addressable
  cases steps_of_step advance.step with
  | outside fetch =>
    have outside : m₀.code.size ≤ m₀.pc := Array.getElem?_eq_none_iff.mp fetch
    have impossible := advance.running
    simp [Machine.isDone, outside] at impossible
  | @commits instruction effect fetch planned plan₀ =>
    have steady := advance.steady instruction fetch
    have fits := (isAddressable_iff.mp advance.addressable).2.1
    have plan : m.plan instruction = .ok effect := by
      by_cases choice : ∃ dst left right, instruction = .phi dst left right
      · obtain ⟨dst, left, right, rfl⟩ := choice
        obtain ⟨effect', plan⟩ :=
          sound.plan_phi running addressable (below.fetch.trans fetch)
        rw [plan, below.plan_phi plan₀ plan]
      · refine (below.tracks_plan fits steady ?_ (Below.tops level fetch)).ok effect plan₀
        rintro dst left right rfl
        exact choice ⟨dst, left, right, rfl⟩
    exact ⟨_, below.step_planned level fetch steady planned plan₀ plan⟩
  | restores fetch restored =>
    obtain ⟨m', restoredToo, below', heap₀, heap⟩ := below.restore restored
    obtain ⟨_, _, rfl, _⟩ := restore_keeps restored
    exact ⟨m'.next, step_of_restore (below.fetch.trans fetch) restoredToo, below'.next,
      level.of_heap_eq rfl heap₀ heap⟩
  | leaves fetch left =>
    obtain ⟨m', leftToo, below', heap₀, heap⟩ := below.leave left
    obtain ⟨_, _, _, same, _⟩ := leave_keeps left
    have code := congrArg Machine.code same
    exact ⟨m', step_of_leave (below.fetch.trans fetch) leftToo, below',
      level.of_heap_eq code heap₀ heap⟩

/-- A fault of the program on the machine that has written less is one on the other. -/
theorem Below.fails (below : Below m₀ m) (level : Level m₀ m) {error : RuntimeError}
    (fails : Fails m₀ error m₀') (blame : error.fault.isOfProgram = true) :
    m.step = ({ m with halted := true }, some error) := by
  obtain ⟨fault, last, faults, rfl, _⟩ := faults_of_step fails.step
  cases faults with
  | @refuses instruction _ fetch planned plan₀ =>
    have steady := fails.steady instruction fetch
    have notPhi : ∀ dst left right, instruction ≠ .phi dst left right := by
      rintro dst left right rfl
      rw [fault_phi plan₀] at blame
      cases blame
    have fits := (isAddressable_iff.mp fails.addressable).2.1
    have plan := (below.tracks_plan fits steady notPhi (Below.tops level fetch)).fault _ plan₀ blame
    rw [step_of_fault (below.fetch.trans fetch) planned plan, below.pc]
  | restores _ restored =>
    rw [fault_restore restored] at blame
    cases blame
  | leaves _ left =>
    rw [fault_leave left] at blame
    cases blame

/-- How two runs that look alike end: neither does, or both do, with the same fault or none. -/
def SameEnd (ended₀ ended : Machine × Option RuntimeError) : Prop :=
  ended.2 = ended₀.2 ∧ (ended₀.2 = none → Below ended₀.1 ended.1)

/-- Sound runs of two machines, one of which has written less, end alike. -/
theorem Below.run (below : Below m₀ m) (level : Level m₀ m) {fuel : Nat} (sound₀ : m₀.Sound fuel)
    (sound : m.Sound fuel) : Option.Rel SameEnd (m₀.run fuel) (m.run fuel) := by
  induction fuel generalizing m₀ m with
  | zero =>
    unfold Machine.run
    rw [below.isDone]
    split
    · exact .some ⟨rfl, fun _ => below.halt⟩
    · exact .none
  | succ fuel ih =>
    cases sound₀ with
    | done done =>
      rw [run_of_done done, run_of_done (below.isDone.trans done)]
      exact .some ⟨rfl, fun _ => below.halt⟩
    | fails fails blame =>
      have running := below.isDone.trans fails.running
      have addressable := (below.isAddressable level).trans fails.addressable
      rw [run_of_fails fails]
      simp only [Machine.run, running, addressable, below.fails level fails blame]
      exact .some ⟨rfl, fun impossible => by cases impossible⟩
    | next advance rest =>
      have running := below.isDone.trans advance.running
      have addressable := (below.isAddressable level).trans advance.addressable
      obtain ⟨m', stepped, below', level'⟩ := below.step level advance sound
      rw [run_of_advances advance]
      simp only [Machine.run, running, addressable, stepped]
      exact ih below' level' rest (sound.of_step running addressable stepped)
    | outgrown running full =>
      rw [run_of_outgrown running full, run_of_outgrown (below.isDone.trans running)
        ((below.isAddressable level).trans full)]
      exact .none

end Steps

end ScriptVM.Machine
