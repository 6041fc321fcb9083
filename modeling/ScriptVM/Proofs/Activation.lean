import ScriptVM.Proofs.Simulation

/-!
Calls: opening a frame, executing the body in it, and closing it again.

A call pushes the address to return to, the caller's frame pointer and the arguments; the function
makes room for its other variables and saves the registers its body was given. The body leaves all
of this as it is but the slots, so that restoring the registers and returning leaves the caller with
nothing changed but the heap and the register of results. By induction on the bound on nested calls,
every function does what its body evaluates to.
-/
namespace ScriptVM

open Assembly (Placed placed_append placed_tail width)
open Evaluation (State Eval eval evaluate activate parameters)
open Lowering (visit given_visit)
open Machine (ofAddress)

section Stack

/-- The cells of a new frame: where to return to, the caller's frame, the arguments, and room for
the other variables. -/
def frameCells (m : Machine) (values : List Value) (slots : Nat) : List (Option Value) :=
  some (ofAddress m.pc) :: some (ofAddress m.framePtr) ::
    (values.map some ++ List.replicate (slots - values.length) none)

variable {m : Machine} {values : List Value} {slots : Nat}

theorem length_frameCells (enough : values.length ≤ slots) :
    (frameCells m values slots).length = slots + 2 := by
  simp [frameCells]
  omega

/-- Calling and making room for variables builds the frame on top of the stack. -/
theorem growStack_call (enough : values.length ≤ slots) :
    Machine.growStack (((m.stack.push (some (ofAddress m.pc))).push (some (ofAddress m.framePtr))) ++
        (values.map some).toArray) (m.stack.size + 1 + 1 + slots) =
      m.stack ++ (frameCells m values slots).toArray := by
  apply Array.toList_inj.mp
  unfold Machine.growStack frameCells
  split
  next => simp; omega
  next full =>
    have exact : slots - values.length = 0 := by
      simp at full
      omega
    simp [exact]

theorem getElem?_frameCells_slot {slot : Nat} (inside : slot < slots) :
    (frameCells m values slots)[slot + 2]? = some values[slot]? := by
  simp only [frameCells, List.getElem?_cons_succ, List.getElem?_append, List.length_map]
  by_cases given : slot < values.length
  · simp [given]
  · rw [if_neg given, List.getElem?_replicate, if_pos (by omega),
      List.getElem?_eq_none (Nat.le_of_not_lt given)]

/-- Restoring saved registers takes their cells off the stack. -/
theorem restore_saved (cells : Nat → Option Value) (regs : List Nat) (base : Stack) :
    ∀ m : Machine, m.stack = base ++ (regs.reverse.map cells).toArray →
      ∃ registers, m.restore regs = ({ m with stack := base, registers }, none) ∧
        ∀ reg, registers.read reg = if reg ∈ regs then cells reg else m.registers.read reg := by
  induction regs with
  | nil =>
    intro m stack
    refine ⟨m.registers, ?_, by simp⟩
    simp only [List.reverse_nil, List.map_nil, Array.append_empty] at stack
    simp [Machine.restore, ← stack]
  | cons first rest ih =>
    intro m stack
    have split : m.stack = (base ++ (rest.reverse.map cells).toArray).push (cells first) := by
      rw [stack]
      apply Array.toList_inj.mp
      simp
    obtain ⟨registers, restored, reads⟩ := ih (({ m with stack := m.stack.pop } : Machine).write first
      (cells first)) (by simp [Machine.write, split])
    refine ⟨registers, ?_, ?_⟩
    · simp only [Machine.restore, split, Array.back?_push, Array.pop_push]
      simp only [split, Array.pop_push] at restored
      rw [restored]
      rfl
    · intro reg
      rw [reads, Machine.write, Registers.read_write]
      by_cases inRest : reg ∈ rest
      · simp [inRest]
      · by_cases same : first = reg
        · simp [same]
        · simp [inRest, same, Ne.symm same]

end Stack

/-- In a fresh activation the parameters hold the arguments and nothing else has a value. -/
theorem parameters_eq {params : List (Node Tag)} {values : List Value} {others : List Nat}
    (sameLength : params.length = values.length)
    (distinct : ∀ (i j id : Nat), (params.map Node.id ++ others)[i]? = some id →
      (params.map Node.id ++ others)[j]? = some id → i = j)
    {slot id : Nat} (found : (params.map Node.id ++ others)[slot]? = some id) :
    parameters params values id = values[slot]? := by
  induction params generalizing values slot with
  | nil =>
    cases values with
    | nil => simp [parameters]
    | cons value values => cases sameLength
  | cons param params ih =>
    cases values with
    | nil => cases sameLength
    | cons value values =>
      have distinctRest : ∀ (i j id : Nat), (params.map Node.id ++ others)[i]? = some id →
          (params.map Node.id ++ others)[j]? = some id → i = j := by
        intro i j id first second
        have := distinct (i + 1) (j + 1) id (by simpa using first) (by simpa using second)
        omega
      cases slot with
      | zero =>
        simp only [List.map_cons, List.cons_append, List.getElem?_cons_zero, Option.some.injEq]
          at found
        simp [parameters, found]
      | succ slot =>
        simp only [List.map_cons, List.cons_append, List.getElem?_cons_succ] at found
        have different : id ≠ param.id := by
          rintro rfl
          have := distinct 0 (slot + 1) param.id (by simp) (by simpa using found)
          omega
        simp only [parameters, if_neg different, List.getElem?_cons_succ]
        exact ih (by simpa using sameLength) distinctRest found

section Frames

variable {α : Type} {image : Image} {count slots entry : Nat} {values : List Value}
  {regs saved : List Nat} {m : Machine} {goal : α → State → Machine → Prop}
  {result : EStateM.Result Stop State α}

/-- The machine where the body of a called function starts. -/
def opened (m : Machine) (entry slots : Nat) (values : List Value) (saved : List Nat) : Machine :=
  { m with
    pc := entry + 2
    framePtr := m.stack.size + 1
    stack := m.stack ++ (frameCells m values slots).toArray ++
      (saved.reverse.map m.registers.read).toArray }

/-- A call, and the instructions with which every function begins. -/
theorem agrees_open (code : m.code = image.code) (running : m.halted = false)
    (fetch : m.code[m.pc]? = some (.call (.address entry) regs))
    (holds : regs.map m.registers.read = values.map some)
    (reserved : image.code[entry]? = some (.reserve slots))
    (stored : image.code[entry + 1]? = some (.save saved)) (enough : values.length ≤ slots)
    (body : m.isAddressable = true → Agrees count goal (opened m entry slots values saved) result) :
    Agrees (count + 1) goal m result := by
  have planCall : m.plan (.call (.address entry) regs) = .ok (.call entry values) := by
    simp [Machine.plan, Machine.destination, Machine.readAll_eq holds, bind, Except.bind, pure,
      Except.pure]
  refine Agrees.execute_counted running fetch rfl planCall trivial fun addressable => ?_
  have fetchReserve : (m.commit (.call entry values)).code[(m.commit (.call entry values)).pc]? =
      some (.reserve slots) := by
    rw [← reserved, ← code]
    rfl
  refine Agrees.execute running fetchReserve rfl rfl trivial fun roomy => ?_
  have isWord : m.stack.size + 1 + 1 + slots < wordLimit := by
    have limit := Machine.addressLimit_add_self
    have needed : m.stack.size + 1 + 1 + slots < Machine.addressLimit :=
      (Machine.isAddressable_iff.mp roomy).2.2.2 _ fetchReserve
    omega
  have fetchSave : ((m.commit (.call entry values)).commit (.reserve slots)).code[
      ((m.commit (.call entry values)).commit (.reserve slots)).pc]? = some (.save saved) := by
    rw [← stored, ← code]
    rfl
  refine Agrees.execute running fetchSave rfl rfl trivial fun _ => ?_
  have same : ((m.commit (.call entry values)).commit (.reserve slots)).commit (.save saved) =
      opened m entry slots values saved := by
    simp only [opened, ← growStack_call enough]
    rw [← wrap_of_lt isWord]
    rfl
  rw [same]
  exact body addressable

theorem size_opened (enough : values.length ≤ slots) :
    (opened m entry slots values saved).stack.size = m.stack.size + (slots + 2) + saved.length := by
  simp [opened, length_frameCells enough, Nat.add_assoc]

theorem getElem?_opened (enough : values.length ≤ slots) {place : Nat}
    (inside : place < m.stack.size + (slots + 2)) :
    (opened m entry slots values saved).stack[place]? =
      if place < m.stack.size then m.stack[place]?
      else (frameCells m values slots)[place - m.stack.size]? := by
  have bound : place < (m.stack ++ (frameCells m values slots).toArray).size := by
    simpa [length_frameCells enough] using inside
  rw [opened, Array.getElem?_append_left bound, Array.getElem?_append]
  simp

/-- The saved registers are still on top of the stack when the body is done. -/
theorem stack_of_kept {lo hi : Nat} {m' : Machine} (enough : values.length ≤ slots)
    (kept : Kept slots lo hi (opened m entry slots values saved) m') :
    m'.stack = m'.stack.take (m.stack.size + (slots + 2)) ++
      (saved.reverse.map m.registers.read).toArray := by
  have size : m'.stack.size = m.stack.size + (slots + 2) + saved.length := by
    rw [kept.size, size_opened enough]
  apply Array.ext_getElem?
  intro place
  rw [Array.getElem?_append]
  have taken : (m'.stack.take (m.stack.size + (slots + 2))).size = m.stack.size + (slots + 2) := by
    simp
    omega
  rw [taken]
  split
  next inside =>
    rw [Array.take_eq_extract, Array.getElem?_extract, if_pos (by omega), Nat.zero_add]
  next outside =>
    have above : (opened m entry slots values saved).framePtr + slots < place := by
      simp only [opened]
      omega
    rw [kept.cells place (.inr above), opened, Array.getElem?_append_right]
    · simp [length_frameCells enough]
    · simpa [length_frameCells enough] using outside

/-- Closing the frame of a call goes back to the caller. -/
theorem leave_opened {m' : Machine} (enough : values.length ≤ slots)
    (addressable : m.isAddressable = true) (inCode : m.pc < m.code.size)
    (frame : m.framePtr ≤ m.stack.size) (framePtr : m'.framePtr = m.stack.size + 1)
    (size : m'.stack.size = m.stack.size + (slots + 2))
    (cells : ∀ place, place ≤ m.stack.size + 1 →
      m'.stack[place]? = (opened m entry slots values saved).stack[place]?) :
    m'.leave = ({ m' with stack := m.stack, framePtr := m.framePtr, pc := m.pc + 1 }, none) := by
  obtain ⟨codeSmall, stackSmall, _⟩ := Machine.isAddressable_iff.mp addressable
  have atFrame : m'.stack[m.stack.size + 1]? = some (some (ofAddress m.framePtr)) := by
    rw [cells _ (Nat.le_refl _), getElem?_opened enough (by omega), if_neg (by omega)]
    simp [frameCells]
  have atBase : m'.stack[m.stack.size]? = some (some (ofAddress m.pc)) := by
    rw [cells _ (Nat.le_succ _), getElem?_opened enough (by omega), if_neg (Nat.lt_irrefl _)]
    simp [frameCells]
  have caller : Machine.cellAddress m'.stack (m.stack.size + 1) = .ok m.framePtr := by
    simp [Machine.cellAddress, atFrame, Machine.addressOf_ofAddress (by omega : m.framePtr < _)]
  have returnTo : Machine.cellAddress m'.stack m.stack.size = .ok m.pc := by
    simp [Machine.cellAddress, atBase, Machine.addressOf_ofAddress (by omega : m.pc < _)]
  have below : m'.stack.shrink m.stack.size = m.stack := by
    apply Array.ext_getElem?
    intro place
    rw [Array.shrink_eq_take, Array.take_eq_extract, Array.getElem?_extract]
    split
    next inside =>
      have inside : place < m.stack.size := by omega
      rw [Nat.zero_add, cells place (by omega), getElem?_opened enough (by omega), if_pos inside]
    next outside => rw [Array.getElem?_eq_none (by omega)]
  simp only [Machine.leave, framePtr, Nat.add_sub_cancel, caller, returnTo, below]
  rw [if_neg (by omega)]

/-- The instructions with which every function ends: the result, the saved registers, and back. The
body may have written every register that it gives out, so what counts is what was saved; and the
two cells under the slots are below all that it writes, so they still say where to return. -/
theorem agrees_close {locals : Locals} {lo hi last : Nat} {before inner after : State}
    {m' : Machine} {v : Value} {rest : List Instruction} (enough : values.length ≤ slots)
    (addressable : m.isAddressable = true) (inCode : m.pc < m.code.size)
    (outer : Mirrors image locals before m) {locals' : Locals}
    (mirrors : Mirrors image locals' inner m')
    (kept : Kept slots lo hi (opened m entry slots values saved) m')
    (covers : ∀ reg, reg ∈ saved ↔ lo ≤ reg ∧ reg < hi) (positive : 1 ≤ lo)
    (holds : m'.registers.read last = some v)
    (placed : Placed image.table image.code m'.pc
      (.copy resultReg last :: .restore saved :: .ret :: rest))
    (vars : after.vars = before.vars) (heap : after.heap = inner.heap) :
    Agrees count (Returned m before) m' (.ok v after) := by
  have fetchCopy := fetch_of_placed mirrors.code placed rfl rfl
  have plan : m'.plan (.copy resultReg last) = .ok (.write resultReg (some v)) := by
    simp [Machine.plan, Machine.read, holds, bind, Except.bind, pure, Except.pure]
  refine Agrees.execute mirrors.running fetchCopy rfl plan trivial fun _ => ?_
  have mirrors₁ := mirrors.write resultReg (some v)
  have placedRestore := placed_tail placed rfl
  have fetchRestore := fetch_of_placed mirrors₁.code placedRestore rfl rfl
  have stack := stack_of_kept enough kept
  obtain ⟨registers, restored, reads⟩ :=
    restore_saved m.registers.read saved _ (m'.write resultReg (some v)).next stack
  have stepRestore : (m'.write resultReg (some v)).next.step =
      ({ m' with
          stack := m'.stack.take (m.stack.size + (slots + 2)), registers, pc := m'.pc + 1 + 1 },
        none) := by
    rw [Machine.step_of_restore fetchRestore restored]
    rfl
  refine Agrees.fewer (Agrees.step mirrors₁.running fetchRestore trivial (fun _ => stepRestore)
    fun _ => ?_) (Nat.le_succ count)
  have placedRet := placed_tail placedRestore rfl
  have size : (m'.stack.take (m.stack.size + (slots + 2))).size = m.stack.size + (slots + 2) := by
    rw [Array.take_eq_extract, Array.size_extract, kept.size, size_opened enough]
    omega
  have cells : ∀ place, place ≤ m.stack.size + 1 →
      (m'.stack.take (m.stack.size + (slots + 2)))[place]? =
        (opened m entry slots values saved).stack[place]? := by
    intro place below
    rw [Array.take_eq_extract, Array.getElem?_extract, if_pos, Nat.zero_add,
      kept.cells place (.inl below)]
    have := kept.size
    rw [size_opened enough] at this
    omega
  have fetchRet : m'.code[m'.pc + 1 + 1]? = some .ret := by
    rw [mirrors.code]
    obtain ⟨⟨resolved, found, stands⟩, _⟩ := (Assembly.placed_cons rfl).mp placedRet
    cases found
    exact stands
  have left := @leave_opened slots entry values saved m { m' with
    stack := m'.stack.take (m.stack.size + (slots + 2)), registers, pc := m'.pc + 1 + 1 }
    enough addressable inCode outer.frame kept.framePtr size cells
  have stepRet : Machine.step { m' with
        stack := m'.stack.take (m.stack.size + (slots + 2)), registers, pc := m'.pc + 1 + 1 } =
      ({ m' with stack := m.stack, framePtr := m.framePtr, pc := m.pc + 1, registers }, none) := by
    exact Machine.step_of_leave fetchRet left
  refine Agrees.fewer (Agrees.step mirrors.running fetchRet trivial (fun _ => stepRet)
    fun _ => Agrees.of_goal ⟨vars, registers, ?_, ?_, ?_⟩) (Nat.le_succ count)
  · simp only [Machine.mk.injEq]
    exact ⟨mirrors.code.trans outer.code.symm, mirrors.pool.trans outer.pool.symm, trivial, trivial,
      trivial, trivial, mirrors.heap.trans heap.symm, kept.output,
      mirrors.running.trans outer.running.symm⟩
  · have notSaved : resultReg ∉ saved := by
      rw [covers]
      simp only [resultReg]
      omega
    rw [reads, if_neg notSaved]
    exact read_write_next ..
  · intro reg other
    rw [reads]
    split
    · rfl
    next outside =>
      rw [covers] at outside
      simp only [Machine.next, Machine.write, Registers.read_write]
      rw [if_neg (Ne.symm other), kept.registers reg other (by omega)]
      rfl

end Frames

/-- A function of the program: its frame has slots for its parameters and then its variables, and
its body uses no variable before it has a value. -/
structure Image.Function (image : Image) (owner : Nat) (params : List (Node Tag)) (body : Node Tag)
    (locals : Locals) : Prop where
  frame : image.Frame owner locals
  ids : locals.ids = params.map Node.id ++ Scoping.declared body
  inside : body.preorder ⊆ image.nodes
  inScope : Scoping.InScope image.binding locals.ids (params.map Node.id) body

/-- The code and the pool of a program fit its tree. -/
structure Image.WellFormed (image : Image) : Prop where
  literals : image.HoldsLiterals
  functions : ∀ tag name params body type, .define tag name params body type ∈ image.nodes →
    ∃ locals, image.Function tag.id params body locals
  placed : ∀ tag name params body type, .define tag name params body type ∈ image.nodes →
    ∃ (env : Lowering.Env) (s : Lowering.Supply) (reg : Nat) (code : List Instruction)
      (s' : Lowering.Supply) (pc : Nat), env.nodes = image.nodes ∧
      env.annotations = image.annotations ∧ 1 ≤ s.register ∧
      visit env (.define tag name params body type) s = .ok reg code s' ∧
      Placed image.table image.code pc code

/-- How an evaluation with a bound treats calls. -/
def invocation (env : Evaluation.Env) :
    Nat → List (Node Tag) → Node Tag → List Value → Eval Value
  | 0 => fun _ _ _ => throw .timeout
  | fuel + 1 => activate (evaluate env fuel)

theorem evaluate_eq (env : Evaluation.Env) (fuel : Nat) (node : Node Tag) :
    evaluate env fuel node = eval env fuel (invocation env fuel) node := by
  cases fuel <;> rfl

theorem activate_eq (f : Node Tag → Eval Value) (params : List (Node Tag)) (body : Node Tag)
    (args : List Value) (state : State) :
    activate f params body args state =
      (f body >>= fun value callee => .ok value { callee with vars := state.vars })
        { state with vars := parameters params args } := rfl

theorem Image.Function.parameters_eq {image : Image} {locals : Locals} {owner slot id : Nat}
    {params : List (Node Tag)} {body : Node Tag} {values : List Value}
    (function : image.Function owner params body locals) (sameLength : params.length = values.length)
    (found : (params.map Node.id ++ Scoping.declared body)[slot]? = some id) :
    parameters params values id = values[slot]? := by
  refine ScriptVM.parameters_eq sameLength ?_ found
  intro i j id first second
  rw [← function.ids] at first second
  have same := function.frame.indexed i id first
  rw [function.frame.indexed j id second] at same
  exact (Option.some.inj same).symm

/-- What happens in the frame of a call is what the body evaluates to in a fresh activation. -/
theorem mirrors_opened {image : Image} {locals outer : Locals} {owner entry : Nat}
    {params : List (Node Tag)} {body : Node Tag} {values : List Value} {saved : List Nat}
    {state : State} {m : Machine} (function : image.Function owner params body locals)
    (sameLength : params.length = values.length) (mirrors : Mirrors image outer state m) :
    Mirrors image locals { state with vars := parameters params values }
      (opened m entry locals.size values saved) := by
  have size : locals.size = params.length + (Scoping.declared body).length := by
    rw [← Locals.length_ids, function.ids]
    simp
  have enough : values.length ≤ locals.size := by omega
  refine ⟨mirrors.code, mirrors.pool, mirrors.running, mirrors.heap, ?_, ?_⟩
  · intro slot id found
    have inside := (List.getElem?_eq_some_iff.mp found).1
    rw [Locals.length_ids] at inside
    rw [function.ids] at found
    have place : (opened m entry locals.size values saved).framePtr + slot + 1 =
        m.stack.size + (slot + 2) := by
      simp only [opened]
      omega
    rw [place, getElem?_opened enough (by omega), if_neg (by omega), Nat.add_sub_cancel_left,
      getElem?_frameCells_slot inside]
    exact congrArg some (function.parameters_eq sameLength found).symm
  · rw [size_opened enough]
    simp only [opened]
    omega

/-- Every function does what its body evaluates to in a fresh activation. The induction is on how
deep calls may be: the body is simulated with the calls of one level less. -/
theorem invokes {image : Image} (wellFormed : image.WellFormed) (fuel : Nat) :
    Invokes image fuel (invocation image.env fuel) := by
  induction fuel with
  | zero =>
    intro locals tag name params body type values regs state m _ _ _ _ _
    refine ⟨?_, ?_, fun _ _ => .zero m⟩
    · rintro _ _ ⟨⟩
    · rintro _ _ ⟨⟩ other
      exact absurd rfl other
  | succ fuel ih =>
    intro outer tag name params body type values regs state m member sameLength mirrors fetch holds
    obtain ⟨locals, function⟩ := wellFormed.functions tag name params body type member
    obtain ⟨env, s, reg, code, s', pc, nodes, annotations, positive, lowered, placed⟩ :=
      wellFormed.placed tag name params body type member
    obtain ⟨entry, locals', last, inner, noted, notedLocals, rfl, loweredBody, rfl⟩ :=
      Lowering.visit_define_ok lowered
    rw [annotations] at noted notedLocals
    have sameLocals : locals' = locals := by
      rw [function.frame.noted] at notedLocals
      exact (Option.some.inj notedLocals).symm
    subst sameLocals
    have toBody : s.register + 1 ≤ s'.register := (given_visit loweredBody).shrinks.registers
    simp only [Lowering.functionCode, placed_append] at placed
    obtain ⟨⟨placedHead, placedInner⟩, placedTail⟩ := placed
    obtain ⟨labelEntry, placedReserve⟩ := placed_tail (placed_tail placedHead rfl) rfl
    obtain ⟨⟨_, rfl', reserved⟩, placedSave⟩ := (Assembly.placed_cons rfl).mp placedReserve
    cases rfl'
    obtain ⟨⟨_, rfl', saved⟩, _⟩ := (Assembly.placed_cons rfl).mp placedSave
    cases rfl'
    have atEntry : image.annotations.entry image.table tag.id = pc + 1 + 1 := by
      simp [Annotations.entry, noted, labelEntry]
    rw [atEntry] at fetch
    have inCode : m.pc < m.code.size := (Array.getElem?_eq_some_iff.mp fetch).1
    have enough : values.length ≤ locals'.size := by
      rw [← Locals.length_ids, function.ids, ← sameLength]
      simp
    have setting : Setting image locals' { env with owner := tag.id, stem := entry } :=
      ⟨nodes, annotations, function.frame⟩
    have stands : Stands image locals' (params.map Node.id) body :=
      ⟨function.inside, fun id member => by simp [function.ids, member], function.inScope⟩
    show Agrees (fuel + 1) _ m (activate (evaluate image.env fuel) params body values state)
    rw [activate_eq, evaluate_eq]
    refine agrees_open mirrors.code mirrors.running fetch holds reserved saved enough
      fun addressable => ?_
    have assigned : ∀ id ∈ params.map Node.id, (parameters params values id).isSome := by
      intro id isParam
      obtain ⟨slot, found⟩ := List.mem_iff_getElem?.mp isParam
      have inside := (List.getElem?_eq_some_iff.mp found).1
      rw [List.length_map, sameLength] at inside
      rw [function.parameters_eq sameLength (by rwa [List.getElem?_append_left (by simpa [sameLength])])]
      simp [inside]
    refine (simulates setting wellFormed.literals ih body stands loweredBody (Nat.le_add_left 1 _)
      placedInner assigned (mirrors_opened function sameLength mirrors)).bind ?_
    intro v inner' m' done
    refine agrees_close enough addressable inCode mirrors done.mirrors done.kept ?_
      (Nat.le_add_left 1 _) done.holds (placedTail.at_pc ?_) rfl rfl
    · intro reg
      simp only [List.mem_range'_1]
      show _ ↔ s.register + 1 ≤ reg ∧ reg < s'.register
      omega
    · rw [done.pc, Assembly.width_append, ← Nat.add_assoc]
      rfl

end ScriptVM
