import ScriptVM.Proofs.Stages

/-!
Programs do what their trees mean.

A program is loaded on a machine without frames, whatever its registers and its heap hold. Its run
does what the tree evaluates to on that heap: it ends with the value in the register of the program
and the heap of the evaluation, or with the fault that the evaluation stops at. In the end the stack
is empty again, and of the registers only three have changed.
-/
namespace ScriptVM

open Assembly (Placed placed_append width)
open Evaluation (State eval)

/-- A program has ended: its value stands in its register, and nothing else has changed but the heap
and two more registers. -/
structure Finished (program : Program) (m : Machine) (value : Value) (state : State)
    (m' : Machine) : Prop where
  done : m'.isDone = true
  result : m'.registers.read program.result = some value
  heap : m'.heap = state.heap
  stack : m'.stack = m.stack
  framePtr : m'.framePtr = m.framePtr
  output : m'.output = m.output
  registers : ∀ reg, reg ≠ resultReg → reg ≠ resultReg + 1 → reg ≠ program.result →
    m'.registers.read reg = m.registers.read reg

/-- Without slots a stretch of instructions leaves the whole stack. -/
theorem Kept.stack_eq {lo hi : Nat} {m m' : Machine} (kept : Kept 0 lo hi m m') :
    m'.stack = m.stack := by
  apply Array.ext_getElem?
  intro place
  exact kept.cells place (by omega)

namespace Program.Stages

variable {typeCheck : Bool} {anonymous source : String} {program : Program}

/-- Where the code of each function starts. -/
def entry (stages : Stages typeCheck anonymous source program) : Nat → Nat :=
  stages.document.annotations.entry (Assembly.labels 0 stages.labelled)

/-- What the program of a source text means on a heap. -/
def meaning (stages : Stages typeCheck anonymous source program) (fuel : Nat) (heap : Heap) :
    EStateM.Result Stop State Value :=
  stages.document.evaluate stages.entry fuel heap

variable (stages : Stages typeCheck anonymous source program)

/-- The whole tree is a function and a call of it, one after the other. -/
theorem meaning_eq (prepared : stages.Prepared) (fuel : Nat) (heap : Heap) :
    stages.meaning fuel heap =
      (eval stages.image.env fuel (invocation stages.image.env fuel)
        (.define prepared.function prepared.name [] (.block prepared.block prepared.body) none) >>=
        fun _ => eval stages.image.env fuel (invocation stages.image.env fuel)
          (.call prepared.call (.leaf prepared.callee (.valueId prepared.name)) [] none))
        ⟨fun _ => none, heap⟩ := by
  show Evaluation.evaluate stages.image.env fuel stages.document.root ⟨fun _ => none, heap⟩ = _
  rw [evaluate_eq, prepared.isRoot, Node.wrapped, eval]
  simp only [Evaluation.evalStatements, Node.isNoop, Bool.false_eq_true, if_false,
    Evaluation.expect, bind_assoc, pure_bind, bind_pure]

/-- A loaded machine without frames, seen from the program. -/
theorem mirrors_load (prepared : stages.Prepared) {m : Machine} (framePtr : m.framePtr = 0) :
    Mirrors stages.image prepared.locals ⟨fun _ => none, m.heap⟩
      (m.load program.code program.pool.values) where
  code := rfl
  pool := rfl
  running := rfl
  heap := rfl
  slots slot id found := by
    rw [prepared.empty] at found
    cases found
  frame := by
    simp [Machine.load, framePtr]

/-- Running a program is evaluating its tree. The function that holds the statements is skipped and
then called, and then the program halts. -/
theorem agrees_load {m : Machine} (framePtr : m.framePtr = 0) (fuel : Nat) :
    Agrees fuel (Finished program (m.load program.code program.pool.values))
      (m.load program.code program.pool.values) (stages.meaning fuel m.heap) := by
  obtain ⟨prepared⟩ := stages.prepared
  obtain ⟨laid⟩ := stages.laid prepared
  have mirrors := stages.mirrors_load prepared framePtr
  have setting : Setting stages.image prepared.locals laid.env := by
    refine ⟨laid.nodes, laid.annotations, ?_, ?_⟩
    · rw [laid.owner]
      exact prepared.noted
    · intro slot id found
      rw [prepared.empty] at found
      cases found
  have placed := stages.placed
  rw [laid.labelled, placed_append, placed_append] at placed
  obtain ⟨⟨placedFunction, placedCall⟩, placedHalt⟩ := placed
  rw [stages.meaning_eq prepared]
  refine (agrees_define setting laid.function placedFunction mirrors).bind ?_
  intro _ state₁ m₁ defined
  have standsCall : Stands stages.image prepared.locals []
      (.call prepared.call (.leaf prepared.callee (.valueId prepared.name)) [] none) := by
    refine ⟨?_, ?_, ?_, trivial⟩
    · intro inner below
      rw [image, prepared.isRoot, Node.wrapped]
      exact Node.preorder_subset_of_child (by simp [Node.children]) below
    · simp [Scoping.declared, Scoping.declaredAll]
    · intro declaration _ isOwn
      rw [prepared.empty] at isOwn
      cases isOwn
  have positive : 1 ≤ laid.middle.register := by
    have := (Lowering.given_visit laid.function).shrinks.registers
    have := laid.register
    omega
  have atCall := placedCall.at_pc defined.pc.symm
  refine (simulates_call setting (invokes stages.wellFormed fuel)
    (fun arg isArg => absurd isArg List.not_mem_nil) standsCall laid.call positive atCall (by simp)
    defined.mirrors).followed ?_
  intro value state m₂ called
  have fetch : m₂.code[m₂.pc]? = some .halt := by
    refine fetch_of_placed called.mirrors.code (placedHalt.at_pc ?_) rfl rfl
    rw [called.pc, defined.pc, Assembly.width_append, Nat.add_assoc]
    rfl
  refine Agrees.execute called.mirrors.running fetch rfl rfl trivial fun _ => Agrees.of_goal ?_
  have noSlots : prepared.locals.size = 0 := by
    rw [← Locals.length_ids, prepared.empty, List.length_nil]
  obtain ⟨_, _, entry, regs, inner, s₁, _, lowered, isResult, isLast, _⟩ :=
    Lowering.visit_call_ok laid.call
  obtain ⟨_, _, sameSupply⟩ := Lowering.visitAll_nil_ok lowered
  have keptCall := called.kept
  have keptFunction := defined.kept
  rw [noSlots] at keptCall keptFunction
  refine ⟨by simp [Machine.isDone, Machine.commit], called.holds, called.mirrors.heap,
    keptCall.stack_eq.trans keptFunction.stack_eq, keptCall.framePtr.trans keptFunction.framePtr,
    keptCall.output.trans keptFunction.output, ?_⟩
  intro reg notResult notHandle notValue
  have registers := laid.register
  have afterCall : laid.last.register = program.result + 1 := by
    rw [isLast, isResult]
    rfl
  have beforeCall : laid.middle.register = program.result := by
    rw [isResult, sameSupply]
  show m₂.registers.read reg = _
  rw [keptCall.registers reg notResult (by omega), keptFunction.registers reg notResult (by omega)]

end Program.Stages

section Runs

variable {program : Program} {m m' : Machine} {value : Value} {state : State} {stop : Stop}
  {fuel : Nat} {outcome : Machine × Option RuntimeError}

/-- What a run ended with is what an evaluation came to: the value in the program's register or the
fault that the evaluation stopped at, and the heap. -/
def Program.Realises (program : Program) :
    Machine × Option RuntimeError → EStateM.Result Stop State Value → Prop
  | (m, none), .ok value state =>
    m.registers.read program.result = some value ∧ m.heap = state.heap
  | (m, some error), .error stop state => stop.causes error.fault ∧ m.heap = state.heap
  | _, _ => False

theorem Finished.run_eq (finished : Finished program m value state m') (fuel : Nat) :
    m'.run fuel = some ({ m' with halted := true }, none) :=
  Machine.run_of_done finished.done fuel

theorem Finished.realises (finished : Finished program m value state m')
    (ended : m'.run fuel = some outcome) : program.Realises outcome (.ok value state) := by
  rw [finished.run_eq] at ended
  cases ended
  exact ⟨finished.result, finished.heap⟩

theorem Faults.realises (faults : Faults stop state m) (ended : m.run fuel = some outcome) :
    program.Realises outcome (.error stop state) := by
  obtain ⟨error, m', fails, causes, heap⟩ := faults
  cases fuel with
  | zero =>
    rw [Machine.run_zero_of_running fails.running] at ended
    cases ended
  | succ fuel =>
    rw [Machine.run_of_fails fails] at ended
    cases ended
    exact ⟨causes, heap⟩

theorem Stop.causes_isOfProgram {fault : Fault} (causes : stop.causes fault) :
    fault.isOfProgram = true := by
  cases stop with
  | value e =>
    cases causes
    rfl
  | alreadyAssigned =>
    obtain ⟨place, rfl⟩ := causes
    rfl
  | stuck | timeout => exact causes.elim

theorem Agrees.sound {count : Nat} {result : EStateM.Result Stop State Value}
    (agrees : Agrees count (Finished program m) m' result) : m'.Sound count := by
  cases result with
  | ok value state =>
    exact (agrees.ok value state rfl).sound fun _ _ finished => .done finished.done
  | error stop state =>
    by_cases bound : stop = .timeout
    · subst bound
      exact (agrees.timeout state rfl).sound
    · refine (agrees.fault stop state rfl bound).sound ?_
      rintro m₁ _ ⟨error, m₂, fails, causes, _⟩
      exact .fails fails (Stop.causes_isOfProgram causes)

/-- A run that ended shows what the evaluation with a larger bound comes to. -/
theorem Agrees.realises_of_run {result : EStateM.Result Stop State Value}
    (agrees : Agrees (fuel + 1) (Finished program m) m' result) (ended : m'.run fuel = some outcome) :
    program.Realises outcome result := by
  cases result with
  | ok value state =>
    obtain ⟨m₁, fuel', finished, same⟩ := (agrees.ok value state rfl).of_run ended
    exact finished.realises same
  | error stop state =>
    by_cases bound : stop = .timeout
    · subst bound
      rw [(agrees.timeout state rfl).run_eq_none] at ended
      cases ended
    · obtain ⟨m₁, fuel', faults, same⟩ := (agrees.fault stop state rfl bound).of_run ended
      exact faults.realises same

/-- An evaluation that comes to an end makes a run that does, unless memory runs out. -/
theorem Agrees.run_of_realises {count : Nat} {result : EStateM.Result Stop State Value}
    (agrees : Agrees count (Finished program m) m' result)
    (ends : ∀ state, result ≠ .error .timeout state) :
    (∃ fuel outcome, m'.run fuel = some outcome ∧ program.Realises outcome result) ∨
      m'.Outgrows := by
  cases result with
  | ok value state =>
    refine (agrees.ok value state rfl).run.imp_left ?_
    rintro ⟨m₁, count, finished, same⟩
    exact ⟨count + 0, _, (same 0).trans (finished.run_eq 0), finished.result, finished.heap⟩
  | error stop state =>
    have bound : stop ≠ .timeout := by
      rintro rfl
      exact ends state rfl
    refine (agrees.fault stop state rfl bound).run.imp_left ?_
    rintro ⟨m₁, count, ⟨error, m₂, fails, causes, heap⟩, same⟩
    exact ⟨count + 1, _, (same 1).trans (Machine.run_of_fails fails 0), causes, heap⟩

end Runs

/-- Compiling is correct. On a machine without frames, whatever its registers and its heap hold, a
run of the program that ends does so as the tree evaluates under some bound on nested calls and
repetitions; and if the tree evaluates to a value or a fault under some bound, a run ends with it,
unless it needs more cells than there are addresses. -/
theorem Program.run_realises_tree {typeCheck : Bool} {anonymous source : String} {program : Program}
    (compiled : Program.ofSource typeCheck anonymous source = .ok program) :
    ∃ stages : Program.Stages typeCheck anonymous source program,
      ∀ m : Machine, m.stack = #[] → m.framePtr = 0 →
        (∀ fuel outcome, (m.load program.code program.pool.values).run fuel = some outcome →
          ∃ bound, program.Realises outcome (stages.meaning bound m.heap)) ∧
        (∀ bound, (∀ state, stages.meaning bound m.heap ≠ .error .timeout state) →
          (∃ fuel outcome, (m.load program.code program.pool.values).run fuel = some outcome ∧
            program.Realises outcome (stages.meaning bound m.heap)) ∨
          (m.load program.code program.pool.values).Outgrows) := by
  obtain ⟨stages⟩ := Program.stages_of_ofSource compiled
  refine ⟨stages, fun m _ framePtr => ⟨?_, ?_⟩⟩
  · intro fuel outcome ended
    exact ⟨fuel + 1, (stages.agrees_load framePtr (fuel + 1)).realises_of_run ended⟩
  · intro bound ends
    exact (stages.agrees_load framePtr bound).run_of_realises ends

/-- A call of a function that adds its argument to itself. -/
theorem Program.run_realises_tree_of_call :
    ∃ (program : Program) (stages : Program.Stages false "main"
        "def twice(n) \x7b n + n \x7d; twice(3)" program) (bound : Nat) (state : State),
      stages.meaning bound (Heap.empty 8) = .ok (.int 6) state := by
  have ends : ((Program.ofSource false "main"
      "def twice(n) \x7b n + n \x7d; twice(3)").toOption.bind fun program =>
        (((Machine.new 8).load program.code program.pool.values).run 40).map fun outcome =>
          (outcome.1.registers.read program.result, outcome.2)) = some (some (.int 6), none) := by
    decide +kernel
  obtain ⟨program, found, ends⟩ := Option.bind_eq_some_iff.mp ends
  obtain ⟨⟨m, error⟩, ended, same⟩ := Option.map_eq_some_iff.mp ends
  obtain ⟨holds, rfl⟩ := Prod.mk.inj same
  have compiled := ok_of_toOption found
  obtain ⟨stages, agrees⟩ := Program.run_realises_tree compiled
  obtain ⟨bound, realises⟩ := (agrees (Machine.new 8) rfl rfl).1 40 (m, none) ended
  refine ⟨program, stages, bound, ?_⟩
  change program.Realises (m, none) (stages.meaning bound (Heap.empty 8)) at realises
  cases result : stages.meaning bound (Heap.empty 8) with
  | ok value state =>
    rw [result] at realises
    rw [realises.1] at holds
    cases holds
    exact ⟨state, rfl⟩
  | error stop state =>
    rw [result] at realises
    exact realises.elim

section Faults

variable {typeCheck : Bool} {anonymous source : String} {program : Program} {m m' : Machine}
  {fuel : Nat}

theorem Program.fault_of_run (compiled : Program.ofSource typeCheck anonymous source = .ok program)
    (framePtr : m.framePtr = 0) {error : RuntimeError}
    (ended : (m.load program.code program.pool.values).run fuel = some (m', some error)) :
    error.fault.isOfProgram = true := by
  obtain ⟨stages⟩ := Program.stages_of_ofSource compiled
  exact (stages.agrees_load framePtr fuel).sound.fault_of_run ended (Nat.le_refl fuel)

/-- A run without a fault has done what finished programs do. -/
theorem Program.finished_of_run
    (compiled : Program.ofSource typeCheck anonymous source = .ok program)
    (framePtr : m.framePtr = 0)
    (ended : (m.load program.code program.pool.values).run fuel = some (m', none)) :
    ∃ value state, Finished program (m.load program.code program.pool.values) value state m' := by
  obtain ⟨stages⟩ := Program.stages_of_ofSource compiled
  have agrees := stages.agrees_load framePtr (fuel + 1)
  have realises := agrees.realises_of_run ended
  cases result : stages.meaning (fuel + 1) m.heap with
  | ok value state =>
    obtain ⟨last, fuel', finished, same⟩ := (agrees.ok value state result).of_run ended
    rw [finished.run_eq] at same
    cases same
    exact ⟨value, state, by simp [Machine.isDone], finished.result, finished.heap, finished.stack,
      finished.framePtr, finished.output, finished.registers⟩
  | error stop state =>
    rw [result] at realises
    exact realises.elim

theorem Fault.of_isOfProgram {fault : Fault} (blame : fault.isOfProgram = true) :
    fault = .value .divisionByZero ∨ (∃ op, fault = .value (.overflow op)) ∨
      (∃ op left right, fault = .value (.unsupported op left right)) ∨
      ∃ place, fault = .alreadyAssigned place := by
  cases fault with
  | value e =>
    cases e with
    | divisionByZero => exact .inl rfl
    | overflow op => exact .inr (.inl ⟨op, rfl⟩)
    | unsupported op left right => exact .inr (.inr (.inl ⟨op, left, right, rfl⟩))
  | alreadyAssigned place => exact .inr (.inr (.inr ⟨place, rfl⟩))
  | _ => cases blame

end Faults

/-- The faults of a compiled program are its own: an operation without a result, or a second value
for a variable that may be given one once. A run without a fault leaves the value of the program in
its register, so evaluating never fails for want of it. -/
theorem Program.faults_only_by_itself {typeCheck : Bool} {anonymous source : String}
    {program : Program} (compiled : Program.ofSource typeCheck anonymous source = .ok program)
    (session : Session) (_stack : session.machine.stack = #[])
    (framePtr : session.machine.framePtr = 0) (fuel : Nat) :
    (∀ m error, (session.machine.load program.code program.pool.values).run fuel =
        some (m, some error) →
      error.fault = .value .divisionByZero ∨ (∃ op, error.fault = .value (.overflow op)) ∨
        (∃ op left right, error.fault = .value (.unsupported op left right)) ∨
        ∃ place, error.fault = .alreadyAssigned place) ∧
    (∀ m, (session.machine.load program.code program.pool.values).run fuel = some (m, none) →
      ∃ value, m.registers.read program.result = some value) ∧
    ∀ pc session', session.execute fuel program ≠
      some (.error (.runtime ⟨pc, .unsetRegister program.result⟩), session') := by
  refine ⟨?_, ?_, ?_⟩
  · intro m error ended
    exact Fault.of_isOfProgram (Program.fault_of_run compiled framePtr ended)
  · intro m ended
    obtain ⟨value, _, finished⟩ := Program.finished_of_run compiled framePtr ended
    exact ⟨value, finished.result⟩
  · intro pc session' executed
    unfold Session.execute at executed
    split at executed
    next => cases executed
    next m error ended =>
      cases executed
      have blame := Program.fault_of_run compiled framePtr ended
      cases blame
    next m ended =>
      obtain ⟨value, _, finished⟩ := Program.finished_of_run compiled framePtr ended
      rw [finished.result] at executed
      cases executed

/-- A division by zero after a branch, on a machine that an earlier fault left with values in both of
the registers from which the branch takes its own. -/
theorem Program.faults_only_by_itself_of_division :
    ∃ stale program m error,
      [3, 4].map stale.machine.registers.read = [some (.int 6), some (.int 0)] ∧
      Instruction.phi 5 3 4 ∈ program.code ∧
      Program.ofSource false "main" "(if true \x7b 1 \x7d else \x7b 2 \x7d) / 0" = .ok program ∧
      (stale.machine.load program.code program.pool.values).run 20 = some (m, some error) ∧
      (error.fault = .value .divisionByZero ∨ (∃ op, error.fault = .value (.overflow op)) ∨
        (∃ op left right, error.fault = .value (.unsupported op left right)) ∨
        ∃ place, error.fault = .alreadyAssigned place) ∧
      error.fault = .value .divisionByZero ∧
      ∀ fuel pc session', Session.execute fuel stale program ≠
        some (.error (.runtime ⟨pc, .unsetRegister program.result⟩), session') := by
  have ends : ((Session.new 8 false).evaluate 40
      "def share(n) \x7b 6 / n \x7d; share(0)").bind (fun (_, stale) =>
        (Program.ofSource false "main"
          "(if true \x7b 1 \x7d else \x7b 2 \x7d) / 0").toOption.bind fun program =>
        ((stale.machine.load program.code program.pool.values).run 20).map fun outcome =>
          ([stale.machine.stack.size, stale.machine.framePtr],
            [3, 4].map stale.machine.registers.read, program.code.contains (.phi 5 3 4),
            outcome.2.map (·.fault))) =
      some ([0, 0], [some (.int 6), some (.int 0)], true, some (.value .divisionByZero)) := by
    decide +kernel
  obtain ⟨⟨_, stale⟩, _, ends⟩ := Option.bind_eq_some_iff.mp ends
  obtain ⟨program, found, ends⟩ := Option.bind_eq_some_iff.mp ends
  obtain ⟨⟨m, error?⟩, ended, facts⟩ := Option.map_eq_some_iff.mp ends
  simp only [Prod.mk.injEq, List.cons.injEq, Option.map_eq_some_iff] at facts
  obtain ⟨⟨stack, framePtr, _⟩, held, phi, error, rfl, fault⟩ := facts
  have compiled := ok_of_toOption found
  have holds :=
    Program.faults_only_by_itself compiled stale (Array.size_eq_zero_iff.mp stack) framePtr
  exact ⟨stale, program, m, error, held, List.contains_iff_mem.mp phi, compiled,
    ended, (holds 20).1 m error ended, fault, fun fuel => (holds fuel).2.2⟩

end ScriptVM
