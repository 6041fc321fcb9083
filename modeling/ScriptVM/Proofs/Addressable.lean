import ScriptVM.Proofs.Emitted
import ScriptVM.Proofs.Sessions

/-!
A run that ended has addresses for all cells of its heap.

Every step is taken on a machine whose cells have addresses. Only an allocation hands out cells, and
it goes on with the next instruction. A program ends with an instruction that is no allocation, so
after an allocation there is always one more step.
-/
namespace ScriptVM

namespace Machine

variable {m m' : Machine}

/-- A committed effect leaves the number of cells, or hands out some and goes on with the next
instruction. -/
theorem top_commit_cases (m : Machine) (effect : Effect) :
    (m.commit effect).heap.top = m.heap.top ∨
      effect ≠ .halt ∧ (m.commit effect).pc = m.pc + 1 ∧
        (m.commit effect).halted = m.halted ∧ (m.commit effect).code = m.code := by
  cases effect with
  | allocate dst size => exact .inr ⟨nofun, rfl, rfl, rfl⟩
  | allocateSymbol dst text => exact .inr ⟨nofun, rfl, rfl, rfl⟩
  | storeHeap address value => exact .inl (by simp [commit, next])
  | _ => exact .inl rfl

/-- A step leaves the number of cells, or goes on with the next instruction and is not the last
one. -/
theorem top_step_cases (m : Machine) :
    m.step.1.heap.top = m.heap.top ∨
      m.code[m.pc]? ≠ some .halt ∧ m.step.1.pc = m.pc + 1 ∧ m.step.1.halted = m.halted ∧
        m.step.1.code = m.code ∧ m.step.2 = none := by
  rcases step_cases m with ⟨m', stepped, steps⟩ | ⟨fault, last, stepped, faults⟩
  · rw [stepped]
    cases steps with
    | outside => exact .inl rfl
    | @commits instruction effect fetch planned plan =>
      refine (top_commit_cases m effect).imp_right ?_
      rintro ⟨notHalt, pc, halted, code⟩
      refine ⟨?_, pc, halted, code, rfl⟩
      intro isHalt
      cases fetch.symm.trans isHalt
      cases plan
      exact notHalt rfl
    | restores _ restored =>
      obtain ⟨_, _, rfl, _⟩ := restore_keeps restored
      exact .inl rfl
    | leaves _ left =>
      obtain ⟨_, _, _, rfl, _⟩ := leave_keeps left
      exact .inl rfl
  · rw [stepped]
    obtain ⟨_, _, rfl⟩ := faults.keeps
    exact .inl rfl

theorem code_step (m : Machine) : m.step.1.code = m.code := by
  rcases step_cases m with ⟨m', stepped, steps⟩ | ⟨fault, last, stepped, faults⟩
  · rw [stepped]
    cases steps with
    | outside => rfl
    | commits => exact code_commit ..
    | restores _ restored =>
      obtain ⟨_, _, rfl, _⟩ := restore_keeps restored
      rfl
    | leaves _ left =>
      obtain ⟨_, _, _, rfl, _⟩ := leave_keeps left
      rfl
  · rw [stepped]
    obtain ⟨_, _, rfl⟩ := faults.keeps
    rfl

/-- A run that ends leaves no more cells than there are addresses, if the code ends with the
instruction that stops the machine. The invariant is that a machine whose heap has outgrown its
addresses is not done. -/
theorem top_lt_of_run {fuel : Nat} {error : Option RuntimeError}
    (last : m.code[m.code.size - 1]? = some .halt)
    (fits : m.isDone = true → m.heap.top < addressLimit)
    (ended : m.run fuel = some (m', error)) : m'.heap.top < addressLimit := by
  induction fuel generalizing m with
  | zero =>
    unfold run at ended
    split at ended
    next done =>
      cases ended
      exact fits done
    next => cases ended
  | succ fuel ih =>
    unfold run at ended
    split at ended
    next done =>
      cases ended
      exact fits done
    next running =>
      split at ended
      next addressable =>
        have small := (isAddressable_iff.mp addressable).2.2.1
        have cases := top_step_cases m
        have code := code_step m
        cases stepped : m.step with
        | mk m₁ fault =>
          rw [stepped] at ended cases code
          dsimp only at cases code
          cases fault with
          | some error =>
            simp only [Option.some.injEq, Prod.mk.injEq] at ended
            obtain ⟨rfl, _⟩ := ended
            rcases cases with same | ⟨_, _, _, _, impossible⟩
            · rwa [same]
            · cases impossible
          | none =>
            refine ih (by rw [code, last]) ?_ ended
            intro done
            rcases cases with same | ⟨notHalt, pc, halted, _, _⟩
            · rwa [same]
            · have inside : m.pc < m.code.size := by
                simp only [isDone, Bool.or_eq_true, decide_eq_true_eq, not_or] at running
                omega
              have notLast : m.pc ≠ m.code.size - 1 := by
                intro isLast
                rw [isLast] at notHalt
                exact notHalt last
              have notHalted : m.halted = false := by
                simp only [isDone, Bool.or_eq_true, not_or] at running
                simpa using running.1
              simp only [isDone, halted, notHalted, code, pc, Bool.false_or,
                decide_eq_true_eq] at done
              omega
      next => cases ended

end Machine

/-- The code of a program ends with the instruction that stops the machine. -/
theorem Program.Stages.last_halt {typeCheck : Bool} {anonymous source : String} {program : Program}
    (stages : Program.Stages typeCheck anonymous source program) :
    program.code[program.code.length - 1]? = some .halt := by
  obtain ⟨_, _, _, _, _, locals, code, _, _, _, _, _, isCode, _⟩ :=
    Document.compile_ok stages.compile
  have resolved := Assembly.resolveAll_of_assemble stages.assemble
  have length := Assembly.length_of_resolveAll resolved
  have placed := Assembly.placed_of_assemble stages.assemble
  dsimp only at isCode
  rw [isCode, Assembly.width_snoc _ rfl] at length
  rw [isCode, Assembly.placed_append, ← isCode] at placed
  obtain ⟨⟨_, found, stands⟩, _⟩ := (Assembly.placed_cons rfl).mp placed.2
  cases found
  rw [length, Nat.add_sub_cancel]
  simpa using stands

/-- A program has instructions, so a machine that it is loaded on is not done. -/
theorem Program.Stages.running_load {typeCheck : Bool} {anonymous source : String}
    {program : Program} (stages : Program.Stages typeCheck anonymous source program) (m : Machine) :
    (m.load program.code program.pool.values).isDone = false := by
  have nonempty := (List.getElem?_eq_some_iff.mp stages.last_halt).1
  simp only [Machine.isDone, Machine.load, Bool.false_or, List.size_toArray, Nat.le_zero,
    decide_eq_false_iff_not]
  omega

section Ended

variable {typeCheck : Bool} {anonymous source : String} {program : Program} {m m' : Machine}
  {fuel : Nat} {error : Option RuntimeError}
  (compiled : Program.ofSource typeCheck anonymous source = .ok program)
  (ended : (m.load program.code program.pool.values).run fuel = some (m', error))

include compiled ended

/-- An ended run of a program leaves no more cells than there are addresses. -/
theorem Program.top_lt_of_run : m'.heap.top < Machine.addressLimit := by
  obtain ⟨stages⟩ := Program.stages_of_ofSource compiled
  refine Machine.top_lt_of_run (by simpa [Machine.load] using stages.last_halt) ?_ ended
  intro done
  rw [stages.running_load] at done
  cases done

/-- A program with a run that ended has no more instructions than there are addresses. -/
theorem Program.length_lt_of_run : program.code.length < Machine.addressLimit := by
  obtain ⟨stages⟩ := Program.stages_of_ofSource compiled
  have running := stages.running_load m
  cases fuel with
  | zero =>
    rw [Machine.run_zero_of_running running] at ended
    cases ended
  | succ fuel =>
    unfold Machine.run at ended
    rw [running] at ended
    split at ended
    next impossible => cases impossible
    next =>
      split at ended
      next addressable =>
        simpa [Machine.load] using (Machine.isAddressable_iff.mp addressable).1
      next => cases ended

end Ended

/-- Between the calls of a session every cell of the heap has an address. -/
theorem Session.Reached.top_lt {session : Session} (reached : session.Reached) :
    session.machine.heap.top < Machine.addressLimit := by
  induction reached with
  | new heapCells typeCheck => exact Nat.two_pow_pos 63
  | @call session session' before called ih =>
    cases called with
    | compile source =>
      show (session.afterReading source).machine.heap.top < _
      rwa [Session.machine_afterReading]
    | evaluate ended =>
      rcases Session.evaluate_cases before.balanced.framePtr ended with ⟨_, _, _, rfl⟩ |
        ⟨program, compiled, ⟨m, error, run, _, rfl⟩ | ⟨m, _, _, run, _, _, rfl⟩⟩
      · rwa [Session.machine_afterReading]
      · show m.heap.top < _
        exact Program.top_lt_of_run compiled run
      · show m.heap.top < _
        exact Program.top_lt_of_run compiled run

end ScriptVM
