import ScriptVM.Proofs.Correctness

/-!
What holds between the calls of a session.

A session starts with a new machine and is given texts to read or to evaluate. Between two calls
there are no frames: a program that ends leaves none, and those of a program that faults are
dropped. So every program of a session starts on a machine without frames.
-/
namespace ScriptVM.Session

/-- One call: a text is read only, or evaluated to an end. -/
inductive Call : Session → Session → Prop
  | compile (session : Session) (source : String) : Call session (session.compile source).2
  | evaluate {session session' : Session} {fuel : Nat} {source : String}
      {result : Except Error Value}
      (ended : session.evaluate fuel source = some (result, session')) : Call session session'

/-- The sessions that calls lead to. -/
inductive Reached : Session → Prop
  | new (heapCells : Nat) (typeCheck : Bool) : Reached (.new heapCells typeCheck)
  | call {session session' : Session} (before : Reached session) (called : Call session session') :
      Reached session'

/-- There are no frames. -/
structure Balanced (session : Session) : Prop where
  stack : session.machine.stack = #[]
  framePtr : session.machine.framePtr = 0

variable {session session' : Session} {fuel : Nat} {source : String} {result : Except Error Value}

@[simp] theorem machine_afterReading (session : Session) (source : String) :
    (session.afterReading source).machine = session.machine := by
  unfold afterReading
  split <;> rfl

/-- How an evaluation ends: the text is refused before anything is executed, its program faults, or
its program ends and leaves a value. -/
theorem evaluate_cases (framePtr : session.machine.framePtr = 0)
    (ended : session.evaluate fuel source = some (result, session')) :
    (∃ error, (session.compile source).1 = .error error ∧ result = .error error ∧
      session' = session.afterReading source) ∨
    ∃ program, (session.compile source).1 = .ok program ∧
      ((∃ m error, (session.machine.load program.code program.pool.values).run fuel =
          some (m, some error) ∧ result = .error (.runtime error) ∧
          session' = { session.afterReading source with machine := m.unwind }) ∨
        ∃ m value state, (session.machine.load program.code program.pool.values).run fuel =
          some (m, none) ∧ result = .ok value ∧
          Finished program (session.machine.load program.code program.pool.values) value state m ∧
          session' = { session.afterReading source with machine := m }) := by
  unfold evaluate at ended
  cases compiled : session.compile source with
  | mk outcome after =>
    have isAfter : after = session.afterReading source := (congrArg Prod.snd compiled).symm
    subst isAfter
    rw [compiled] at ended
    cases outcome with
    | error error =>
      cases ended
      exact .inl ⟨error, rfl, rfl, rfl⟩
    | ok program =>
      refine .inr ⟨program, rfl, ?_⟩
      simp only [execute, machine_afterReading] at ended
      split at ended
      next => cases ended
      next m error run =>
        cases ended
        exact .inl ⟨m, error, run, rfl, rfl⟩
      next m run =>
        obtain ⟨value, state, finished⟩ :=
          Program.finished_of_run (congrArg Prod.fst compiled) framePtr run
        rw [finished.result] at ended
        cases ended
        exact .inr ⟨m, value, state, run, rfl, finished, rfl⟩

theorem Balanced.call (balanced : session.Balanced) (called : Call session session') :
    session'.Balanced := by
  cases called with
  | compile source =>
    exact ⟨(congrArg Machine.stack (machine_afterReading session source)).trans balanced.stack,
      (congrArg Machine.framePtr (machine_afterReading session source)).trans balanced.framePtr⟩
  | evaluate ended =>
    rcases evaluate_cases balanced.framePtr ended with ⟨error, _, _, rfl⟩ |
      ⟨program, _, ⟨m, error, _, _, rfl⟩ | ⟨m, value, state, _, _, finished, rfl⟩⟩
    · exact ⟨by simpa using balanced.stack, by simpa using balanced.framePtr⟩
    · exact ⟨rfl, rfl⟩
    · exact ⟨finished.stack.trans balanced.stack, finished.framePtr.trans balanced.framePtr⟩

theorem Reached.balanced (reached : session.Reached) : session.Balanced := by
  induction reached with
  | new heapCells typeCheck => exact ⟨rfl, rfl⟩
  | call _ called ih => exact ih.call called

/-- After every call of a session there are no frames. An evaluation that gives a value leaves all
registers but three as they were, written or not; one that fails before anything is executed leaves
the whole machine. -/
theorem keeps_frames_and_registers (reached : session.Reached) :
    (session.machine.stack = #[] ∧ session.machine.framePtr = 0) ∧
    (∀ fuel source value session', session.evaluate fuel source = some (.ok value, session') →
      ∃ program, (session.compile source).1 = .ok program ∧
        ∀ reg, reg ≠ 0 → reg ≠ 1 → reg ≠ program.result →
          session'.machine.registers.read reg = session.machine.registers.read reg) ∧
    ∀ fuel source error, (session.compile source).1 = .error error →
      ∃ session', session.evaluate fuel source = some (.error error, session') ∧
        session'.machine = session.machine := by
  have balanced := reached.balanced
  refine ⟨⟨balanced.stack, balanced.framePtr⟩, ?_, ?_⟩
  · intro fuel source value session' ended
    rcases evaluate_cases balanced.framePtr ended with ⟨error, _, impossible, _⟩ |
      ⟨program, compiled, ⟨m, error, _, impossible, _⟩ | ⟨m, _, state, _, _, finished, rfl⟩⟩
    · cases impossible
    · cases impossible
    · exact ⟨program, compiled, fun reg notResult notHandle notValue =>
        finished.registers reg notResult notHandle notValue⟩
  · intro fuel source error refused
    refine ⟨session.afterReading source, ?_, machine_afterReading session source⟩
    unfold evaluate
    cases compiled : session.compile source with
    | mk outcome after =>
      rw [compiled] at refused
      dsimp only at refused
      subst refused
      rw [show after = session.afterReading source from (congrArg Prod.snd compiled).symm]

/-- Two texts evaluated one after the other, and a third that is refused. The register in which the
first left its value is none of those that the second may change. -/
theorem keeps_frames_and_registers_of_new :
    ∃ first second third error,
      (new 8 false).evaluate 40 "def twice(n) \x7b n + n \x7d; twice(3)" =
        some (.ok (.int 6), first) ∧
      first.evaluate 40 "1 + 2" = some (.ok (.int 3), second) ∧
      second.machine.stack = #[] ∧ second.machine.framePtr = 0 ∧
      second.machine.registers.read 8 = first.machine.registers.read 8 ∧
      first.machine.registers.read 8 = some (.int 6) ∧
      second.evaluate 40 "1 +" = some (.error error, third) ∧ third.machine = second.machine := by
  have ends : ((new 8 false).evaluate 40 "def twice(n) \x7b n + n \x7d; twice(3)").bind
      (fun (value, first) => (first.evaluate 40 "1 + 2").map fun (value', second) =>
        (value.toOption, value'.toOption, first.machine.registers.read 8,
          (first.compile "1 + 2").1.toOption.map (·.result),
          (second.compile "1 +").1.toOption.isNone)) =
      some (some (.int 6), some (.int 3), some (.int 6), some 5, true) := by
    decide +kernel
  obtain ⟨⟨value, first⟩, ended, ends⟩ := Option.bind_eq_some_iff.mp ends
  obtain ⟨⟨value', second⟩, ended', facts⟩ := Option.map_eq_some_iff.mp ends
  simp only [Prod.mk.injEq] at facts
  obtain ⟨isSix, isThree, held, result, refused⟩ := facts
  cases ok_of_toOption isSix
  cases ok_of_toOption isThree
  have reached : first.Reached := .call (.new 8 false) (.evaluate ended)
  obtain ⟨program, compiled, kept⟩ := (keeps_frames_and_registers reached).2.1 40 _ _ _ ended'
  rw [compiled] at result
  have isFifth : program.result = 5 := Option.some.inj result
  have holds := keeps_frames_and_registers (reached.call (.evaluate ended'))
  cases outcome : (second.compile "1 +").1 with
  | ok program =>
    rw [outcome] at refused
    cases refused
  | error error =>
    obtain ⟨third, failed, same⟩ := holds.2.2 40 _ error outcome
    exact ⟨first, second, third, error, ended, ended', holds.1.1, holds.1.2,
      kept 8 (by decide) (by decide) (by rw [isFifth]; decide), held, failed, same⟩

end ScriptVM.Session
