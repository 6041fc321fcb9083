import ScriptVM.Proofs.Addressable
import ScriptVM.Proofs.Renamed

/-!
What a session did before does not show in what it does next.

Earlier calls leave registers, cells of the heap and numbers for modules without a name. A text gets
the same program under every name that it does not use, and a program shows nothing of the registers
and of what the cells hold. It may show how many cells there are, because a tuple or a list is known
by its address.
-/
namespace ScriptVM

/-- A text that uses none of the names that modules without a name are given. -/
def SparesModuleNames (source : String) : Prop :=
  ∀ token ∈ Token.tokenize source, ∀ n,
    token.kind ≠ .valueId (FreshNames.anonymousName "module" n)

/-- A text without tuples and lists. -/
def WithoutAggregates (source : String) : Prop :=
  ∀ anonymous parsed, Document.parse anonymous source = .ok parsed → parsed.root.AggregateFree

namespace Machine

variable {m₀ m : Machine}

/-- A machine without frames that has written no register is below every machine without frames. -/
theorem below_load (code : List Instruction) (pool : Array Value) (blank : m₀.registers = {})
    (stack₀ : m₀.stack = #[]) (framePtr₀ : m₀.framePtr = 0) (stack : m.stack = #[])
    (framePtr : m.framePtr = 0) : Below (m₀.load code pool) (m.load code pool) where
  code := rfl
  pool := rfl
  pc := rfl
  framePtr := framePtr.trans framePtr₀.symm
  halted := rfl
  registers reg value written := by
    simp [load, blank, Registers.read] at written
  size := by simp [load, stack, stack₀]
  cells place value written := by
    simp [load, stack₀] at written

end Machine

theorem Lowering.sparesHeap_of_emitted {instruction : Instruction}
    (emitted : Emitted False instruction) : Machine.sparesHeap instruction = true := by
  cases instruction with
  | newChunk | storeHeapAt => cases emitted
  | _ => rfl

/-- Wrapping adds no tuples and lists. -/
theorem Document.aggregateFree_wrapping (tag : Tag) (name : String) (next : Nat)
    {body : List (Node Tag)} (free : Node.ShapedAll ⟨fun _ => True, False⟩ true body) :
    ((wrapping tag next body).tree name).AggregateFree := by
  have freeBody := shaped_wrapping tag next free
  intro inner inside
  rcases Node.mem_preorder.mp inside with rfl | ⟨child, isChild, below⟩
  · rfl
  · have shaped := Node.shapedAll_iff.mp
      (Program.Stages.shaped_wrapped freeBody trivial) child isChild
    exact shaped.aggregateFree not_false inner below

/-- Without tuples and lists in its text a program leaves the heap alone. -/
theorem Program.sparesHeap_of_ofSource {typeCheck : Bool} {anonymous source : String}
    {program : Program} (compiled : Program.ofSource typeCheck anonymous source = .ok program)
    (free : WithoutAggregates source) :
    ∀ instruction ∈ program.code, Machine.sparesHeap instruction = true := by
  obtain ⟨stages⟩ := Program.stages_of_ofSource compiled
  obtain ⟨tag, name, body, next, isParsed, shaped, isRoot⟩ :=
    Program.Stages.root_of_analyse stages.parse stages.analyse
  have freeParsed := free anonymous stages.parsed stages.parse
  rw [isParsed] at freeParsed
  have freeBody : Node.ShapedAll ⟨fun _ => True, False⟩ true body := by
    rw [Node.shapedAll_iff] at shaped ⊢
    exact fun node member => (shaped node member).without_aggregates (freeParsed.child member)
  have freeRoot : stages.collected.root.AggregateFree := by
    rw [(Document.literals_of_collectConstants stages.collect).1, isRoot]
    exact Document.aggregateFree_wrapping tag name next freeBody
  have emitted := @Document.emitted_of_compile False _ _ _ (.inl freeRoot) stages.compile
  intro instruction member
  obtain ⟨original, isOriginal, _, resolved⟩ :=
    Assembly.mem_of_resolveAll (Assembly.resolveAll_of_assemble stages.assemble) member
  rw [Assembly.sparesHeap_of_resolve resolved]
  exact Lowering.sparesHeap_of_emitted (emitted original isOriginal)

namespace Session

variable {one two session₀ session : Session} {source : String} {program : Program}

/-- What evaluating a text gives, if it takes no more than `fuel` steps. -/
def outcome (session : Session) (fuel : Nat) (source : String) : Option (Except Error Value) :=
  (session.evaluate fuel source).map Prod.fst

theorem compile_eq (check : one.typeCheck = two.typeCheck) (spares : SparesModuleNames source) :
    (one.compile source).1 = (two.compile source).1 := by
  show Program.ofSource one.typeCheck one.anonymousName source =
    Program.ofSource two.typeCheck two.anonymousName source
  rw [check]
  refine Program.ofSource_eq_of_unused two.typeCheck ?_
  intro token member name isName
  constructor
  · rintro rfl
    exact spares token member one.names.next isName
  · rintro rfl
    exact spares token member two.names.next isName

/-- A session without frames gives the same outcome as one that has written less. -/
theorem execute_eq_of_below {anonymous : String} {check : Bool}
    (compiled : Program.ofSource check anonymous source = .ok program)
    (framePtr₀ : session₀.machine.framePtr = 0) (framePtr : session.machine.framePtr = 0)
    (below : Machine.Below (session₀.machine.load program.code program.pool.values)
      (session.machine.load program.code program.pool.values))
    (level : Machine.Level (session₀.machine.load program.code program.pool.values)
      (session.machine.load program.code program.pool.values)) (fuel : Nat) :
    (session.execute fuel program).map Prod.fst =
      (session₀.execute fuel program).map Prod.fst := by
  obtain ⟨stages⟩ := Program.stages_of_ofSource compiled
  have same := below.run level (stages.agrees_load framePtr₀ fuel).sound
    (stages.agrees_load framePtr fuel).sound
  unfold execute
  generalize run₀ : (session₀.machine.load program.code program.pool.values).run fuel = ended₀,
    run : (session.machine.load program.code program.pool.values).run fuel = ended at same
  cases same with
  | none => rfl
  | @some ended₀ ended same =>
    obtain ⟨m₀, error₀⟩ := ended₀
    obtain ⟨m, error⟩ := ended
    obtain ⟨rfl, kept⟩ := same
    cases error with
    | some error => rfl
    | none =>
      obtain ⟨value, _, finished⟩ := Program.finished_of_run compiled framePtr₀ run₀
      have written := (kept rfl).registers program.result value finished.result
      simp only [finished.result, written, Option.map_some]

/-- Two sessions without frames give a program the same outcome, if they have as many cells or the
program leaves the heap alone. Both are compared with the first machine before it wrote any
register. -/
theorem execute_eq {anonymous : String} {check : Bool}
    (compiled : Program.ofSource check anonymous source = .ok program) (balanced₁ : one.Balanced)
    (balanced₂ : two.Balanced)
    (level : one.machine.heap.top = two.machine.heap.top ∨
      (∀ instruction ∈ program.code, Machine.sparesHeap instruction = true) ∧
        one.machine.heap.top < Machine.addressLimit ∧
        two.machine.heap.top < Machine.addressLimit) (fuel : Nat) :
    (one.execute fuel program).map Prod.fst = (two.execute fuel program).map Prod.fst := by
  let blank : Session := { one with machine := { one.machine with registers := {} } }
  have stack₀ : blank.machine.stack = #[] := balanced₁.stack
  have framePtr₀ : blank.machine.framePtr = 0 := balanced₁.framePtr
  have toOne : (one.execute fuel program).map Prod.fst = (blank.execute fuel program).map Prod.fst :=
    execute_eq_of_below compiled framePtr₀ balanced₁.framePtr
      (Machine.below_load _ _ rfl stack₀ framePtr₀ balanced₁.stack balanced₁.framePtr) (.inl rfl) fuel
  have toTwo : (two.execute fuel program).map Prod.fst = (blank.execute fuel program).map Prod.fst := by
    refine execute_eq_of_below compiled framePtr₀ balanced₂.framePtr
      (Machine.below_load _ _ rfl stack₀ framePtr₀ balanced₂.stack balanced₂.framePtr) ?_ fuel
    rcases level with same | ⟨spares, small₁, small₂⟩
    · exact .inl same.symm
    · exact .inr ⟨by simpa [Machine.load] using spares, small₁, small₂⟩
  exact toOne.trans toTwo.symm

theorem balanced_afterReading (balanced : session.Balanced) (source : String) :
    (session.afterReading source).Balanced :=
  ⟨by simpa using balanced.stack, by simpa using balanced.framePtr⟩

/-- The outcome of a text is that of its program. -/
theorem outcome_eq (balanced₁ : one.Balanced) (balanced₂ : two.Balanced)
    (check : one.typeCheck = two.typeCheck) (spares : SparesModuleNames source)
    (level : one.machine.heap.top = two.machine.heap.top ∨
      WithoutAggregates source ∧ one.machine.heap.top < Machine.addressLimit ∧
        two.machine.heap.top < Machine.addressLimit) (fuel : Nat) :
    one.outcome fuel source = two.outcome fuel source := by
  have same := compile_eq check spares
  unfold outcome evaluate
  cases compiled₁ : one.compile source with
  | mk result₁ after₁ =>
    cases compiled₂ : two.compile source with
    | mk result₂ after₂ =>
      have isAfter₁ : after₁ = one.afterReading source := (congrArg Prod.snd compiled₁).symm
      have isAfter₂ : after₂ = two.afterReading source := (congrArg Prod.snd compiled₂).symm
      rw [compiled₁, compiled₂] at same
      dsimp only at same
      subst isAfter₁ isAfter₂ same
      cases result₁ with
      | error error => rfl
      | ok program =>
        have compiled : Program.ofSource one.typeCheck one.anonymousName source = .ok program :=
          congrArg Prod.fst compiled₁
        refine execute_eq compiled (balanced_afterReading balanced₁ source)
          (balanced_afterReading balanced₂ source) ?_ fuel
        simp only [machine_afterReading]
        exact level.imp_right fun ⟨free, small⟩ =>
          ⟨Program.sparesHeap_of_ofSource compiled free, small⟩

/-- Sessions are isolated from what they did before. In two sessions that check types alike, whatever
calls led to them, a text that uses no name of a module without a name has the same outcome if their
heaps have as many cells. Without tuples and lists it has the outcome that it has in a new session,
whatever the heaps are. -/
theorem outcome_hides_history (reached₁ : one.Reached) (reached₂ : two.Reached)
    (check : one.typeCheck = two.typeCheck) (spares : SparesModuleNames source) :
    (one.machine.heap.top = two.machine.heap.top →
      ∀ fuel, one.outcome fuel source = two.outcome fuel source) ∧
    (WithoutAggregates source → ∀ fuel heapCells,
      one.outcome fuel source = (new heapCells one.typeCheck).outcome fuel source ∧
        two.outcome fuel source = (new heapCells one.typeCheck).outcome fuel source) := by
  refine ⟨fun same fuel =>
    outcome_eq reached₁.balanced reached₂.balanced check spares (.inl same) fuel, ?_⟩
  intro free fuel heapCells
  have fresh : (new heapCells one.typeCheck).Reached := .new heapCells one.typeCheck
  exact ⟨outcome_eq reached₁.balanced fresh.balanced rfl spares
      (.inr ⟨free, reached₁.top_lt, fresh.top_lt⟩) fuel,
    outcome_eq reached₂.balanced fresh.balanced check.symm spares
      (.inr ⟨free, reached₂.top_lt, fresh.top_lt⟩) fuel⟩

/-- After a program that made a pair and then divided by zero, and after another pair. -/
theorem outcome_hides_history_of_fault :
    ∃ one two : Session,
      ((new 8 false).evaluate 80 "val t = (1, 2); 1 / 0").map Prod.snd = some one ∧
      ((new 8 false).evaluate 80 "(3, 4)").map Prod.snd = some two ∧
      one.machine ≠ two.machine ∧
      ∀ fuel, one.outcome fuel "(5, 6)" = two.outcome fuel "(5, 6)" := by
  have faults : ((new 8 false).evaluate 80 "val t = (1, 2); 1 / 0").map
      (fun ended => (ended.2.machine.heap.cells.toList, ended.2.typeCheck)) =
        some ([some (.int 1), some (.int 2)], false) := by
    decide +kernel
  have ends : ((new 8 false).evaluate 80 "(3, 4)").map
      (fun ended => (ended.2.machine.heap.cells.toList, ended.2.typeCheck)) =
        some ([some (.int 3), some (.int 4)], false) := by
    decide +kernel
  have spares : SparesModuleNames "(5, 6)" := by
    have kinds : (Token.tokenize "(5, 6)").map Token.kind = [.opening .round, .int "5", .comma,
        .int "6", .closing .round, .eof] := by
      decide +kernel
    intro token member n isName
    have among := List.mem_map_of_mem (f := Token.kind) member
    rw [kinds, isName] at among
    simp at among
  obtain ⟨⟨_, one⟩, ended₁, cells₁⟩ := Option.map_eq_some_iff.mp faults
  obtain ⟨⟨_, two⟩, ended₂, cells₂⟩ := Option.map_eq_some_iff.mp ends
  obtain ⟨cells₁, check₁⟩ := Prod.mk.inj cells₁
  obtain ⟨cells₂, check₂⟩ := Prod.mk.inj cells₂
  refine ⟨one, two, by rw [ended₁]; rfl, by rw [ended₂]; rfl, ?_, ?_⟩
  · intro same
    rw [same, cells₂] at cells₁
    revert cells₁
    decide
  · refine (outcome_hides_history (.call (.new 8 false) (.evaluate ended₁))
      (.call (.new 8 false) (.evaluate ended₂)) (check₁.trans check₂.symm) spares).1 ?_
    rw [← Heap.size_cells, ← Heap.size_cells, ← Array.length_toList, cells₁, ← Array.length_toList, cells₂]
    rfl

end Session

end ScriptVM
