import ScriptVM.Proofs.Addressable

/-!
A call protects the frames below it, whatever the code is.

A frame begins with the two words that a return needs. While a frame is open, instructions write
above its frame pointer only and take off cells above it only, so these words and all cells below
them stay. This holds of any run in which no state has a lower frame pointer or a stack that ends at
it or below, and no instruction stores to a slot so far up that its place is not a word: such a place
wraps around and may be that of a frame below.
-/
namespace ScriptVM.Machine

variable {m m' : Machine}

/-- What a step without a fault does to the stack and the frame pointer. -/
inductive Shifts (m m' : Machine) : Prop
  /-- Cells are put on top. -/
  | grow (stack : m.stack.toList <+: m'.stack.toList) (frame : m'.framePtr = m.framePtr)
  /-- Cells are taken off the top. -/
  | drop (stack : m'.stack.toList <+: m.stack.toList) (frame : m'.framePtr = m.framePtr)
  /-- A slot of the current frame is written. -/
  | store (src index : Nat) (value : Value)
      (isStore : m.code[m.pc]? = some (.storeSlot src index) ∨
        m.code[m.pc]? = some (.storeOnce src index))
      (stack : m'.stack = m.stack.setIfInBounds (wrap (m.framePtr + index + 1)) (some value))
      (frame : m'.framePtr = m.framePtr)
  /-- A frame is opened. -/
  | call (args : List Value)
      (stack : m'.stack.toList = m.stack.toList ++
        [some (ofAddress m.pc), some (ofAddress m.framePtr)] ++ args.map some)
      (frame : m'.framePtr = m.stack.size + 1)
  /-- The current frame is closed. -/
  | leave (stack : m'.stack.toList <+: m.stack.toList)
      (frame : cellAddress m.stack m.framePtr = .ok m'.framePtr)

theorem Shifts.same (stack : m'.stack = m.stack) (frame : m'.framePtr = m.framePtr) :
    Shifts m m' :=
  .grow ⟨[], by simp [stack]⟩ frame

section Steps

variable {instruction : Instruction}

theorem gotoIf_ok {target : Target} {test : Bool} {effect : Effect}
    (planned : gotoIf instruction target test = .ok effect) :
    effect = .skip ∨ ∃ pc, destination instruction target = .ok pc ∧ effect = .goto pc := by
  unfold gotoIf at planned
  split at planned
  · cases found : destination instruction target with
    | error fault =>
      rw [found] at planned
      cases planned
    | ok pc =>
      rw [found] at planned
      cases planned
      exact .inr ⟨pc, rfl, rfl⟩
  · cases planned
    exact .inl rfl

/-- Two instructions store to the stack, and both to a slot of the current frame. -/
theorem plan_store {place : Nat} {value : Value}
    (planned : m.plan instruction = .ok (.store place value)) :
    ∃ src index, (instruction = .storeSlot src index ∨ instruction = .storeOnce src index) ∧
      place = wrap (m.framePtr + index + 1) := by
  cases instruction with
  | storeSlot src index =>
    simp only [plan, Walks.except_bind_ok] at planned
    obtain ⟨_, _, found, slot, same⟩ := planned
    cases same
    exact ⟨src, index, .inl rfl, (slotPlace_ok slot).1⟩
  | storeOnce src index =>
    simp only [plan, Walks.except_bind_ok] at planned
    obtain ⟨_, _, found, slot, planned⟩ := planned
    have isPlace := (slotPlace_ok slot).1
    split at planned
    · cases planned
      exact ⟨src, index, .inr rfl, isPlace⟩
    · cases planned
      exact ⟨src, index, .inr rfl, isPlace⟩
    · cases planned
  | jump target =>
    cases found : destination (.jump target) target with
    | error fault =>
      simp only [plan, found] at planned
      cases planned
    | ok pc =>
      simp only [plan, found] at planned
      cases planned
  | branchZero | branchNonzero | branch =>
    simp only [plan, Walks.except_bind_ok] at planned
    grind [gotoIf_ok]
  | loadPool | pop | phi | peek =>
    simp only [plan] at planned
    split at planned <;> cases planned
  | loadSlot dst index =>
    simp only [plan, Walks.except_bind_ok] at planned
    obtain ⟨place, found, planned⟩ := planned
    split at planned <;> cases planned
  | _ => simp [plan, Walks.except_bind_ok, pure, Except.pure] at planned

theorem shifts_commit {effect : Effect} (fetch : m.code[m.pc]? = some instruction)
    (planned : m.plan instruction = .ok effect) : Shifts m (m.commit effect) := by
  cases effect with
  | call entry args => exact .call args (by simp [commit]) rfl
  | reserve size =>
    apply Shifts.grow
    · simp only [commit, growStack, next]
      split
      · exact ⟨_, (Array.toList_append ..).symm⟩
      · exact ⟨[], by simp⟩
    · rfl
  | save regs => exact .grow ⟨_, (Array.toList_append ..).symm⟩ rfl
  | store place value =>
    obtain ⟨src, index, isStore, rfl⟩ := plan_store planned
    refine .store src index value ?_ rfl rfl
    rw [fetch]
    simpa using isStore
  | push value => exact .grow ⟨[some value], by simp [commit, next]⟩ rfl
  | pop dst => exact .drop (by simpa [commit, next, write] using List.dropLast_prefix _) rfl
  | _ => exact .same rfl rfl

theorem leave_ok (left : m.leave = (m', none)) :
    m.framePtr ≠ 0 ∧ m.framePtr < m.stack.size ∧
      ∃ returnTo, cellAddress m.stack m.framePtr = .ok m'.framePtr ∧
        cellAddress m.stack (m.framePtr - 1) = .ok returnTo ∧
        m' = { m with
          stack := m.stack.shrink (m.framePtr - 1), framePtr := m'.framePtr, pc := returnTo + 1 } := by
  unfold leave at left
  dsimp only at left
  split at left
  next => cases left
  next inside =>
    rw [not_or, Nat.not_le] at inside
    split at left
    next => cases left
    next caller isCaller =>
      split at left
      next => cases left
      next returnTo isReturn =>
        cases left
        exact ⟨inside.1, inside.2, returnTo, isCaller, isReturn, rfl⟩

theorem shifts_step (stepped : m.step = (m', none)) : Shifts m m' := by
  cases steps_of_step stepped with
  | outside => exact .same rfl rfl
  | commits fetch _ plan => exact shifts_commit fetch plan
  | restores _ restored =>
    obtain ⟨_, _, rfl, shorter⟩ := restore_keeps restored
    exact .drop shorter rfl
  | leaves _ left =>
    obtain ⟨_, _, _, isCaller, _, same⟩ := leave_ok left
    refine .leave ?_ isCaller
    rw [same, Array.toList_shrink]
    exact List.take_prefix _ _

end Steps

section Protection

/-- The cells up to a place are the same. -/
def SameUpTo (place : Nat) (one two : Stack) : Prop :=
  ∀ other ≤ place, two[other]? = one[other]?

theorem sameUpTo_of_start {place : Nat} {one two : Stack} (start : one.toList <+: two.toList)
    (inside : place < one.size) : SameUpTo place one two := by
  intro other le
  rw [← Array.getElem?_toList, ← Array.getElem?_toList]
  obtain ⟨rest, same⟩ := start
  rw [← same, List.getElem?_append_left (by simpa using Nat.lt_of_le_of_lt le inside)]

/-- Where the slot would be that the next instruction stores to, if places had no bound. -/
def storedPlace (m : Machine) : Nat :=
  match m.code[m.pc]? with
  | some (.storeSlot _ index) | some (.storeOnce _ index) => m.framePtr + index + 1
  | _ => 0

theorem storedPlace_of_isStore {src index : Nat}
    (isStore : m.code[m.pc]? = some (.storeSlot src index) ∨
      m.code[m.pc]? = some (.storeOnce src index)) : m.storedPlace = m.framePtr + index + 1 := by
  rcases isStore with fetch | fetch <;> simp only [storedPlace, fetch]

/-- A step above a frame pointer keeps the cells up to it. -/
theorem Shifts.keeps {frame : Nat} (shifts : Shifts m m') (above : frame ≤ m.framePtr)
    (inside : frame < m.stack.size) (inside' : frame < m'.stack.size)
    (isWord : m.storedPlace < wordLimit) : SameUpTo frame m.stack m'.stack := by
  cases shifts with
  | grow stack => exact sameUpTo_of_start stack inside
  | drop stack | leave stack =>
    intro other le
    exact (sameUpTo_of_start stack inside' other le).symm
  | store src index value isStore stack =>
    intro other le
    rw [storedPlace_of_isStore isStore] at isWord
    rw [stack, wrap_of_lt isWord, Array.getElem?_setIfInBounds_ne (by omega)]
  | call args stack =>
    refine sameUpTo_of_start ?_ inside
    rw [stack, List.append_assoc]
    exact List.prefix_append _ _

theorem after_succ (m : Machine) (count : Nat) : m.after (count + 1) = (m.after count).step.1 := by
  induction count generalizing m with
  | zero => rfl
  | succ count ih => exact ih m.step.1

/-- A run above a frame pointer keeps the cells up to it. -/
theorem keeps_after {frame count : Nat} (sound : ∀ i < count, (m.after i).step.2 = none)
    (words : ∀ i < count, (m.after i).storedPlace < wordLimit)
    (above : ∀ i ≤ count, frame ≤ (m.after i).framePtr ∧ frame < (m.after i).stack.size) :
    SameUpTo frame m.stack (m.after count).stack := by
  induction count with
  | zero => exact fun _ _ => rfl
  | succ count ih =>
    have before := ih (fun i less => sound i (by omega)) (fun i less => words i (by omega))
      (fun i le => above i (by omega))
    have stepped : (m.after count).step = (m.after (count + 1), none) := by
      rw [after_succ, ← sound count (by omega)]
    have here := above count (by omega)
    intro other le
    rw [(shifts_step stepped).keeps here.1 here.2 (above (count + 1) (by omega)).2
      (words count (by omega)) other le, before other le]

end Protection

section Words

/-- A machine that was only used as machines are: programs were loaded and run step by step, and its
stack never had more cells than there are addresses. -/
inductive Operated : Machine → Prop
  | new (heapCells : Nat) : Operated (.new heapCells)
  | load {m : Machine} (operated : Operated m) (code : List Instruction) (pool : Array Value) :
      Operated (m.load code pool)
  | unwind {m : Machine} (operated : Operated m) : Operated m.unwind
  | step {m : Machine} (operated : Operated m) (fits : m.step.1.stack.size < addressLimit) :
      Operated m.step.1

theorem addressOf_lt {value : Value} {address : Nat} (found : addressOf value = .ok address) :
    address < addressLimit := by
  cases value with
  | int n =>
    simp only [addressOf] at found
    split at found
    next =>
      cases found
      have bound : n.toInt < 2 ^ 63 := n.toInt_lt
      have limit : addressLimit = 2 ^ 63 := rfl
      omega
    next => cases found
  | _ => cases found

theorem cellAddress_lt {stack : Stack} {place address : Nat}
    (found : cellAddress stack place = .ok address) : address < addressLimit := by
  unfold cellAddress at found
  split at found
  · cases found
  · exact addressOf_lt found

/-- A step that fails leaves the frame pointer. -/
theorem framePtr_of_fault {error : RuntimeError} (failed : m.step = (m', some error)) :
    m'.framePtr = m.framePtr := by
  obtain ⟨_, last, faults, _, rfl⟩ := faults_of_step failed
  obtain ⟨_, _, rfl⟩ := faults.keeps
  rfl

/-- The frame pointer was the length of the stack once, or was read from a cell. -/
theorem Operated.framePtr_lt (operated : Operated m) : m.framePtr < addressLimit := by
  induction operated with
  | new heapCells => exact Nat.two_pow_pos 63
  | load _ code pool ih => exact ih
  | unwind => exact Nat.two_pow_pos 63
  | @step m operated fits ih =>
    cases stepped : m.step with
    | mk last error =>
      rw [stepped] at fits
      cases error with
      | some error =>
        rw [framePtr_of_fault stepped]
        exact ih
      | none =>
        cases shifts_step stepped with
        | grow stack frame | drop stack frame | store _ _ _ _ stack frame =>
          rw [frame]
          exact ih
        | call args stack frame =>
          have longer := congrArg List.length stack
          simp only [Array.length_toList, List.length_append, List.length_cons, List.length_nil,
            List.length_map] at longer
          rw [frame]
          have fits : last.stack.size < addressLimit := fits
          omega
        | leave stack frame => exact cellAddress_lt frame

end Words

/-- A call puts the words of its frame on the stack, and the arguments after them. -/
theorem step_call {target : Target} {args : List Nat}
    (atCall : m.code[m.pc]? = some (.call target args)) (called : m.step = (m', none)) :
    m'.framePtr = m.stack.size + 1 ∧
      ∃ values : List Value, m'.stack.toList = m.stack.toList ++
        [some (ofAddress m.pc), some (ofAddress m.framePtr)] ++ values.map some := by
  obtain ⟨effect, plan, rfl⟩ := effect_of_step atCall rfl called
  simp only [Machine.plan, Walks.except_bind_ok] at plan
  obtain ⟨entry, _, values, _, same⟩ := plan
  cases same
  exact ⟨rfl, values, by simp [commit]⟩

/-- A return whose words are in their places. -/
theorem leave_of_words {caller returnTo : Nat} (positive : m.framePtr ≠ 0)
    (inside : m.framePtr < m.stack.size)
    (isCaller : m.stack[m.framePtr]? = some (some (ofAddress caller)))
    (isReturn : m.stack[m.framePtr - 1]? = some (some (ofAddress returnTo)))
    (callerFits : caller < addressLimit) (returnFits : returnTo < addressLimit) :
    m.leave = ({ m with
      stack := m.stack.shrink (m.framePtr - 1), framePtr := caller, pc := returnTo + 1 }, none) := by
  have first : cellAddress m.stack m.framePtr = .ok caller := by
    simp [cellAddress, isCaller, addressOf_ofAddress callerFits]
  have second : cellAddress m.stack (m.framePtr - 1) = .ok returnTo := by
    simp [cellAddress, isReturn, addressOf_ofAddress returnFits]
  have outside : ¬ (m.framePtr = 0 ∨ m.stack.size ≤ m.framePtr) := by omega
  simp only [leave, if_neg outside, first, second]

/-- A function that writes to its slots, saves and restores a register and calls another function,
called with a cell on the stack. -/
def nestedCalls : List Instruction :=
  [.loadConst 1 (.int 5), .push 1, .call (.address 4) [1], .halt, .reserve 2, .save [1],
    .storeSlot 1 1, .call (.address 10) [1], .restore [1], .ret, .push 1, .pop 2, .ret]

/-- The machine at the outer call. -/
def nestedCaller : Machine :=
  ((Machine.new 4).load nestedCalls #[]).after 2

/-- A function that stores to the largest slot there is, which is where its caller's frame pointer
stands. -/
def wrappedStore : List Instruction :=
  [.loadConst 2 (.int 5), .call (.address 3) [], .halt, .storeSlot 2 (wordLimit - 1), .ret]

/-- The machine at the call of that function. -/
def wrappedCaller : Machine :=
  ((Machine.new 4).load wrappedStore #[]).after 1

end ScriptVM.Machine
