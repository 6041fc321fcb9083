import ScriptVM.Proofs.CallProtection
import ScriptVM.Proofs.Flow

/-!
The frames that are open while a program runs.

They are known from the addresses that the machine has put on its stack: below the frame of the
function being executed lie those of the functions that wait for a return, each as large as it was at
its call, down to the program itself. Every step keeps it so: it stays in the innermost frame, opens
one for the function called, or closes the innermost one and goes on in the function that waited.
-/
namespace ScriptVM

namespace Layout

open Machine (ofAddress SameUpTo addressLimit)

section Definitions

variable (layout : Layout)

/-- The stack as a function finds it at its instructions, between making its frame and taking it
down. The program has no frame, and what lies on the stack before it starts is not looked at. -/
def Rests (function framePtr size : Nat) : Prop :=
  if function = layout.root then framePtr = 0
  else size = framePtr + 1 + layout.slots function + (layout.saved function).length

/-- A function whose frame has been made. -/
inductive Made (function framePtr : Nat) : Nat → Nat → Prop
  | saves {pc size : Nat} {regs : List Nat} (here : layout.At pc function (.save regs))
      (exact : size = framePtr + 1 + layout.slots function) : Made function framePtr pc size
  | inside {pc size : Nat} (inner : layout.Inner function pc)
      (rests : layout.Rests function framePtr size) : Made function framePtr pc size
  | leaves {pc size : Nat} (here : layout.At pc function .ret)
      (exact : size = framePtr + 1 + layout.slots function) : Made function framePtr pc size

/-- Where a function stands and how far the stack reaches then: its frame has been made, or its
arguments lie on the stack and the frame is to be made next. -/
def Poised (function framePtr pc size : Nat) : Prop :=
  (layout.At pc function (.reserve (layout.slots function)) ∧ framePtr < size ∧
    size ≤ framePtr + 1 + layout.slots function) ∨ layout.Made function framePtr pc size

/-- The open frames, the innermost one first, each as its function and its frame pointer. -/
inductive Open (stack : Stack) : List (Nat × Nat) → Prop
  | program : Open stack [(layout.root, 0)]
  | call {function waiting framePtr base returnTo : Nat} {outer : List (Nat × Nat)}
      (notRoot : function ≠ layout.root) (rests : layout.Rests waiting framePtr base)
      (isReturn : stack[base]? = some (some (ofAddress returnTo)))
      (isCaller : stack[base + 1]? = some (some (ofAddress framePtr)))
      (resumes : layout.Inner waiting (returnTo + 1)) (rest : Open stack ((waiting, framePtr) :: outer)) :
      Open stack ((function, base + 1) :: (waiting, framePtr) :: outer)

/-- A machine that executes a function, with frames open around it. -/
structure Runs (m : Machine) (function : Nat) (outer : List (Nat × Nat)) : Prop where
  code : m.code = layout.code
  opened : layout.Open m.stack ((function, m.framePtr) :: outer)
  poised : layout.Poised function m.framePtr m.pc m.stack.size

/-- What a step does to the open frames. -/
inductive Moves (m m' : Machine) : Nat → List (Nat × Nat) → Nat → List (Nat × Nat) → Prop
  | stays {function : Nat} {outer : List (Nat × Nat)} (frame : m'.framePtr = m.framePtr)
      (made : layout.Made function m'.framePtr m'.pc m'.stack.size) :
      Moves m m' function outer function outer
  | calls {function called : Nat} {outer : List (Nat × Nat)}
      (frame : m'.framePtr = m.stack.size + 1) :
      Moves m m' function outer called ((function, m.framePtr) :: outer)
  | returns {function waiting : Nat} {outer : List (Nat × Nat)}
      (atReturn : m.code[m.pc]? = some .ret)
      (made : layout.Made waiting m'.framePtr m'.pc m'.stack.size) :
      Moves m m' function ((waiting, m'.framePtr) :: outer) waiting outer

end Definitions

variable {layout : Layout} {m m' : Machine} {function framePtr pc size : Nat}
  {outer : List (Nat × Nat)} {stack stack' : Stack}

theorem rests_iff (notRoot : function ≠ layout.root) :
    layout.Rests function framePtr size ↔
      size = framePtr + 1 + layout.slots function + (layout.saved function).length := by
  rw [Rests, if_neg notRoot]

/-- The slots of a function that rests lie on the stack. -/
theorem Rests.room (rests : layout.Rests function framePtr size)
    (bare : layout.slots layout.root = 0) {slot : Nat} (isSlot : slot < layout.slots function) :
    framePtr + slot + 1 < size := by
  unfold Rests at rests
  split at rests
  next isRoot =>
    rw [isRoot, bare] at isSlot
    omega
  next => omega

theorem Made.room (made : layout.Made function framePtr pc size)
    (bare : layout.slots layout.root = 0) {slot : Nat} (isSlot : slot < layout.slots function) :
    framePtr + slot + 1 < size := by
  cases made with
  | saves _ exact | leaves _ exact => omega
  | inside _ rests => exact rests.room bare isSlot

theorem Poised.inside (poised : layout.Poised function framePtr pc size)
    (notRoot : function ≠ layout.root) : framePtr < size := by
  rcases poised with ⟨_, inside, _⟩ | made
  · exact inside
  · cases made with
    | saves _ exact | leaves _ exact => omega
    | inside _ rests =>
      rw [rests_iff notRoot] at rests
      omega

theorem Rests.le (rests : layout.Rests function framePtr size) : framePtr ≤ size := by
  unfold Rests at rests
  split at rests <;> omega

/-- Open frames stay open as long as the cells up to the innermost one do not change. -/
theorem Open.keep (opened : layout.Open stack ((function, framePtr) :: outer))
    (same : function ≠ layout.root → SameUpTo framePtr stack stack') :
    layout.Open stack' ((function, framePtr) :: outer) := by
  generalize whole : (function, framePtr) :: outer = frames at opened
  induction opened generalizing function framePtr outer with
  | program =>
    cases whole
    exact .program
  | call notRoot rests isReturn isCaller resumes rest ih =>
    cases whole
    have same := same notRoot
    have below := rests.le
    refine .call notRoot rests ?_ ?_ resumes (ih (fun _ other le => same other (by omega)) rfl)
    · rw [same _ (by omega), isReturn]
    · rw [same _ (Nat.le_refl _), isCaller]

/-- Frames further out begin further down, and end before the ones around begin. -/
theorem Open.under (opened : layout.Open stack ((function, framePtr) :: outer))
    (bare : layout.slots layout.root = 0) {other place : Nat} (member : (other, place) ∈ outer) :
    place < framePtr ∧ ∀ slot < layout.slots other, place + slot + 1 < framePtr := by
  generalize whole : (function, framePtr) :: outer = frames at opened
  induction opened generalizing function framePtr outer with
  | program =>
    cases whole
    cases member
  | call notRoot rests isReturn isCaller resumes rest ih =>
    cases whole
    have below := rests.le
    rcases List.mem_cons.mp member with same | further
    · cases same
      exact ⟨by omega, fun slot isSlot => Nat.lt_succ_of_lt (rests.room bare isSlot)⟩
    · obtain ⟨lower, room⟩ := ih further rfl
      exact ⟨by omega, fun slot isSlot => by have := room slot isSlot; omega⟩

/-- A function other than the program was called by one that waits. -/
theorem Open.caller (opened : layout.Open stack ((function, framePtr) :: outer))
    (notRoot : function ≠ layout.root) :
    ∃ waiting place base returnTo outer', framePtr = base + 1 ∧ outer = (waiting, place) :: outer' ∧
      layout.Rests waiting place base ∧ stack[base]? = some (some (ofAddress returnTo)) ∧
      stack[base + 1]? = some (some (ofAddress place)) ∧ layout.Inner waiting (returnTo + 1) ∧
      layout.Open stack outer := by
  cases opened with
  | program => exact absurd rfl notRoot
  | call _ rests isReturn isCaller resumes rest =>
    exact ⟨_, _, _, _, _, rfl, rfl, rests, isReturn, isCaller, resumes, rest⟩

section Steps

variable {instruction : Instruction}

/-- An instruction that the next one follows leaves the size of the stack. -/
theorem size_straight {effect : Effect} (straight : layout.Straight function instruction)
    (notCall : ∀ target regs, instruction ≠ .call target regs)
    (planned : m.plan instruction = .ok effect) :
    (m.commit effect).framePtr = m.framePtr ∧ (m.commit effect).pc = m.pc + 1 ∧
      (m.commit effect).stack.size = m.stack.size := by
  cases instruction with
  | call target regs => exact absurd rfl (notCall target regs)
  | storeSlot src slot =>
    simp only [Machine.plan, Walks.except_bind_ok] at planned
    obtain ⟨_, _, _, _, same⟩ := planned
    cases same
    exact ⟨rfl, rfl, Array.size_setIfInBounds⟩
  | storeOnce src slot =>
    simp only [Machine.plan, Walks.except_bind_ok] at planned
    obtain ⟨_, _, _, _, planned⟩ := planned
    split at planned <;> cases planned <;> exact ⟨rfl, rfl, Array.size_setIfInBounds⟩
  | loadSlot dst slot =>
    simp only [Machine.plan, Walks.except_bind_ok] at planned
    obtain ⟨_, _, planned⟩ := planned
    split at planned <;> cases planned
    exact ⟨rfl, rfl, rfl⟩
  | loadPool | phi =>
    simp only [Machine.plan] at planned
    split at planned <;> cases planned <;> exact ⟨rfl, rfl, rfl⟩
  | loadConst | unset | newChunk =>
    cases planned
    exact ⟨rfl, rfl, rfl⟩
  | loadAddress | copy =>
    simp only [Machine.plan, Walks.except_bind_ok] at planned
    obtain ⟨_, _, same⟩ := planned
    cases same
    exact ⟨rfl, rfl, rfl⟩
  | arith | compare =>
    simp only [Machine.plan, Walks.except_bind_ok] at planned
    obtain ⟨_, _, _, _, _, _, same⟩ := planned
    cases same
    exact ⟨rfl, rfl, rfl⟩
  | storeHeapAt =>
    simp only [Machine.plan, Walks.except_bind_ok] at planned
    obtain ⟨_, _, _, _, _, _, same⟩ := planned
    cases same
    exact ⟨rfl, rfl, rfl⟩
  | _ => cases straight

theorem size_restore {regs : List Nat} (restored : m.restore regs = (m', none)) :
    m'.stack.size + regs.length = m.stack.size ∧ m'.pc = m.pc := by
  induction regs generalizing m with
  | nil =>
    cases restored
    exact ⟨rfl, rfl⟩
  | cons reg rest ih =>
    simp only [Machine.restore] at restored
    split at restored
    next => cases restored
    next cell top =>
      obtain ⟨size, pc⟩ := ih restored
      have positive : m.stack.size ≠ 0 := by
        intro empty
        rw [Array.eq_empty_of_size_eq_zero empty] at top
        cases top
      simp only [Machine.write, Array.size_pop] at size
      refine ⟨?_, pc⟩
      rw [List.length_cons]
      omega

theorem Runs.keep (runs : layout.Runs m function outer) (stepped : m.step = (m', none))
    (isWord : m.storedPlace < wordLimit) (inside : function ≠ layout.root → m.framePtr < m'.stack.size) :
    layout.Open m'.stack ((function, m.framePtr) :: outer) :=
  runs.opened.keep fun notRoot =>
    (Machine.shifts_step stepped).keeps (Nat.le_refl _) (runs.poised.inside notRoot) (inside notRoot)
      isWord

theorem Runs.code_step (runs : layout.Runs m function outer) (stepped : m.step = (m', none)) :
    m'.code = layout.code := by
  have kept := Machine.code_step m
  rw [stepped] at kept
  exact kept.trans runs.code

theorem Runs.fetch (runs : layout.Runs m function outer)
    (here : layout.At m.pc function instruction) : m.code[m.pc]? = some instruction := by
  rw [runs.code]
  exact here.stands

theorem Runs.planned (runs : layout.Runs m function outer) (stepped : m.step = (m', none))
    (here : layout.At m.pc function instruction)
    (planned : Machine.isPlanned instruction = true) :
    ∃ effect, m.plan instruction = .ok effect ∧ m' = m.commit effect :=
  Machine.effect_of_step (runs.fetch here) planned stepped

/-- The function that is executed owns the next instruction. -/
theorem Runs.here (runs : layout.Runs m function outer) :
    ∃ instruction, layout.At m.pc function instruction := by
  rcases runs.poised with ⟨here, _⟩ | made
  · exact ⟨_, here⟩
  · cases made with
    | saves here | leaves here => exact ⟨_, here⟩
    | inside inner =>
      obtain ⟨instruction, here, _⟩ := inner
      exact ⟨instruction, here⟩

/-- Functions store to slots of their frames, which have a place in the stack. -/
theorem Runs.storedPlace_lt (coherent : layout.Coherent) (runs : layout.Runs m function outer)
    (addressable : m.isAddressable = true) : m.storedPlace < wordLimit := by
  obtain ⟨instruction, here⟩ := runs.here
  have fits := (Machine.isAddressable_iff.mp addressable).2.1
  have limit := Machine.addressLimit_add_self
  simp only [Machine.storedPlace, runs.fetch here]
  cases instruction with
  | storeSlot src slot | storeOnce src slot =>
    have isSlot := coherent.sized here rfl
    rcases runs.poised with ⟨reserves, _⟩ | made
    · cases (here.unique reserves).2
    · have := made.room coherent.bare isSlot
      dsimp only
      omega
  | _ => exact Nat.two_pow_pos 64

/-- A step in the innermost frame. -/
theorem Runs.stays (runs : layout.Runs m function outer) (stepped : m.step = (m', none))
    (isWord : m.storedPlace < wordLimit) (frame : m'.framePtr = m.framePtr)
    (made : layout.Made function m.framePtr m'.pc m'.stack.size) :
    layout.Runs m' function outer ∧ layout.Moves m m' function outer function outer := by
  have opened := runs.keep stepped isWord fun notRoot => Poised.inside (.inr made) notRoot
  rw [← frame] at made opened
  exact ⟨⟨runs.code_step stepped, opened, .inr made⟩, .stays frame made⟩

theorem length_readAll {regs : List Nat} {values : List Value}
    (read : m.readAll regs = .ok values) : values.length = regs.length := by
  induction regs generalizing values with
  | nil =>
    cases read
    rfl
  | cons reg rest ih =>
    simp only [Machine.readAll, Walks.except_bind_ok] at read
    obtain ⟨value, _, others, readRest, same⟩ := read
    cases same
    rw [List.length_cons, ih readRest, List.length_cons]

/-- A step that opens a frame. -/
theorem Runs.calls (coherent : layout.Coherent) (runs : layout.Runs m function outer)
    (stepped : m.step = (m', none)) (isWord : m.storedPlace < wordLimit)
    (rests : layout.Rests function m.framePtr m.stack.size)
    {target : Target} {regs : List Nat} (here : layout.At m.pc function (.call target regs)) :
    ∃ called, layout.Runs m' called ((function, m.framePtr) :: outer) ∧
      layout.Moves m m' function outer called ((function, m.framePtr) :: outer) := by
  have flows := coherent.flows here
  cases target with
  | label => cases flows.1
  | address address =>
    obtain ⟨⟨tag, name, params, body, type, isNode, rfl, count⟩, resumes⟩ := flows
    obtain ⟨notRoot, enters, enough⟩ := coherent.begins tag name params body type isNode
    obtain ⟨effect, plan, same⟩ := runs.planned stepped here rfl
    have kept := runs.keep stepped isWord
    have code := runs.code_step stepped
    simp only [Machine.plan, Walks.except_bind_ok] at plan
    obtain ⟨entry, isEntry, values, read, isEffect⟩ := plan
    cases isEntry
    cases isEffect
    subst same
    have length := length_readAll read
    have opened := kept fun notRoot => by
      have := runs.poised.inside notRoot
      simp only [Machine.commit, Array.size_append, Array.size_push]
      omega
    refine ⟨tag.id, ⟨code, .call notRoot rests ?_ ?_ resumes opened, .inl ⟨enters, ?_, ?_⟩⟩,
      .calls rfl⟩
    · simp [Machine.commit]
    · simp [Machine.commit]
    · simp only [Machine.commit, Array.size_append, Array.size_push]
      omega
    · simp only [Machine.commit, Array.size_append, Array.size_push, List.size_toArray,
        List.length_map]
      omega

/-- A step that closes the innermost frame. Under the slots stand the place to return to and the
frame of the caller. -/
theorem Runs.returns (runs : layout.Runs m function outer)
    (addressable : m.isAddressable = true) (stepped : m.step = (m', none))
    (isWord : m.storedPlace < wordLimit) (notRoot : function ≠ layout.root) (here : layout.At m.pc function .ret) :
    ∃ waiting outer', layout.Runs m' waiting outer' ∧
      layout.Moves m m' function outer waiting outer' := by
  have fetch := runs.fetch here
  have inside := runs.poised.inside notRoot
  have code := runs.code_step stepped
  have shifts := Machine.shifts_step stepped
  obtain ⟨codeFits, stackFits, _⟩ := Machine.isAddressable_iff.mp addressable
  obtain ⟨waiting, place, base, returnTo, outer', frame, rfl, rests, isReturn, isCaller, resumes,
    opened⟩ := runs.opened.caller notRoot
  have below := rests.le
  have returnFits : returnTo < addressLimit := by
    obtain ⟨_, resumed, _⟩ := resumes
    have := (Array.getElem?_eq_some_iff.mp resumed.stands).1
    rw [runs.code] at codeFits
    omega
  have left := Machine.leave_of_words (by omega) inside (by rw [frame, isCaller])
    (by rw [frame, Nat.add_sub_cancel, isReturn]) (by omega) returnFits
  cases stepped.symm.trans (Machine.step_of_leave fetch left)
  have size : (m.stack.shrink (m.framePtr - 1)).size = base := by
    rw [Array.size_shrink, frame]
    omega
  have made : layout.Made waiting place (returnTo + 1) (m.stack.shrink (m.framePtr - 1)).size := by
    rw [size]
    exact .inside resumes rests
  refine ⟨waiting, outer', ⟨code, ?_, .inr made⟩, .returns fetch made⟩
  refine opened.keep fun notRoot' => ?_
  have insideOuter := Poised.inside (.inr made) notRoot'
  exact shifts.keeps (by omega) (by omega) insideOuter isWord

theorem isPlanned_of_straight (straight : layout.Straight function instruction) :
    Machine.isPlanned instruction = true := by
  cases instruction <;> first | rfl | cases straight

/-- A step to the next instruction of a function. -/
theorem Runs.straight (runs : layout.Runs m function outer) (stepped : m.step = (m', none))
    (isWord : m.storedPlace < wordLimit) (rests : layout.Rests function m.framePtr m.stack.size)
    (here : layout.At m.pc function instruction) (straight : layout.Straight function instruction)
    (notCall : ∀ target regs, instruction ≠ .call target regs)
    (next : layout.Inner function (m.pc + 1)) :
    layout.Runs m' function outer ∧ layout.Moves m m' function outer function outer := by
  obtain ⟨effect, plan, rfl⟩ := runs.planned stepped here (isPlanned_of_straight straight)
  obtain ⟨frame, pc, size⟩ := size_straight straight notCall plan
  refine runs.stays stepped isWord frame ?_
  rw [pc, size]
  exact .inside next rests

/-- A step from inside a function. All but jumps, calls and the end of the function go on to the
next address. -/
theorem Runs.step_inside (coherent : layout.Coherent) (runs : layout.Runs m function outer)
    (stepped : m.step = (m', none)) (isWord : m.storedPlace < wordLimit) (running : m'.isDone = false)
    (inner : layout.Inner function m.pc)
    (rests : layout.Rests function m.framePtr m.stack.size) :
    ∃ function' outer', layout.Runs m' function' outer' ∧
      layout.Moves m m' function outer function' outer' := by
  obtain ⟨instruction, here, isInner⟩ := inner
  have flows := coherent.flows here
  cases instruction with
  | label | reserve | save | ret => cases isInner
  | halt =>
    obtain ⟨effect, plan, rfl⟩ := runs.planned stepped here rfl
    cases plan
    cases running
  | jump target =>
    cases target with
    | label => cases flows.1
    | address address =>
      obtain ⟨effect, plan, rfl⟩ := runs.planned stepped here rfl
      cases plan
      exact ⟨_, _, runs.stays stepped isWord rfl (.inside flows rests)⟩
  | branchZero test target =>
    cases target with
    | label => cases flows.1
    | address address =>
      obtain ⟨effect, plan, rfl⟩ := runs.planned stepped here rfl
      simp only [Machine.plan, Walks.except_bind_ok] at plan
      obtain ⟨value, _, goes⟩ := plan
      rcases Machine.gotoIf_ok goes with rfl | ⟨pc, isAddress, rfl⟩
      · exact ⟨_, _, runs.stays stepped isWord rfl (.inside flows.2 rests)⟩
      · cases isAddress
        exact ⟨_, _, runs.stays stepped isWord rfl (.inside flows.1 rests)⟩
  | restore regs =>
    obtain ⟨notRoot, rfl, ret⟩ := flows
    obtain ⟨last, restored, rfl⟩ := Machine.restored_of_step (runs.fetch here) stepped
    obtain ⟨size, pc⟩ := size_restore restored
    obtain ⟨_, _, kept, _⟩ := Machine.restore_keeps restored
    have frame := congrArg Machine.framePtr kept
    rw [rests_iff notRoot] at rests
    refine ⟨_, _, runs.stays stepped isWord frame (.leaves ?_ ?_)⟩
    · show layout.At (last.pc + 1) function .ret
      rwa [pc]
    · show last.stack.size = _
      omega
  | call target regs =>
    obtain ⟨called, runs', moves⟩ := runs.calls coherent stepped isWord rests here
    exact ⟨called, _, runs', moves⟩
  | _ => exact ⟨_, _, runs.straight stepped isWord rests here flows.1 (by simp) flows.2⟩

/-- A step that goes on keeps track of the open frames. A frame is made in two steps and taken down
in two; in between, control is inside the function. -/
theorem Runs.step (coherent : layout.Coherent) (runs : layout.Runs m function outer)
    (addressable : m.isAddressable = true) (stepped : m.step = (m', none))
    (running : m'.isDone = false) :
    ∃ function' outer', layout.Runs m' function' outer' ∧
      layout.Moves m m' function outer function' outer' := by
  have isWord := runs.storedPlace_lt coherent addressable
  rcases runs.poised with ⟨here, inside, room⟩ | made
  · obtain ⟨_, _, regs, save⟩ := coherent.flows here
    obtain ⟨effect, plan, rfl⟩ := runs.planned stepped here rfl
    cases plan
    refine ⟨_, _, runs.stays stepped isWord rfl (.saves save ?_)⟩
    have needed : m.framePtr + 1 + layout.slots function < wordLimit := by
      have limit := Machine.addressLimit_add_self
      have fits : m.framePtr + 1 + layout.slots function < addressLimit :=
        (Machine.isAddressable_iff.mp addressable).2.2.2 _ (runs.fetch here)
      omega
    simp only [Machine.commit, Machine.growStack, Machine.next, wrap_of_lt needed]
    split
    next => simp; omega
    next => omega
  · cases made with
    | saves here exact =>
      obtain ⟨notRoot, rfl, inner⟩ := coherent.flows here
      obtain ⟨effect, plan, rfl⟩ := runs.planned stepped here rfl
      cases plan
      refine ⟨_, _, runs.stays stepped isWord rfl (.inside inner ?_)⟩
      rw [rests_iff notRoot, ← exact]
      simp [Machine.commit, Machine.next]
    | inside inner rests => exact runs.step_inside coherent stepped isWord running inner rests
    | leaves here exact => exact runs.returns addressable stepped isWord (coherent.flows here) here

end Steps

end Layout

end ScriptVM
