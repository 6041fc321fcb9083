import Mathlib.Algebra.Group.Nat.Defs
import Mathlib.Order.Bounds.Defs
import ScriptVM.Heap

/-!
A heap is an unbounded memory.

An unbounded memory has a top that only moves up and values written below it; it has no capacity and
nothing in it is ever copied. Whatever is asked of a heap, it answers as such a memory does, so its
capacity and the growth of its backing store cannot be told from the answers. The capacity is always
the smallest of the initial one, its double, the double of that and so on that covers the top.

A heap counts cells in words. So all this holds as long as the cells asked for do not add up to more
than half of all words can count; beyond that the top may wrap around to cells that are in use.
-/
namespace ScriptVM

/-- A memory without bound: the first address not handed out, and the values written. -/
structure Memory where
  top : Nat := 0
  values : Nat → Option Value := fun _ => none

namespace Memory

/-- Hands out cells and gives the address of the first. -/
def allocate (memory : Memory) (size : Nat) : Nat × Memory :=
  (memory.top, { memory with top := memory.top + size })

/-- Refuses an address that was not handed out. -/
def check (memory : Memory) (address : Nat) : Except HeapError Unit :=
  if address < memory.top then .ok () else .error (.outOfRange address memory.top)

/-- The value of a cell. -/
def load (memory : Memory) (address : Nat) : Except HeapError Value := do
  memory.check address
  (memory.values address).elim (.error (.uninitialised address)) .ok

/-- The memory with another value at an address. -/
def write (memory : Memory) (address : Nat) (value : Value) : Memory :=
  { memory with
    values := fun other => if other = address then some value else memory.values other }

/-- Writes a cell. -/
def store (memory : Memory) (address : Nat) (value : Value) : Except HeapError Memory := do
  memory.check address
  return memory.write address value

/-- The memory with other values at consecutive addresses. -/
def writeAll (memory : Memory) (address : Nat) : List Value → Memory
  | [] => memory
  | value :: rest => writeAll (memory.write address value) (address + 1) rest

/-- Hands out cells for a text and writes it to them: its length, then its characters. -/
def allocateSymbol (memory : Memory) (text : String) : Nat × Memory :=
  let (address, memory) := memory.allocate (text.length + 1)
  (address, memory.writeAll address (Heap.symbolCells text))

/-- The character in a cell. -/
def character (memory : Memory) (address : Nat) : Except HeapError Char := do
  let value ← memory.load address
  (Heap.character? value).elim (.error (.notACharacter address)) .ok

/-- The text that begins at an address. -/
def symbol (memory : Memory) (address : Nat) : Except HeapError String := do
  match ← memory.load address with
  | .int count =>
    if count.toInt < 0 then .error (.notACharacter address)
    else
      let text ← (List.range' (address + 1) count.toInt.toNat).mapM memory.character
      return String.ofList text
  | _ => .error (.notACharacter address)

end Memory

namespace Heap

/-- What can be asked of a heap. -/
inductive Call where
  | allocate (size : Nat)
  | allocateSymbol (text : String)
  | store (address : Nat) (value : Value)
  | load (address : Nat)
  | symbol (address : Nat)
deriving DecidableEq, Repr

/-- The number of cells that a call asks for. -/
def Call.cells : Call → Nat
  | .allocate size => size
  | .allocateSymbol text => text.length + 1
  | .store .. | .load _ | .symbol _ => 0

/-- The number of cells that several calls ask for. -/
def Call.total : List Call → Nat
  | [] => 0
  | call :: rest => call.cells + Call.total rest

/-- What a heap can say. -/
inductive Answer where
  | address (address : Nat)
  | stored
  | value (value : Value)
  | text (text : String)
  | refused (error : HeapError)
deriving DecidableEq, Repr

/-- The answer that a result or a refusal is. -/
def Answer.of {α : Type} (answer : α → Answer) : Except HeapError α → Answer
  | .ok a => answer a
  | .error e => .refused e

/-- What a heap says to a call, and the heap after it. -/
def call (heap : Heap) : Call → Answer × Heap
  | .allocate size => ((heap.allocate size).map .address id)
  | .allocateSymbol text => ((heap.allocateSymbol text).map .address id)
  | .store address value =>
    match heap.store address value with
    | .ok heap' => (.stored, heap')
    | .error e => (.refused e, heap)
  | .load address => (.of .value (heap.load address), heap)
  | .symbol address => (.of .text (heap.symbol address), heap)

end Heap

open Heap (Call Answer)

/-- What an unbounded memory says to a call, and the memory after it. -/
def Memory.call (memory : Memory) : Call → Answer × Memory
  | .allocate size => ((memory.allocate size).map .address id)
  | .allocateSymbol text => ((memory.allocateSymbol text).map .address id)
  | .store address value =>
    match memory.store address value with
    | .ok memory' => (.stored, memory')
    | .error e => (.refused e, memory)
  | .load address => (.of .value (memory.load address), memory)
  | .symbol address => (.of .text (memory.symbol address), memory)

/-- The answers to calls one after the other, and the state after them. -/
def Heap.Call.answers {σ : Type} (answer : σ → Call → Answer × σ) (state : σ) :
    List Call → List Answer × σ
  | [] => ([], state)
  | call :: rest =>
    let (first, state) := answer state call
    let (others, state) := answers answer state rest
    (first :: others, state)

section Doubling

theorem doubleUntil_isLeast {needed fuel capacity : Nat} (enough : needed ≤ capacity * 2 ^ fuel) :
    ∃ doublings, doubleUntil needed fuel capacity = capacity * 2 ^ doublings ∧
      IsLeast {n | needed ≤ capacity * 2 ^ n} doublings := by
  induction fuel generalizing capacity with
  | zero => exact ⟨0, by simp [doubleUntil], enough, fun _ _ => Nat.zero_le _⟩
  | succ fuel ih =>
    have double : ∀ n, 2 * capacity * 2 ^ n = capacity * 2 ^ (n + 1) := by
      intro n
      rw [Nat.pow_succ, Nat.mul_comm 2 capacity, Nat.mul_assoc, Nat.mul_comm 2]
    rw [doubleUntil]
    split
    next small =>
      obtain ⟨doublings, grown, covers, least⟩ := ih (by rwa [double])
      refine ⟨doublings + 1, by rw [grown, double], ?_, ?_⟩
      · show needed ≤ capacity * 2 ^ (doublings + 1)
        rwa [← double]
      · intro n covered
        cases n with
        | zero =>
          have : needed ≤ capacity * 2 ^ 0 := covered
          omega
        | succ n =>
          have : needed ≤ capacity * 2 ^ (n + 1) := covered
          rw [← double] at this
          exact Nat.succ_le_succ (least this)
    next large =>
      refine ⟨0, by simp, ?_, fun _ _ => Nat.zero_le _⟩
      show needed ≤ capacity * 2 ^ 0
      omega

end Doubling

namespace Heap

variable {base : Nat} {heap : Heap} {memory : Memory}

/-- The capacity is the first of a base, its double and so on that covers the top. -/
def Fits (base : Nat) (heap : Heap) : Prop :=
  ∃ doublings, heap.capacity = base * 2 ^ doublings ∧
    IsLeast {n | heap.top ≤ base * 2 ^ n} doublings

theorem fits_empty (capacity : Nat) : (empty capacity).Fits (max 1 capacity) :=
  ⟨0, by simp [empty, Heap.capacity], Nat.zero_le _, fun _ _ => Nat.zero_le _⟩

theorem capacity_put (address : Nat) (value : Value) :
    (heap.put address value).capacity = heap.capacity := by
  unfold put
  split
  · exact Array.size_setIfInBounds
  · rfl

theorem capacity_fill (address : Nat) (values : List Value) :
    (heap.fill address values).capacity = heap.capacity := by
  induction values generalizing heap address with
  | nil => rfl
  | cons value rest ih => rw [fill, ih, capacity_put]

theorem capacity_grow {needed : Nat} (small : heap.capacity < needed) :
    (heap.grow needed).capacity = heap.grownCapacity needed := by
  have := heap.le_grownCapacity needed
  simp only [grow, capacity, Array.size_append, Array.size_replicate] at small ⊢
  omega

/-- A power that covers what is needed covers the old top, so growing only adds to the doublings. -/
theorem Fits.handOut (positive : 0 < base) (fits : heap.Fits base) (size : Nat) :
    (heap.handOut (heap.top + size)).Fits base := by
  obtain ⟨doublings, capacity, covers, least⟩ := fits
  have covers : heap.top ≤ base * 2 ^ doublings := covers
  have room : 0 < base * 2 ^ doublings := Nat.mul_pos positive (Nat.two_pow_pos _)
  show ∃ n, (heap.ensure (heap.top + size)).capacity = base * 2 ^ n ∧
    IsLeast {n | heap.top + size ≤ base * 2 ^ n} n
  by_cases small : heap.capacity < heap.top + size
  · rw [ensure, if_pos small, capacity_grow small, grownCapacity, capacity, Nat.max_eq_right room]
    have enough : heap.top + size ≤ base * 2 ^ doublings * 2 ^ (heap.top + size) :=
      Nat.le_trans (Nat.le_of_lt Nat.lt_two_pow_self) (Nat.le_mul_of_pos_left _ room)
    obtain ⟨more, grown, coversMore, leastMore⟩ := doubleUntil_isLeast enough
    refine ⟨doublings + more, by rw [grown, Nat.pow_add, Nat.mul_assoc], ?_, ?_⟩
    · show heap.top + size ≤ base * 2 ^ (doublings + more)
      rw [Nat.pow_add, ← Nat.mul_assoc]
      exact coversMore
    · intro n covered
      have covered : heap.top + size ≤ base * 2 ^ n := covered
      obtain ⟨further, rfl⟩ := Nat.exists_eq_add_of_le
        (least (show heap.top ≤ base * 2 ^ n by omega))
      rw [Nat.pow_add, ← Nat.mul_assoc] at covered
      exact Nat.add_le_add_left (leastMore covered) doublings
  · rw [ensure, if_neg small]
    refine ⟨doublings, capacity, ?_, ?_⟩
    · show heap.top + size ≤ base * 2 ^ doublings
      omega
    · intro n covered
      have covered : heap.top + size ≤ base * 2 ^ n := covered
      exact least (show heap.top ≤ base * 2 ^ n by omega)

/-- Writing to cells changes neither the capacity nor the top. -/
theorem Fits.of_eq {heap' : Heap} (fits : heap.Fits base)
    (capacity : heap'.capacity = heap.capacity) (top : heap'.top = heap.top) : heap'.Fits base := by
  unfold Fits
  rw [capacity, top]
  exact fits

theorem wordLimit_eq : wordLimit = 2 ^ 64 := rfl

/-- While no more cells are needed than half of all words can count, a capacity is a word. -/
theorem Fits.capacity_lt (fits : heap.Fits base) (isWord : base < wordLimit)
    (room : heap.top ≤ 2 ^ 63) : heap.capacity < wordLimit := by
  obtain ⟨doublings, capacity, _, least⟩ := fits
  rw [capacity]
  cases doublings with
  | zero => simpa using isWord
  | succ doublings =>
    have short : base * 2 ^ doublings < heap.top := by
      refine Nat.lt_of_not_le fun covers => ?_
      have := least (show heap.top ≤ base * 2 ^ doublings from covers)
      omega
    have limit := wordLimit_eq
    rw [Nat.pow_succ, ← Nat.mul_assoc]
    omega

/-- A store to a cell that was not handed out changes nothing. -/
theorem call_store (heap : Heap) (address : Nat) (value : Value) :
    (heap.call (.store address value)).2 = heap.put address value := by
  by_cases inside : address < heap.top
  · simp only [Heap.call, store, check, if_pos inside]
  · simp only [Heap.call, store, check, if_neg inside, put, dif_neg inside]

/-- A call hands out the cells that it asks for, if their addresses are words. -/
theorem top_call {call : Call} (small : heap.top + call.cells < wordLimit) :
    (heap.call call).2.top = heap.top + call.cells := by
  cases call with
  | allocate size => exact wrap_of_lt small
  | allocateSymbol text =>
    simp only [Heap.call, heap.allocateSymbol_of_lt small, Prod.map, id, top_fill, top_handOut,
      Call.cells]
  | store address value => rw [call_store, top_put, Call.cells, Nat.add_zero]
  | load | symbol => rfl

theorem Fits.call (positive : 0 < base) (fits : heap.Fits base) {call : Call}
    (small : heap.top + call.cells < wordLimit) : (heap.call call).2.Fits base := by
  cases call with
  | allocate size =>
    have small : heap.top + size < wordLimit := small
    simp only [Heap.call, heap.allocate_of_lt small, Prod.map]
    exact fits.handOut positive size
  | allocateSymbol text =>
    simp only [Heap.call, heap.allocateSymbol_of_lt small, Prod.map]
    exact (fits.handOut positive _).of_eq (capacity_fill _ _) (top_fill _ _ _)
  | store address value =>
    rw [call_store]
    exact fits.of_eq (capacity_put _ _) (top_put _ _ _)
  | load | symbol => exact fits

/-- A heap holds what an unbounded memory does. -/
structure Shows (heap : Heap) (memory : Memory) : Prop where
  top : heap.top = memory.top
  values : ∀ address, heap.value? address = memory.values address

namespace Shows

theorem empty (capacity : Nat) : (Heap.empty capacity).Shows {} := by
  refine ⟨rfl, fun address => ?_⟩
  rw [value?, Heap.empty, Array.getElem?_replicate]
  split <;> rfl

theorem handOut (shows : heap.Shows memory) (size : Nat) :
    (heap.handOut (heap.top + size)).Shows (memory.allocate size).2 := by
  refine ⟨?_, fun address => ?_⟩
  · rw [top_handOut, shows.top]
    rfl
  · rw [value?_handOut]
    exact shows.values address

theorem put (shows : heap.Shows memory) {address : Nat} (inside : address < heap.top)
    (value : Value) : (heap.put address value).Shows (memory.write address value) := by
  refine ⟨?_, fun other => ?_⟩
  · rw [top_put, shows.top]
    rfl
  · rw [value?_put, shows.values]
    simp [inside, Memory.write]

theorem fill (shows : heap.Shows memory) {address : Nat} {values : List Value}
    (inside : address + values.length ≤ heap.top) :
    (heap.fill address values).Shows (memory.writeAll address values) := by
  induction values generalizing heap memory address with
  | nil => exact shows
  | cons value rest ih =>
    rw [List.length_cons] at inside
    have first := shows.put (show address < heap.top by omega) value
    exact ih first (by rw [top_put]; omega)

theorem check (shows : heap.Shows memory) (address : Nat) :
    heap.check address = memory.check address := by
  rw [Heap.check, Memory.check, shows.top]

theorem load (shows : heap.Shows memory) (address : Nat) :
    heap.load address = memory.load address := by
  rw [Heap.load, Memory.load, shows.check, shows.values]
  cases memory.values address <;> rfl

theorem characters (shows : heap.Shows memory) (address count : Nat) :
    heap.characters address count = (List.range' address count).mapM memory.character := by
  induction count generalizing address with
  | zero => rfl
  | succ count ih =>
    rw [Heap.characters, List.range'_succ, List.mapM_cons, Memory.character, shows.load, ih]
    cases memory.load address with
    | error e => rfl
    | ok value =>
      simp only [bind, Except.bind]
      cases Heap.character? value with
      | none => rfl
      | some c => rfl

theorem symbol (shows : heap.Shows memory) (address : Nat) :
    heap.symbol address = memory.symbol address := by
  rw [Heap.symbol, Memory.symbol, shows.load]
  cases memory.load address with
  | error e => rfl
  | ok value =>
    cases value with
    | int count =>
      simp only [bind, Except.bind, shows.characters]
      by_cases negative : count.toInt < 0
      · rw [if_pos negative, if_neg (by omega)]
      · rw [if_neg negative, if_pos (by omega)]
    | null | real => rfl

/-- A heap and the memory it shows answer a call alike, and the one shows the other after it, if the
heap has addresses for the cells that are asked for. -/
theorem call (shows : heap.Shows memory) {call : Call} (small : heap.top + call.cells < wordLimit) :
    (heap.call call).1 = (memory.call call).1 ∧
      (heap.call call).2.Shows (memory.call call).2 := by
  cases call with
  | allocate size =>
    have small : heap.top + size < wordLimit := small
    simp only [Heap.call, heap.allocate_of_lt small, Prod.map]
    exact ⟨congrArg Answer.address shows.top, shows.handOut size⟩
  | allocateSymbol text =>
    simp only [Heap.call, heap.allocateSymbol_of_lt small, Prod.map]
    refine ⟨congrArg Answer.address shows.top, ?_⟩
    show Heap.Shows _ ((memory.allocate (text.length + 1)).2.writeAll memory.top (symbolCells text))
    rw [← shows.top]
    exact (shows.handOut _).fill (heap.room_for_symbol text)
  | store address value =>
    have same := shows.check address
    unfold Heap.check at same
    by_cases inside : address < heap.top
    · rw [if_pos inside] at same
      simp only [Heap.call, Memory.call, store, Memory.store, Heap.check, if_pos inside, ← same]
      exact ⟨rfl, shows.put inside value⟩
    · rw [if_neg inside] at same
      simp only [Heap.call, Memory.call, store, Memory.store, Heap.check, if_neg inside, ← same]
      exact ⟨rfl, shows⟩
  | load address => exact ⟨congrArg (Answer.of .value) (shows.load address), shows⟩
  | symbol address => exact ⟨congrArg (Answer.of .text) (shows.symbol address), shows⟩

end Shows

/-- What holds of one call holds of calls one after the other. -/
theorem Shows.answers (positive : 0 < base) (shows : heap.Shows memory) (fits : heap.Fits base)
    (calls : List Call) (room : heap.top + Call.total calls < wordLimit) :
    (Call.answers Heap.call heap calls).1 = (Call.answers Memory.call memory calls).1 ∧
      (Call.answers Heap.call heap calls).2.Shows (Call.answers Memory.call memory calls).2 ∧
      (Call.answers Heap.call heap calls).2.Fits base ∧
      (Call.answers Heap.call heap calls).2.top = heap.top + Call.total calls := by
  induction calls generalizing heap memory with
  | nil => exact ⟨rfl, shows, fits, rfl⟩
  | cons call rest ih =>
    rw [Call.total] at room
    have small : heap.top + call.cells < wordLimit := by omega
    have top := top_call small
    obtain ⟨same, showsNext⟩ := shows.call small
    obtain ⟨sameRest, shown, fitted, topAfter⟩ :=
      ih showsNext (fits.call positive small) (by omega)
    refine ⟨?_, shown, fitted, ?_⟩
    · simp only [Call.answers, same, sameRest]
    · rw [Call.total, Call.answers, topAfter, top]
      omega

/-- Calls that outgrow a store of two cells twice, and then look at what was written. -/
def doublingCalls : List Call :=
  [.allocate 2, .store 1 (.int 7), .allocateSymbol "ab", .allocate 4, .load 1, .symbol 2, .load 9]

/-- Calls of which the third asks for so many cells that the top wraps around to the bottom. -/
def wrappingCalls : List Call :=
  [.allocate 1, .store 0 (.int 7), .allocate (wordLimit - 1), .load 0]

end Heap

end ScriptVM
