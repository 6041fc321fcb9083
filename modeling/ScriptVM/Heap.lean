import ScriptVM.Value

/-!
The heap: cells that are handed out in order and never taken back.

Cells stand in a backing store, those handed out before those in reserve. When the store is too
small it is replaced by one that is twice as large, or twice that, into which all cells are copied.
They keep their addresses and values, so its size shows only when asked for.

Addresses and counts of cells are words of 64 bits, and a sum that does not fit one wraps around. A
heap that is asked for so many cells takes some of those back that it handed out, and what was
written to them is still there when they are handed out again.
-/
namespace ScriptVM

/-- The number of words of 64 bits. -/
def wordLimit : Nat := Nat.pow 2 64

/-- What a word keeps of a sum. -/
def wrap (n : Nat) : Nat :=
  n % wordLimit

@[simp] theorem wrap_of_lt {n : Nat} (small : n < wordLimit) : wrap n = n :=
  Nat.mod_eq_of_lt small

/-- Why a cell cannot be used. -/
inductive HeapError where
  | outOfRange (address top : Nat)
  | uninitialised (address : Nat)
  | notACharacter (address : Nat)
deriving DecidableEq, Repr

/-- The diagnostic for a cell that cannot be used. -/
def HeapError.message : HeapError → String
  | outOfRange address top =>
    "heap address " ++ toString address ++ " is outside the allocated range 0.." ++ toString top
  | uninitialised address => "heap cell " ++ toString address ++ " is read before it was written"
  | notACharacter address => "heap cell " ++ toString address ++ " does not hold a character code"

/-- A backing store with the values written to it, and how much of it is handed out. -/
structure Heap where
  backing : Array (Option Value)
  /-- The first address not handed out. -/
  top : Nat
  top_le : top ≤ backing.size
deriving DecidableEq, Repr

/-- Doubles a capacity until it covers what is needed. The doublings never exceed `fuel`. While no
more than `2 ^ 63` cells are needed each double is a word. A heap that needs more has no end to the
doubling, and no store to go with it. -/
def doubleUntil (needed : Nat) : Nat → Nat → Nat
  | 0, capacity => capacity
  | fuel + 1, capacity =>
    if capacity < needed then doubleUntil needed fuel (2 * capacity) else capacity

theorem le_doubleUntil {needed fuel capacity : Nat} (positive : 0 < capacity)
    (enough : needed ≤ capacity + fuel) : needed ≤ doubleUntil needed fuel capacity := by
  induction fuel generalizing capacity with
  | zero => exact enough
  | succ fuel ih =>
    rw [doubleUntil]
    split
    · exact ih (by omega) (by omega)
    · omega

namespace Heap

/-- The size of the backing store. -/
def capacity (heap : Heap) : Nat :=
  heap.backing.size

/-- The value written to an address, if there is one. -/
def value? (heap : Heap) (address : Nat) : Option Value :=
  heap.backing[address]?.join

/-- The cells that are handed out. -/
def cells (heap : Heap) : Array (Option Value) :=
  heap.backing.extract 0 heap.top

/-- A heap of which nothing is handed out. It has at least one cell. -/
def empty (capacity : Nat) : Heap where
  backing := Array.replicate (max 1 capacity) none
  top := 0
  top_le := Nat.zero_le _

/-- The capacity that a heap is grown to. -/
def grownCapacity (heap : Heap) (needed : Nat) : Nat :=
  doubleUntil needed needed (max 1 heap.capacity)

/-- The heap with its cells copied to a larger backing store. -/
def grow (heap : Heap) (needed : Nat) : Heap where
  backing := heap.backing ++ Array.replicate (heap.grownCapacity needed - heap.capacity) none
  top := heap.top
  top_le := by
    have := heap.top_le
    simp only [Array.size_append]
    omega

/-- The heap with room for what is needed. -/
def ensure (heap : Heap) (needed : Nat) : Heap :=
  if heap.capacity < needed then heap.grow needed else heap

theorem le_grownCapacity (heap : Heap) (needed : Nat) : needed ≤ heap.grownCapacity needed :=
  le_doubleUntil (by omega) (by omega)

theorem le_capacity_ensure (heap : Heap) (needed : Nat) :
    needed ≤ (heap.ensure needed).capacity := by
  unfold ensure
  split
  · have := heap.le_grownCapacity needed
    simp only [grow, capacity, Array.size_append, Array.size_replicate] at this ⊢
    omega
  · omega

/-- The heap with the cells below `top` handed out, and no others. -/
def handOut (heap : Heap) (top : Nat) : Heap :=
  { heap.ensure top with top, top_le := heap.le_capacity_ensure top }

/-- Hands out cells and gives the address of the first. -/
def allocate (heap : Heap) (size : Nat) : Nat × Heap :=
  (heap.top, heap.handOut (wrap (heap.top + size)))

/-- Refuses an address that was not handed out. -/
def check (heap : Heap) (address : Nat) : Except HeapError Unit :=
  if address < heap.top then .ok () else .error (.outOfRange address heap.top)

/-- The value of a cell. -/
def load (heap : Heap) (address : Nat) : Except HeapError Value := do
  heap.check address
  match heap.value? address with
  | some value => .ok value
  | none => .error (.uninitialised address)

/-- Writes a cell that was handed out. -/
def put (heap : Heap) (address : Nat) (value : Value) : Heap :=
  if handedOut : address < heap.top then
    { heap with
      backing := heap.backing.setIfInBounds address (some value)
      top_le := by simpa using heap.top_le }
  else heap

/-- Writes a cell. -/
def store (heap : Heap) (address : Nat) (value : Value) : Except HeapError Heap :=
  match heap.check address with
  | .ok () => .ok (heap.put address value)
  | .error e => .error e

/-- Writes values to consecutive cells. -/
def fill (heap : Heap) (address : Nat) : List Value → Heap
  | [] => heap
  | value :: rest => fill (heap.put address value) (address + 1) rest

/-- The cells that hold a text: the number of its characters, then their code points. -/
def symbolCells (text : String) : List Value :=
  .int (Int64.ofNat text.length) :: text.toList.map fun c => .int (Int64.ofNat c.toNat)

/-- Hands out cells that hold a text and gives the address of the first. -/
def allocateSymbol (heap : Heap) (text : String) : Nat × Heap :=
  let values := symbolCells text
  let (address, heap) := heap.allocate values.length
  (address, heap.fill address values)

/-- The character with a code point. -/
def character? : Value → Option Char
  | .int code =>
    if h : code.toInt.toNat.isValidChar ∧ 0 ≤ code.toInt then
      some (Char.ofNatAux code.toInt.toNat h.1)
    else none
  | _ => none

/-- The characters in a run of cells, up to the first that holds none. -/
def characters (heap : Heap) (address : Nat) : Nat → Except HeapError (List Char)
  | 0 => .ok []
  | count + 1 => do
    let value ← heap.load address
    match character? value with
    | none => .error (.notACharacter address)
    | some c =>
      let rest ← heap.characters (address + 1) count
      return c :: rest

/-- The text that cells hold. -/
def symbol (heap : Heap) (address : Nat) : Except HeapError String := do
  match ← heap.load address with
  | .int count =>
    if 0 ≤ count.toInt then
      let text ← heap.characters (address + 1) count.toInt.toNat
      return String.ofList text
    else .error (.notACharacter address)
  | _ => .error (.notACharacter address)

section View

variable (heap : Heap)

@[simp] theorem top_handOut (top : Nat) : (heap.handOut top).top = top := rfl

@[simp] theorem top_allocate (size : Nat) :
    (heap.allocate size).2.top = wrap (heap.top + size) := rfl

@[simp] theorem top_put (address : Nat) (value : Value) :
    (heap.put address value).top = heap.top := by
  unfold put
  split <;> rfl

@[simp] theorem top_fill (address : Nat) (values : List Value) :
    (heap.fill address values).top = heap.top := by
  induction values generalizing heap address with
  | nil => rfl
  | cons value rest ih => rw [fill, ih, top_put]

@[simp] theorem top_allocateSymbol (text : String) :
    (heap.allocateSymbol text).2.top = wrap (heap.top + (symbolCells text).length) := by
  simp [allocateSymbol]

theorem allocate_of_lt {size : Nat} (small : heap.top + size < wordLimit) :
    heap.allocate size = (heap.top, heap.handOut (heap.top + size)) := by
  rw [allocate, wrap_of_lt small]

theorem length_symbolCells (text : String) : (symbolCells text).length = text.length + 1 := by
  simp [symbolCells, String.length_toList]

/-- A text has room where as many cells are handed out as it takes. -/
theorem room_for_symbol (text : String) : heap.top + (symbolCells text).length ≤
    (heap.handOut (heap.top + (text.length + 1))).top :=
  Nat.le_of_eq (by rw [length_symbolCells, top_handOut])

theorem allocateSymbol_of_lt {text : String} (small : heap.top + (text.length + 1) < wordLimit) :
    heap.allocateSymbol text = (heap.top,
      (heap.handOut (heap.top + (text.length + 1))).fill heap.top (symbolCells text)) := by
  simp only [allocateSymbol, length_symbolCells, allocate_of_lt heap small]

theorem value?_ensure (needed address : Nat) :
    (heap.ensure needed).value? address = heap.value? address := by
  unfold ensure
  split
  · simp only [value?, grow]
    rw [Array.getElem?_append]
    split
    · rfl
    next outside =>
      rw [Array.getElem?_replicate, Array.getElem?_eq_none (Nat.le_of_not_lt outside)]
      split <;> rfl
  · rfl

/-- Handing out cells writes nothing, however much the backing store grows. -/
theorem value?_handOut (top address : Nat) :
    (heap.handOut top).value? address = heap.value? address :=
  heap.value?_ensure _ address

theorem value?_put (address other : Nat) (value : Value) :
    (heap.put address value).value? other =
      if other = address ∧ address < heap.top then some value else heap.value? other := by
  unfold put
  split
  next inside =>
    simp only [value?, Array.getElem?_setIfInBounds]
    by_cases same : address = other
    · subst same
      simp [inside, Nat.lt_of_lt_of_le inside heap.top_le]
    · simp [same, Ne.symm same]
  next outside => simp [outside]

/-- Filling cells writes them and leaves the others. -/
theorem value?_fill {address other : Nat} {values : List Value}
    (inside : address + values.length ≤ heap.top) :
    (heap.fill address values).value? other =
      if address ≤ other ∧ other < address + values.length then values[other - address]?
      else heap.value? other := by
  induction values generalizing heap address with
  | nil => rw [fill, if_neg (by rw [List.length_nil]; omega)]
  | cons value rest ih =>
    rw [List.length_cons] at inside ⊢
    rw [fill, ih _ (by rw [top_put]; omega), value?_put]
    by_cases first : other = address
    · subst first
      rw [if_neg (by omega), if_pos ⟨rfl, by omega⟩, if_pos (by omega), Nat.sub_self]
      rfl
    · by_cases later : address < other ∧ other < address + 1 + rest.length
      · obtain ⟨next, same⟩ : ∃ i, other - address = i + 1 := ⟨other - address - 1, by omega⟩
        rw [if_pos (by omega), if_pos (by omega), same, List.getElem?_cons_succ]
        congr 1
        omega
      · rw [if_neg (by omega), if_neg (by omega), if_neg (by omega)]

theorem size_cells : heap.cells.size = heap.top := by
  have := heap.top_le
  simp only [cells, Array.size_extract]
  omega

theorem getElem?_cells (address : Nat) :
    heap.cells[address]? = if address < heap.top then some (heap.value? address) else none := by
  have := heap.top_le
  rw [cells, Array.getElem?_extract, value?]
  by_cases inside : address < heap.top
  · have stored : address < heap.backing.size := by omega
    have both : address < min heap.top heap.backing.size - 0 := by omega
    rw [if_pos both, if_pos inside, Nat.zero_add, Array.getElem?_eq_getElem stored]
    rfl
  · have neither : ¬ address < min heap.top heap.backing.size - 0 := by omega
    rw [if_neg inside, if_neg neither]

end View

end Heap

end ScriptVM
