import ScriptVM.Proofs.Correctness
import ScriptVM.Proofs.OpenFrames

/-!
A variable that may be assigned once.

Its declaration stores to its slot without a look at what is there; it is the only instruction that
does. An assignment, of which there are none if the declaration has a value written to it, looks at
the slot first. So as long as the activation lasts and the declaration is not executed again, the slot
keeps a value that was given to it, and an assignment fails, unless this value is the one of nothing.
An assignment cannot tell that one from a declaration without a value.
-/
namespace ScriptVM

/-- The unchecked store to a slot, with which a declaration ends. -/
def Instruction.declares (slot : Nat) : Instruction → Bool
  | .storeSlot _ other => other == slot
  | _ => false

/-- The store to a slot that has no value yet. -/
def Instruction.assigns (slot : Nat) : Instruction → Bool
  | .storeOnce _ other => other == slot
  | _ => false

namespace Machine

variable (m : Machine)

/-- The next instruction returns from the frame at this place. -/
def ReturnsFrom (framePtr : Nat) : Prop :=
  m.framePtr = framePtr ∧ m.code[m.pc]? = some .ret

/-- The next instruction declares the variable in a slot of the frame at this place. -/
def Declares (framePtr slot : Nat) : Prop :=
  m.framePtr = framePtr ∧ (m.code[m.pc]?).any (Instruction.declares slot) = true

/-- The next instruction assigns the variable in a slot of the frame at this place. -/
def Assigns (framePtr slot : Nat) : Prop :=
  m.framePtr = framePtr ∧ (m.code[m.pc]?).any (Instruction.assigns slot) = true

/-- The next instruction gives the variable in a slot of the current frame a value. -/
def Fills (slot : Nat) (value : Value) : Prop :=
  ∃ src, (m.code[m.pc]? = some (.storeSlot src slot) ∨ m.code[m.pc]? = some (.storeOnce src slot)) ∧
    m.registers.read src = some value

instance (framePtr : Nat) : Decidable (m.ReturnsFrom framePtr) :=
  inferInstanceAs (Decidable (_ ∧ _))

instance (framePtr slot : Nat) : Decidable (m.Declares framePtr slot) :=
  inferInstanceAs (Decidable (_ ∧ _))

instance (framePtr slot : Nat) : Decidable (m.Assigns framePtr slot) :=
  inferInstanceAs (Decidable (_ ∧ _))

/-- A run that goes on for so many steps, and is not at its end then. -/
structure Continues (count : Nat) : Prop where
  running : ∀ k ≤ count, (m.after k).isDone = false
  addressable : ∀ k ≤ count, (m.after k).isAddressable = true
  sound : ∀ k < count, (m.after k).step.2 = none

instance (count : Nat) : Decidable (m.Continues count) :=
  decidable_of_iff
    ((∀ k < count + 1, (m.after k).isDone = false ∧ (m.after k).isAddressable = true) ∧
      ∀ k < count, (m.after k).step.2 = none)
    ⟨fun ⟨goes, sound⟩ => ⟨fun k le => (goes k (Nat.lt_succ_of_le le)).1,
        fun k le => (goes k (Nat.lt_succ_of_le le)).2, sound⟩,
      fun continues => ⟨fun k less => ⟨continues.running k (Nat.le_of_lt_succ less),
        continues.addressable k (Nat.le_of_lt_succ less)⟩, continues.sound⟩⟩

/-- So many steps after a variable of the current function was given a value, its activation has not
ended and its declaration was not executed again. -/
structure HasFilled (slot : Nat) (value : Value) (count : Nat) : Prop where
  fills : m.Fills slot value
  positive : 0 < count
  continues : m.Continues count
  lasts : ∀ k < count, ¬ (m.after k).ReturnsFrom m.framePtr
  once : ∀ k, 0 < k → k < count → ¬ (m.after k).Declares m.framePtr slot

end Machine

namespace Layout

section Slots

variable {layout : Layout} {m m' : Machine} {function function' owner framePtr slot : Nat}
  {outer outer' : List (Nat × Nat)} {value : Value}

theorem Open.notRoot {stack : Stack} (opened : layout.Open stack ((function, framePtr) :: outer))
    {other : Nat × Nat} (member : other ∈ outer) : function ≠ layout.root := by
  cases opened with
  | program => cases member
  | call notRoot => exact notRoot

/-- The slots of a function that waits lie on the stack. -/
theorem Runs.room (runs : layout.Runs m function outer) (bare : layout.slots layout.root = 0)
    (member : (owner, framePtr) ∈ outer) (isSlot : slot < layout.slots owner) :
    framePtr + slot + 1 < m.stack.size := by
  have below := (runs.opened.under bare member).2 slot isSlot
  have inside := runs.poised.inside (runs.opened.notRoot member)
  omega

/-- An open frame stays open, with its slots on the stack, unless it is the one that returns. -/
theorem Runs.follow (runs : layout.Runs m function outer) (runs' : layout.Runs m' function' outer')
    (moves : layout.Moves m m' function outer function' outer')
    (bare : layout.slots layout.root = 0) (member : (owner, framePtr) ∈ (function, m.framePtr) :: outer)
    (isSlot : slot < layout.slots owner) (inside : framePtr + slot + 1 < m.stack.size)
    (lasts : ¬ m.ReturnsFrom framePtr) :
    (owner, framePtr) ∈ (function', m'.framePtr) :: outer' ∧
      framePtr + slot + 1 < m'.stack.size := by
  cases moves with
  | stays frame made =>
    rw [← frame] at member
    refine ⟨member, ?_⟩
    rcases List.mem_cons.mp member with here | further
    · cases here
      exact made.room bare isSlot
    · exact runs'.room bare further isSlot
  | calls frame =>
    exact ⟨List.mem_cons_of_mem _ member, runs'.room bare member isSlot⟩
  | returns atReturn made =>
    rcases List.mem_cons.mp member with here | further
    · cases here
      exact absurd ⟨rfl, atReturn⟩ lasts
    · refine ⟨further, ?_⟩
      rcases List.mem_cons.mp further with here | beyond
      · cases here
        exact made.room bare isSlot
      · exact runs'.room bare beyond isSlot

/-- A step changes a slot of an open frame only by storing to it. -/
theorem Runs.keeps_slot (runs : layout.Runs m function outer) (stepped : m.step = (m', none))
    (isWord : m.storedPlace < wordLimit) (bare : layout.slots layout.root = 0)
    (member : (owner, framePtr) ∈ (function, m.framePtr) :: outer)
    (isSlot : slot < layout.slots owner) (inside : framePtr + slot + 1 < m.stack.size)
    (inside' : framePtr + slot + 1 < m'.stack.size) (notDeclared : ¬ m.Declares framePtr slot)
    (notAssigned : ¬ m.Assigns framePtr slot) :
    m'.stack[framePtr + slot + 1]? = m.stack[framePtr + slot + 1]? := by
  cases Machine.shifts_step stepped with
  | grow stack => exact Machine.sameUpTo_of_start stack inside _ (Nat.le_refl _)
  | drop stack | leave stack =>
    exact (Machine.sameUpTo_of_start stack inside' _ (Nat.le_refl _)).symm
  | call args stack =>
    refine Machine.sameUpTo_of_start ?_ inside _ (Nat.le_refl _)
    rw [stack, List.append_assoc]
    exact List.prefix_append _ _
  | store src index value isStore stack =>
    rw [Machine.storedPlace_of_isStore isStore] at isWord
    rw [stack, wrap_of_lt isWord]
    apply Array.getElem?_setIfInBounds_ne
    intro same
    rcases List.mem_cons.mp member with here | further
    · cases here
      have sameSlot : index = slot := by omega
      subst sameSlot
      rcases isStore with declares | assigns
      · exact notDeclared ⟨rfl, by simp [declares, Instruction.declares]⟩
      · exact notAssigned ⟨rfl, by simp [assigns, Instruction.assigns]⟩
    · have := (runs.opened.under bare further).2 slot isSlot
      omega

end Slots

end Layout

namespace Machine

variable {m m' : Machine} {slot src : Nat} {value found : Value} {count : Nat}

theorem Continues.step (continues : m.Continues count) {k : Nat} (before : k < count) :
    (m.after k).step = (m.after (k + 1), none) := by
  rw [after_succ, ← continues.sound k before]

theorem Continues.tail (continues : m.Continues (count + 1)) : m.step.1.Continues count :=
  ⟨fun k le => continues.running (k + 1) (by omega),
    fun k le => continues.addressable (k + 1) (by omega),
    fun k less => continues.sound (k + 1) (by omega)⟩

/-- A value that is given to a slot stands there after the step. -/
theorem cell_of_fills (fills : m.Fills slot value) (stepped : m.step = (m', none))
    (isWord : m.storedPlace < wordLimit) :
    m.framePtr + slot + 1 < m.stack.size ∧
      m'.stack[m.framePtr + slot + 1]? = some (some value) := by
  obtain ⟨src, isStore, written⟩ := fills
  have read : m.read src = .ok value := by
    simp [Machine.read, written]
  have stores : ∃ place, m.slotPlace slot = .ok place ∧ m' = m.commit (.store place value) := by
    rcases isStore with fetch | fetch
    · obtain ⟨effect, planned, rfl⟩ := effect_of_step fetch rfl stepped
      simp only [plan, read, Walks.except_bind_ok] at planned
      obtain ⟨_, same, place, isPlace, planned⟩ := planned
      cases same
      cases planned
      exact ⟨place, isPlace, rfl⟩
    · obtain ⟨effect, planned, rfl⟩ := effect_of_step fetch rfl stepped
      simp only [plan, read, Walks.except_bind_ok] at planned
      obtain ⟨_, same, place, isPlace, planned⟩ := planned
      cases same
      split at planned <;> cases planned <;> exact ⟨place, isPlace, rfl⟩
  obtain ⟨place, isPlace, rfl⟩ := stores
  obtain ⟨rfl, inside⟩ := slotPlace_ok isPlace
  rw [storedPlace_of_isStore isStore] at isWord
  rw [wrap_of_lt isWord] at inside ⊢
  exact ⟨inside, Array.getElem?_setIfInBounds_self_of_lt inside⟩

/-- A sound run of which the first steps are known goes on soundly. -/
theorem Sound.after {k : Nat} (sound : m.Sound (k + count)) (continues : m.Continues k) :
    (m.after k).Sound count := by
  induction k generalizing m with
  | zero => simpa [Machine.after] using sound
  | succ k ih =>
    rw [Nat.add_right_comm] at sound
    have running := continues.running 0 (Nat.zero_le _)
    have addressable := continues.addressable 0 (Nat.zero_le _)
    have goes := continues.sound 0 (Nat.zero_lt_succ _)
    cases sound with
    | done done =>
      rw [Machine.after, done] at running
      cases running
    | fails fails =>
      rw [Machine.after, fails.step] at goes
      cases goes
    | next advance rest =>
      have continues := continues.tail
      rw [advance.step] at continues
      have later := ih rest continues
      rwa [Machine.after, advance.step]
    | outgrown _ full =>
      rw [Machine.after, full] at addressable
      cases addressable

/-- A sound run assigns written registers only. -/
theorem Sound.written (sound : m.Sound (count + 1)) (running : m.isDone = false)
    (addressable : m.isAddressable = true) (fetch : m.code[m.pc]? = some (.storeOnce src slot)) :
    ∃ value, m.registers.read src = some value := by
  cases written : m.registers.read src with
  | some value => exact ⟨value, rfl⟩
  | none =>
    have read : m.read src = .error (.unsetRegister src) := by
      simp [Machine.read, written]
    have plan : m.plan (.storeOnce src slot) = .error (.unsetRegister src) := by
      simp [Machine.plan, read, bind, Except.bind]
    cases sound.blames running addressable fetch rfl plan

theorem exists_assigns {framePtr : Nat} (assigns : m.Assigns framePtr slot) :
    ∃ src, m.code[m.pc]? = some (.storeOnce src slot) := by
  obtain ⟨_, next⟩ := assigns
  cases fetch : m.code[m.pc]? with
  | none =>
    rw [fetch] at next
    cases next
  | some instruction =>
    rw [fetch] at next
    cases instruction with
    | storeOnce src other =>
      have same : other = slot := by simpa [Instruction.assigns] using next
      exact ⟨src, by rw [same]⟩
    | _ => cases next

end Machine

namespace Layout

section Runs

variable {layout : Layout} {m m' : Machine} {owner framePtr slot count : Nat}
  {outer : List (Nat × Nat)} {value : Value}

variable (layout m) in
/-- A slot of an open frame of a function holds a value. -/
def Holds (owner framePtr slot : Nat) (value : Value) : Prop :=
  ∃ function outer, layout.Runs m function outer ∧
    (owner, framePtr) ∈ (function, m.framePtr) :: outer ∧
    m.stack[framePtr + slot + 1]? = some (some value)

/-- A function that gives its variable a value leaves the value in its slot. -/
theorem Runs.holds (coherent : layout.Coherent) (runs : layout.Runs m owner outer)
    (isSlot : slot < layout.slots owner) (fills : m.Fills slot value)
    (addressable : m.isAddressable = true) (stepped : m.step = (m', none))
    (running : m'.isDone = false) (lasts : ¬ m.ReturnsFrom m.framePtr) :
    layout.Holds m' owner m.framePtr slot value := by
  obtain ⟨function', outer', runs', moves⟩ := runs.step coherent addressable stepped running
  obtain ⟨inside, cell⟩ :=
    Machine.cell_of_fills fills stepped (runs.storedPlace_lt coherent addressable)
  obtain ⟨member, _⟩ := runs.follow runs' moves coherent.bare List.mem_cons_self isSlot inside lasts
  exact ⟨function', outer', runs', member, cell⟩

/-- The slot of an open frame keeps its value in a step that neither returns from the frame nor
stores to the slot. -/
theorem Holds.step (coherent : layout.Coherent) (holds : layout.Holds m owner framePtr slot value)
    (isSlot : slot < layout.slots owner) (addressable : m.isAddressable = true)
    (stepped : m.step = (m', none)) (running : m'.isDone = false) (lasts : ¬ m.ReturnsFrom framePtr)
    (notDeclared : ¬ m.Declares framePtr slot) (notAssigned : ¬ m.Assigns framePtr slot) :
    layout.Holds m' owner framePtr slot value := by
  obtain ⟨function, outer, runs, member, cell⟩ := holds
  obtain ⟨function', outer', runs', moves⟩ := runs.step coherent addressable stepped running
  have inside := (Array.getElem?_eq_some_iff.mp cell).1
  obtain ⟨member', inside'⟩ := runs.follow runs' moves coherent.bare member isSlot inside lasts
  refine ⟨function', outer', runs', member', ?_⟩
  rw [runs.keeps_slot stepped (runs.storedPlace_lt coherent addressable) coherent.bare member isSlot
    inside inside' notDeclared notAssigned, cell]

/-- An assignment to a slot that holds a value other than that of nothing fails. -/
theorem Holds.refuses (holds : layout.Holds m owner framePtr slot value) (something : value ≠ .null)
    (addressable : m.isAddressable = true) (assigns : m.Assigns framePtr slot) : m.step.2 ≠ none := by
  intro goes
  obtain ⟨_, _, _, _, cell⟩ := holds
  obtain ⟨src, fetch⟩ := Machine.exists_assigns assigns
  rw [← assigns.1] at cell
  obtain ⟨effect, planned, _⟩ := Machine.effect_of_step fetch rfl
    (show m.step = (m.step.1, none) by rw [← goes])
  cases written : m.registers.read src with
  | none => simp [Machine.plan, Machine.read, written, bind, Except.bind] at planned
  | some found =>
    have fits := (Machine.isAddressable_iff.mp addressable).2.1
    rw [Machine.plan_storeOnce fits cell written, if_neg something] at planned
    cases planned

/-- As long as the activation lasts and the declaration is not executed again, the slot holds the
value that it was given, unless it is assigned in between when this value is the one of nothing. -/
theorem holds_after (coherent : layout.Coherent) (runs : layout.Runs m owner outer)
    (isSlot : slot < layout.slots owner) (filled : m.HasFilled slot value count)
    (unassigned : value = .null → ∀ k, 0 < k → k < count → ¬ (m.after k).Assigns m.framePtr slot) :
    layout.Holds (m.after count) owner m.framePtr slot value := by
  have upTo : ∀ k, k < count → layout.Holds (m.after (k + 1)) owner m.framePtr slot value := by
    intro k before
    induction k with
    | zero =>
      exact runs.holds coherent isSlot filled.fills
        (filled.continues.addressable 0 (Nat.zero_le _)) (filled.continues.step before)
        (filled.continues.running 1 before) (filled.lasts 0 before)
    | succ k ih =>
      have holds := ih (by omega)
      have notAssigned : ¬ (m.after (k + 1)).Assigns m.framePtr slot := by
        intro assigns
        by_cases nothing : value = .null
        · exact unassigned nothing (k + 1) (by omega) before assigns
        · exact holds.refuses nothing (filled.continues.addressable (k + 1) (by omega)) assigns
            (filled.continues.sound (k + 1) before)
      exact holds.step coherent isSlot (filled.continues.addressable (k + 1) (by omega))
        (filled.continues.step before) (filled.continues.running (k + 1 + 1) (by omega))
        (filled.lasts (k + 1) before) (filled.once (k + 1) (by omega) before) notAssigned
  have positive := filled.positive
  have last := upTo (count - 1) (by omega)
  rwa [Nat.sub_add_cancel positive] at last

/-- A run keeps track of the open frames. -/
theorem runs_after (coherent : layout.Coherent) (runs : layout.Runs m owner outer)
    (continues : m.Continues count) :
    ∃ function outer', layout.Runs (m.after count) function outer' := by
  have upTo : ∀ k, k ≤ count → ∃ function outer', layout.Runs (m.after k) function outer' := by
    intro k le
    induction k with
    | zero => exact ⟨owner, outer, runs⟩
    | succ k ih =>
      obtain ⟨function, outer', before⟩ := ih (by omega)
      obtain ⟨function', outer'', later, _⟩ := before.step coherent
        (continues.addressable k (by omega)) (continues.step le) (continues.running (k + 1) le)
      exact ⟨function', outer'', later⟩
  exact upTo count (Nat.le_refl _)

end Runs

end Layout

namespace Lowering

open Assembly

variable {nodes : List (Node Tag)} {annotations : Annotations} {starts : String → Option Nat}
  {owner function slot id : Nat} {made : List (Nat × Nat)} {code : List Instruction} {region : Region}

/-- The unchecked stores to a slot of a function. -/
def declarations (function slot : Nat) (part : List (Nat × Instruction)) : Nat :=
  part.countP fun entry => entry.1 == function && entry.2.declares slot

@[simp] theorem declarations_nil : declarations function slot [] = 0 := rfl

theorem declarations_append (part part' : List (Nat × Instruction)) :
    declarations function slot (part ++ part') =
      declarations function slot part + declarations function slot part' := by
  simp [declarations]

theorem declarations_cons (entry : Nat × Instruction) (part : List (Nat × Instruction)) :
    declarations function slot (entry :: part) =
      declarations function slot part +
        if entry.1 == function && entry.2.declares slot then 1 else 0 := by
  simp [declarations, List.countP_cons]

/-- A slot that belongs to one variable, which may be assigned once, is stored to without a check no
more often than this variable is declared. Only two instructions store without a check, and that of
an assignment is there for a variable that may be assigned again, which this one may not. -/
theorem declarations_le (beginnings : Beginnings nodes annotations starts)
    (isFragment : Fragment nodes annotations owner made code) (legible : Legible region code)
    (isOwner : region.owner = owner)
    (single : ∀ tag mutability name type value, .declare tag mutability name type value ∈ nodes →
      HasSlot annotations function tag.id slot → tag.id = id ∧ mutability = .val) :
    declarations function slot (attributed starts region code) ≤ made.count (function, id) := by
  induction isFragment generalizing region with
  | nil => exact Nat.zero_le _
  | append one two ihOne ihTwo =>
    rw [attributed_append, after_fragment beginnings one legible.left, declarations_append,
      List.count_append]
    exact Nat.add_le_add (ihOne legible.left isOwner) (ihTwo legible.right isOwner)
  | @plain instruction owner isPlain =>
    have noLabel : instruction.labelName? = none := by
      cases instruction <;> first | rfl | cases isPlain
    have silent : instruction.declares slot = false := by
      cases instruction <;> first | rfl | cases isPlain
    simp [attributed_cons _ noLabel, attributed, declarations, silent]
  | load | assignOnce | call => simp [attributed, declarations, Instruction.declares]
  | declare src isNode has =>
    simp only [attributed, isOwner, declarations_cons, declarations_nil, Nat.zero_add]
    split
    next same =>
      simp only [Instruction.declares, Bool.and_eq_true, beq_iff_eq] at same
      obtain ⟨rfl, rfl⟩ := same
      rw [(single _ _ _ _ _ isNode has).1]
      simp
    next => exact Nat.zero_le _
  | assign src isNode has =>
    simp only [attributed, isOwner, declarations_cons, declarations_nil, Nat.zero_add]
    split
    next same =>
      simp only [Instruction.declares, Bool.and_eq_true, beq_iff_eq] at same
      obtain ⟨rfl, rfl⟩ := same
      cases (single _ _ _ _ _ isNode has).2
    next => exact Nat.zero_le _
  | halves test isOtherwise isPast one two ihOne ihTwo =>
    obtain ⟨legibleOne, legibleTwo⟩ := legible_halves legible
    rw [attributed_halves beginnings isOtherwise legible (after_fragment beginnings one legibleOne),
      isOwner]
    have := ihOne legibleOne isOwner
    have := ihTwo legibleTwo isOwner
    simp only [declarations_cons, declarations_append, Instruction.declares, Bool.and_false,
      List.count_append, Bool.false_eq_true, if_false]
    omega
  | loop test isAgain isPast one two ihOne ihTwo =>
    obtain ⟨legibleOne, legibleTwo⟩ := legible_loop legible
    rw [attributed_loop beginnings isAgain legible (after_fragment beginnings one legibleOne)
      (after_fragment beginnings two legibleTwo), isOwner]
    have := ihOne legibleOne isOwner
    have := ihTwo legibleTwo isOwner
    simp only [declarations_cons, declarations_append, declarations_nil, Instruction.declares,
      Bool.and_false, List.count_append, Bool.false_eq_true, if_false]
    omega
  | @function tag name params body type made entry locals inner owner reg given last isNode address
      noted isBody ih =>
    have legibleInner := legible_inside tag.id legible
    rw [attributed_function beginnings isNode address
      (after_fragment beginnings isBody legibleInner), isOwner]
    have := ih legibleInner rfl
    simp only [functionPart, declarations_cons, declarations_append, declarations_nil,
      Instruction.declares, Bool.and_false, Bool.false_eq_true, if_false]
    omega

end Lowering

/-- Every node below an owner of a frame stands in some owner. -/
theorem Node.exists_owner {root node : Node Tag} (owns : Frames.ownsFrame root = true)
    (isNode : node ∈ root.preorder) :
    node = root ∨ ∃ owner ∈ root.preorder, Frames.ownsFrame owner = true ∧ owner.StandsIn node := by
  have below : ∀ outer : Node Tag, node ∈ outer.preorder → node = outer ∨ outer.StandsIn node ∨
      ∃ owner ∈ outer.preorder, Frames.ownsFrame owner = true ∧ owner.StandsIn node := by
    intro outer isNode
    induction outer using Node.childInduction with
    | step outer ih =>
      rcases Node.mem_preorder.mp isNode with same | ⟨child, isChild, inChild⟩
      · exact .inl same
      · rcases ih child isChild inChild with rfl | stands | ⟨owner, isOwner, owns, stands⟩
        · exact .inr (.inl (.child isChild))
        · cases ownsChild : Frames.ownsFrame child with
          | true =>
            have isOwner := Node.preorder_subset_of_child isChild (Node.self_mem_preorder child)
            exact .inr (.inr ⟨child, isOwner, ownsChild, stands⟩)
          | false => exact .inr (.inl (.through isChild ownsChild stands))
        · exact .inr (.inr ⟨owner, Node.preorder_subset_of_child isChild isOwner, owns, stands⟩)
  rcases below root isNode with same | stands | found
  · exact .inl same
  · exact .inr ⟨root, Node.self_mem_preorder root, owns, stands⟩
  · exact .inr found

namespace Program

variable {typeCheck : Bool} {anonymous source : String} {program : Program}

/-- A state in a run of a program, which starts outside of all frames. -/
def Reaches (program : Program) (m : Machine) : Prop :=
  ∃ (start : Machine) (count : Nat), start.framePtr = 0 ∧
    (start.load program.code program.pool.values).Continues count ∧
    m = (start.load program.code program.pool.values).after count

namespace Stages

variable (stages : Stages typeCheck anonymous source program)

/-- The function that the instruction at an address belongs to. -/
def ownerAt (pc : Nat) : Option Nat :=
  ((stages.document.attributed stages.labelled)[pc]?).map Prod.fst

variable {stages}

/-- A loaded program runs, with the frame of the program open. -/
theorem runs_load {start : Machine} (framePtr : start.framePtr = 0) :
    stages.layout.Runs (start.load program.code program.pool.values) stages.layout.root [] := by
  refine ⟨rfl, ?_, .inr (.inside stages.coherent.start ?_)⟩
  · rw [Machine.load, framePtr]
    exact .program
  · rwa [Layout.Rests, if_pos rfl, Machine.load]

/-- In a run of a program the function that is executed is the one that the instruction belongs
to. -/
theorem runs_of_reaches {m : Machine} {owner : Nat} (reaches : program.Reaches m)
    (isOwner : stages.ownerAt m.pc = some owner) : ∃ outer, stages.layout.Runs m owner outer := by
  obtain ⟨start, count, framePtr, continues, rfl⟩ := reaches
  obtain ⟨function, outer, runs⟩ :=
    Layout.runs_after stages.coherent (stages.runs_load framePtr) continues
  obtain ⟨instruction, here⟩ := runs.here
  obtain ⟨labelled, owned, _⟩ := here.owned
  have same : stages.ownerAt _ = some function := congrArg (Option.map Prod.fst) owned
  rw [isOwner] at same
  cases same
  exact ⟨outer, runs⟩

theorem sound_of_reaches (stages : Stages typeCheck anonymous source program) {m : Machine}
    (reaches : program.Reaches m) (count : Nat) : m.Sound count := by
  obtain ⟨start, before, framePtr, continues, rfl⟩ := reaches
  exact (stages.agrees_load framePtr (before + count)).sound.after continues

/-- Every function has its table of slots. -/
theorem hasTable {owner : Node Tag} (isOwner : owner ∈ stages.document.root.preorder)
    (owns : Frames.ownsFrame owner = true) : ∃ table, stages.document.HasTable owner table := by
  obtain ⟨sameRoot, extended, _⟩ :=
    Program.hasCode_of_compile stages.parse stages.analyse stages.collect stages.compile
  obtain ⟨table, has⟩ := Program.hasTable_of_analyse stages.parse stages.analyse
    (by rwa [sameRoot] at isOwner) owns
  exact ⟨table, has.extend extended⟩

/-- Every variable stands in a function. -/
theorem exists_owner (stages : Stages typeCheck anonymous source program) {node : Node Tag}
    (isNode : node ∈ stages.document.root.preorder) (isVariable : Frames.isVariable node = true) :
    ∃ owner ∈ stages.document.root.preorder, Frames.ownsFrame owner = true ∧
      owner.StandsIn node := by
  obtain ⟨prepared⟩ := stages.prepared
  have owns : Frames.ownsFrame stages.document.root = true := by
    rw [prepared.isRoot]
    rfl
  rcases Node.exists_owner owns isNode with isRoot | found
  · rw [isRoot, prepared.isRoot] at isVariable
    cases isVariable
  · exact found

theorem slot_of_hasSlot {owner : Node Tag} {table : Locals} {id slot : Nat}
    (has : stages.document.HasTable owner table)
    (hasSlot : Lowering.HasSlot stages.document.annotations owner.id id slot) :
    table.ids[slot]? = some id ∧ slot < stages.layout.slots owner.id := by
  obtain ⟨locals, noted, member, index⟩ := hasSlot
  have same : locals = table := Option.some.inj (noted.symm.trans has.noted)
  subst same
  obtain ⟨slot', found⟩ := List.mem_iff_getElem?.mp member
  have sameSlot := has.indexed slot' id found
  rw [index] at sameSlot
  cases sameSlot
  have inside := (List.getElem?_eq_some_iff.mp found).1
  rw [Locals.length_ids] at inside
  have noted : (stages.layout.annotations.get owner.id).locals = some locals := noted
  exact ⟨found, by simpa [Layout.slots, noted] using inside⟩

/-- A slot in the table of a function belongs to one declaration. -/
theorem eq_of_hasSlot {owner node other : Node Tag} {table : Locals} {slot : Nat}
    (has : stages.document.HasTable owner table) (isNode : node ∈ stages.document.root.preorder)
    (isOther : other ∈ stages.document.root.preorder) (found : table.ids[slot]? = some node.id)
    (hasSlot : Lowering.HasSlot stages.document.annotations owner.id other.id slot) :
    other = node := by
  obtain ⟨prepared⟩ := stages.prepared
  have found' := (slot_of_hasSlot has hasSlot).1
  rw [found] at found'
  exact List.inj_on_of_nodup_map prepared.resolved.distinct isOther isNode
    (Option.some.inj found').symm

/-- A value that is written to the declaration of a variable leaves no assignments of it. -/
theorem not_assigned {owner : Node Tag} {table : Locals} {tag : Tag} {name : String}
    {type : Option String} {value : Node Tag} {slot : Nat} {instruction : Instruction}
    (has : stages.document.HasTable owner table)
    (isNode : .declare tag .val name type value ∈ stages.document.root.preorder)
    (found : table.ids[slot]? = some tag.id) (written : value.isUnit = false)
    (member : (owner.id, instruction) ∈ stages.document.attributed stages.labelled) :
    instruction.assigns slot = false := by
  cases instruction with
  | storeOnce src other =>
    rw [Instruction.assigns, beq_eq_false_iff_ne]
    rintro rfl
    obtain ⟨pc, owned⟩ := List.mem_iff_getElem?.mp member
    have inside := (List.getElem?_eq_some_iff.mp owned).1
    have covered : (stages.document.attributed stages.labelled).length = stages.layout.code.size :=
      stages.coherent.covered
    obtain ⟨function, resolved, here, flows⟩ :=
      stages.coherent.settled pc (Nat.zero_le _) (by omega)
    obtain ⟨labelled, owned', same⟩ := here.owned
    cases owned.symm.trans owned'
    cases same
    obtain ⟨⟨tag', name', type', value', isOther, isUnit, hasSlot⟩, _⟩ := flows
    have sameNode := eq_of_hasSlot has isNode isOther found hasSlot
    cases sameNode
    rw [written] at isUnit
    cases isUnit
  | _ => rfl

/-- The slot of a variable that may be assigned once has one unchecked store at most. -/
theorem declarations_le_one {owner : Node Tag} {table : Locals} {tag : Tag} {name : String}
    {type : Option String} {value : Node Tag} {slot : Nat}
    (has : stages.document.HasTable owner table)
    (isNode : .declare tag .val name type value ∈ stages.document.root.preorder)
    (found : table.ids[slot]? = some tag.id) :
    Lowering.declarations owner.id slot (stages.document.attributed stages.labelled) ≤ 1 := by
  obtain ⟨prepared⟩ := stages.prepared
  obtain ⟨body, made, locals, hasCode, isCode⟩ := stages.hasCode
  have single : ∀ tag' mutability' name' type' value',
      .declare tag' mutability' name' type' value' ∈ stages.document.root.preorder →
      Lowering.HasSlot stages.document.annotations owner.id tag'.id slot →
      tag'.id = tag.id ∧ mutability' = .val := by
    intro tag' mutability' name' type' value' isOther hasSlot
    have same := eq_of_hasSlot has isNode isOther found hasSlot
    cases same
    exact ⟨rfl, rfl⟩
  have bound := Lowering.declarations_le hasCode.beginnings hasCode.fragment hasCode.legible rfl single
  have counted : made.count (owner.id, tag.id) ≤ 1 :=
    calc made.count (owner.id, tag.id)
      _ ≤ (made.map Prod.snd).count tag.id :=
        List.count_le_count_map (f := Prod.snd)
      _ ≤ (stages.document.root.preorder.map Node.id).count tag.id := hasCode.counted tag.id
      _ ≤ 1 := List.nodup_iff_count_le_one.mp prepared.resolved.distinct tag.id
  rw [isCode, Document.attributed, Assembly.attributed_append, Lowering.declarations_append]
  have halt : Lowering.declarations owner.id slot (Assembly.attributed stages.document.functionAt?
      (Assembly.Region.after stages.document.functionAt? ⟨stages.document.root.id, []⟩ body)
      [.halt]) = 0 := by
    simp [Assembly.attributed, Lowering.declarations, Instruction.declares]
  omega

/-- What becomes of an assignment is told by the value that was given before. -/
theorem assignment {m : Machine} {owner slot count : Nat} {given : Value}
    (reaches : program.Reaches m) (isOwner : stages.ownerAt m.pc = some owner)
    (isSlot : slot < stages.layout.slots owner) (filled : m.HasFilled slot given count)
    (unassigned : given = .null → ∀ k, 0 < k → k < count → ¬ (m.after k).Assigns m.framePtr slot)
    (assigns : (m.after count).Assigns m.framePtr slot) :
    (m.after count).step.2 = if given = .null then none
      else some ⟨(m.after count).pc, .alreadyAssigned (m.framePtr + slot + 1)⟩ := by
  obtain ⟨outer, runs⟩ := stages.runs_of_reaches reaches isOwner
  obtain ⟨_, _, _, _, cell⟩ :=
    Layout.holds_after stages.coherent runs isSlot filled unassigned
  have sound := (stages.sound_of_reaches reaches (count + 1)).after filled.continues
  obtain ⟨src, fetch⟩ := Machine.exists_assigns assigns
  have addressable := filled.continues.addressable count (Nat.le_refl _)
  obtain ⟨value, written⟩ := sound.written (filled.continues.running count (Nat.le_refl _))
    addressable fetch
  rw [← assigns.1] at cell ⊢
  have fits := (Machine.isAddressable_iff.mp addressable).2.1
  have plan := Machine.plan_storeOnce fits cell written
  split
  next nothing =>
    rw [if_pos nothing] at plan
    rw [Machine.step_of_plan fetch rfl plan]
  next something =>
    rw [if_neg something] at plan
    rw [Machine.step_of_fault fetch rfl plan]

end Stages

/-- A variable that may be assigned once. Its declaration stands in a function and has a slot there.
The code of the function stores to the slot without a check in one place at most, and if a value is
written to the declaration, it has no other stores to the slot. Once an activation of the function has
given the variable a value, and as long as the activation lasts and the declaration is not executed
again, an assignment fails because the variable is already assigned, whatever happens in between. The
value of nothing is an exception: a variable that was given this one can still be assigned. -/
theorem val_given_once (compiled : Program.ofSource typeCheck anonymous source = .ok program) :
    ∃ stages : Stages typeCheck anonymous source program,
      ∀ tag name type value, .declare tag .val name type value ∈ stages.document.root.preorder →
        (∃ owner ∈ stages.document.root.preorder, Frames.ownsFrame owner = true ∧
          owner.StandsIn (.declare tag .val name type value) ∧
          ∃ slot, Lowering.HasSlot stages.document.annotations owner.id tag.id slot) ∧
        ∀ owner ∈ stages.document.root.preorder, Frames.ownsFrame owner = true →
          ∀ slot, Lowering.HasSlot stages.document.annotations owner.id tag.id slot →
            Lowering.declarations owner.id slot (stages.document.attributed stages.labelled) ≤ 1 ∧
            (value.isUnit = false → ∀ instruction,
              (owner.id, instruction) ∈ stages.document.attributed stages.labelled →
                instruction.assigns slot = false) ∧
            ∀ m, program.Reaches m → stages.ownerAt m.pc = some owner.id →
              ∀ given count, m.HasFilled slot given count →
                (m.after count).Assigns m.framePtr slot →
                (given ≠ .null → (m.after count).step.2 =
                  some ⟨(m.after count).pc, .alreadyAssigned (m.framePtr + slot + 1)⟩) ∧
                (given = .null →
                  (∀ k, 0 < k → k < count → ¬ (m.after k).Assigns m.framePtr slot) →
                  (m.after count).step.2 = none) := by
  obtain ⟨stages⟩ := Program.stages_of_ofSource compiled
  refine ⟨stages, ?_⟩
  intro tag name type value isNode
  have tables := fun owner isOwner owns => @Stages.hasTable _ _ _ _ stages owner isOwner owns
  constructor
  · obtain ⟨owner, isOwner, owns, stands⟩ := stages.exists_owner isNode rfl
    obtain ⟨table, has⟩ := tables owner isOwner owns
    have member : tag.id ∈ table.ids := (has.lists tag.id).mpr ⟨_, stands, rfl, rfl⟩
    obtain ⟨slot, found⟩ := List.mem_iff_getElem?.mp member
    exact ⟨owner, isOwner, owns, stands, slot, table, has.noted, member,
      has.indexed slot tag.id found⟩
  · intro owner isOwner owns slot hasSlot
    obtain ⟨table, has⟩ := tables owner isOwner owns
    obtain ⟨found, isSlot⟩ := Stages.slot_of_hasSlot has hasSlot
    refine ⟨Stages.declarations_le_one has isNode found, ?_, ?_⟩
    · intro written instruction member
      exact Stages.not_assigned has isNode found written member
    · intro m reaches isOwner given count filled assigns
      refine ⟨fun something => ?_, fun nothing unassigned => ?_⟩
      · have outcome := Stages.assignment reaches isOwner isSlot filled
          (fun nothing => absurd nothing something) assigns
        rwa [if_neg something] at outcome
      · have outcome := Stages.assignment reaches isOwner isSlot filled (fun _ => unassigned) assigns
        rwa [if_pos nothing] at outcome

/-- Two assignments, and between them a call of a function that has a variable of its own. -/
def assignedTwice : String :=
  "def g(n) \x7b val y = n; y \x7d; val x; x = 0; g(5); x = 1"

/-- The tree and the labelled code of a text that is lowered. -/
def lowered? (typeCheck : Bool) (anonymous source : String) :
    Option (Document × List Instruction) := do
  let parsed ← (Document.parse anonymous source).toOption
  let analysed ← (Program.analyse typeCheck parsed).toOption
  let (collected, _) ← analysed.collectConstants.toOption
  let (document, compiled) ← collected.compile.toOption
  return (document, compiled.code)

theorem Stages.lowered (stages : Stages typeCheck anonymous source program) :
    lowered? typeCheck anonymous source = some (stages.document, stages.labelled) := by
  simp [lowered?, stages.parse, stages.analyse, stages.collect, stages.compile, Except.toOption]

/-- The declaration of a variable that may be assigned once. -/
def isVal : Node Tag → Bool
  | .declare _ .val _ _ _ => true
  | _ => false

theorem exists_val {node : Node Tag} (declared : isVal node = true) :
    ∃ tag name type value, node = .declare tag .val name type value := by
  cases node with
  | declare tag mutability name type value =>
    cases mutability with
    | val => exact ⟨tag, name, type, value, rfl⟩
    | var => cases declared
  | _ => cases declared

/-- The second assignment fails. The variable is in slot 0 of the function that the instruction at
17 belongs to. -/
theorem val_given_once_of_call :
    ∃ program, Program.ofSource false "main" assignedTwice = .ok program ∧
      ∃ m, program.Reaches m ∧ m.HasFilled 0 (.int 0) 13 ∧ (m.after 13).Assigns m.framePtr 0 ∧
        (m.after 13).step.2 = some ⟨22, .alreadyAssigned 2⟩ := by
  have runs : ((Program.ofSource false "main" assignedTwice).toOption.any
      fun (program : Program) => decide (
        let m := ((Machine.new 16).load program.code program.pool.values).after 10
        ((Machine.new 16).load program.code program.pool.values).Continues 10 ∧ m.Continues 13 ∧
          m.pc = 17 ∧ m.framePtr = 1 ∧
          m.code[17]? = some (.storeOnce 6 0) ∧ m.registers.read 6 = some (.int 0) ∧
          (∀ k < 13, ¬ (m.after k).ReturnsFrom 1) ∧ (∀ k < 13, ¬ (m.after k).Declares 1 0) ∧
          (m.after 13).Assigns 1 0 ∧ (m.after 13).pc = 22)) = true := by
    decide +kernel
  have declares : ((lowered? false "main" assignedTwice).map fun lowered =>
      lowered.1.root.preorder.any fun node => lowered.1.root.preorder.any fun owner =>
        isVal node && Frames.ownsFrame owner &&
        (lowered.1.annotations.get owner.id).locals.any (fun locals => locals.ids.contains node.id) &&
        (lowered.1.annotations.get node.id).index == some 0 &&
        ((lowered.1.attributed lowered.2)[17]?).map Prod.fst == some owner.id) = some true := by
    decide +kernel
  obtain ⟨program, found, runs⟩ := (Option.any_eq_true _ _).mp runs
  obtain ⟨reached, goes, pc, frame, fetch, written, lasts, once, assigns, last⟩ :=
    of_decide_eq_true runs
  have compiled := ok_of_toOption found
  obtain ⟨stages, single⟩ := val_given_once compiled
  rw [stages.lowered, Option.map_some, Option.some.injEq, List.any_eq_true] at declares
  obtain ⟨node, isNode, declares⟩ := declares
  rw [List.any_eq_true] at declares
  obtain ⟨owner, isOwner, declares⟩ := declares
  simp only [Bool.and_eq_true, beq_iff_eq, Option.any_eq_true, List.contains_iff_mem] at declares
  obtain ⟨⟨⟨⟨declared, owns⟩, locals, noted, member⟩, index⟩, isAt⟩ := declares
  obtain ⟨tag, name, type, value, rfl⟩ := exists_val declared
  let m := ((Machine.new 16).load program.code program.pool.values).after 10
  have reaches : program.Reaches m := ⟨.new 16, 10, rfl, reached, rfl⟩
  have filled : m.HasFilled 0 (.int 0) 13 := by
    refine ⟨⟨6, .inr ?_, written⟩, by decide, goes, ?_, ?_⟩
    · rw [pc, fetch]
    · rwa [frame]
    · intro k _ less
      rw [frame]
      exact once k less
  have assigns : (m.after 13).Assigns m.framePtr 0 := by rwa [frame]
  have isAt : stages.ownerAt m.pc = some owner.id := by
    rw [pc]
    exact isAt
  have outcome := ((single _ _ _ _ isNode).2 owner isOwner owns 0
    ⟨locals, noted, member, index⟩).2.2 m reaches isAt (.int 0) 13 filled assigns
  refine ⟨program, compiled, m, reaches, filled, assigns, ?_⟩
  rw [outcome.1 (by simp), last, frame]

/-- The value of nothing, and then another one. -/
def assignedAgain : String :=
  "val x\nx = ()\nx = 1\nx"

/-- Both assignments are made. -/
theorem val_given_again :
    ∃ program, Program.ofSource false "main" assignedAgain = .ok program ∧
      ∃ m, Machine.run 40 ((Machine.new 16).load program.code program.pool.values) = some (m, none) ∧
        m.registers.read resultReg = some (.int 1) := by
  have runs : ((Program.ofSource false "main" assignedAgain).toOption.any
      fun (program : Program) =>
        (Machine.run 40 ((Machine.new 16).load program.code program.pool.values)).any
          fun ended => ended.2 == none && ended.1.registers.read resultReg == some (.int 1)) = true := by
    decide +kernel
  obtain ⟨program, found, runs⟩ := (Option.any_eq_true _ _).mp runs
  obtain ⟨⟨m, error⟩, ran, result⟩ := (Option.any_eq_true _ _).mp runs
  simp only [Bool.and_eq_true, beq_iff_eq] at result
  rw [result.1] at ran
  exact ⟨program, ok_of_toOption found, m, ran, result.2⟩

end Program

end ScriptVM
