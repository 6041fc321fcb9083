import ScriptVM.Proofs.Emitted
import ScriptVM.Proofs.Ownership

/-!
Where the code of a function goes.

The code of a program in memory consists of blocks. A block belongs to one function, begins at one
address and ends at another, and follows the grammar of fragments, with addresses for labels. From
inside a block control goes on inside it or at its end. So inside a function every instruction is
followed by instructions of this function, but for a call, which goes to where a function begins, and
for the return.
-/
namespace ScriptVM

/-- An instruction inside the code of a function, after its frame was made and before the return. -/
def Instruction.isInner : Instruction → Bool
  | .label _ | .reserve _ | .save _ | .ret => false
  | _ => true

/-- A program in memory, and what the text that it was made of tells about it. -/
structure Layout extends Image where
  /-- The identity of the program itself. -/
  root : Nat
  /-- The instructions, each with the function that it belongs to. -/
  owned : List (Nat × Instruction)

namespace Layout

open Assembly
open Lowering (Beginnings Fragment HasSlot IsInner)

variable (layout : Layout)

/-- At an address stands an instruction that belongs to a function. -/
structure At (pc function : Nat) (instruction : Instruction) : Prop where
  owned : ∃ labelled, layout.owned[pc]? = some (function, labelled) ∧
    resolve layout.table labelled = .ok instruction
  stands : layout.code[pc]? = some instruction

/-- An address inside the code of a function. -/
def Inner (function pc : Nat) : Prop :=
  ∃ instruction, layout.At pc function instruction ∧ instruction.isInner = true

/-- Where the code of a function begins. -/
def entry (function : Nat) : Nat :=
  layout.annotations.entry layout.table function

/-- The number of slots in the frame of a function. -/
def slots (function : Nat) : Nat :=
  ((layout.annotations.get function).locals.map Locals.size).getD 0

/-- The registers that a function saves. -/
def saved (function : Nat) : List Nat :=
  match layout.code[layout.entry function + 1]? with
  | some (.save regs) => regs
  | _ => []

/-- An instruction of a function that the next one follows, in the end. -/
def Straight (function : Nat) : Instruction → Prop
  | .loadSlot _ slot | .storeSlot _ slot =>
    ∃ declaration, HasSlot layout.annotations function declaration slot
  | .storeOnce _ slot => ∃ tag name type value, .declare tag .val name type value ∈ layout.nodes ∧
    value.isUnit = true ∧ HasSlot layout.annotations function tag.id slot
  | .call (.address address) regs => ∃ tag name params body type,
    .define tag name params body type ∈ layout.nodes ∧ address = layout.entry tag.id ∧
      params.length = regs.length
  | instruction => Lowering.isPlain instruction = true

/-- A block of code of a function, from an address up to another, with the functions inside it. -/
inductive Block : Nat → List Nat → Nat → Nat → Prop
  | nil (owner p : Nat) : Block owner [] p p
  | append {owner p r q : Nat} {inside inside' : List Nat} (one : Block owner inside p r)
      (two : Block owner inside' r q) : Block owner (inside ++ inside') p q
  | one {owner p : Nat} {instruction : Instruction} (here : layout.At p owner instruction)
      (straight : layout.Straight owner instruction) : Block owner [] p (p + 1)
  | halves {owner p m q test : Nat} {inside inside' : List Nat}
      (branch : layout.At p owner (.branchZero test (.address (m + 1))))
      (one : Block owner inside (p + 1) m) (jump : layout.At m owner (.jump (.address q)))
      (two : Block owner inside' (m + 1) q) : Block owner (inside ++ inside') p q
  | loop {owner p m n test : Nat} {inside inside' : List Nat} (one : Block owner inside p m)
      (branch : layout.At m owner (.branchZero test (.address (n + 1))))
      (two : Block owner inside' (m + 1) n) (jump : layout.At n owner (.jump (.address p))) :
      Block owner (inside ++ inside') p (n + 1)
  | function {owner function p r reg last : Nat} {given inside : List Nat}
      (load : layout.At p owner (.loadAddress reg (.address (p + 2))))
      (jump : layout.At (p + 1) owner (.jump (.address (r + 3))))
      (notRoot : function ≠ layout.root) (isEntry : layout.entry function = p + 2)
      (reserve : layout.At (p + 2) function (.reserve (layout.slots function)))
      (save : layout.At (p + 3) function (.save given)) (body : Block function inside (p + 4) r)
      (copy : layout.At r function (.copy resultReg last))
      (restore : layout.At (r + 1) function (.restore given))
      (ret : layout.At (r + 2) function .ret) : Block owner (function :: inside) p (r + 3)

/-- Instructions stand at an address with the functions they belong to. -/
def Owns (p : Nat) (part : List (Nat × Instruction)) : Prop :=
  ∀ offset entry, part[offset]? = some entry → layout.owned[p + offset]? = some entry

variable {layout} {p q pc function function' : Nat} {instruction instruction' : Instruction}
  {part part' : List (Nat × Instruction)} {rest : List Instruction}

theorem Owns.append (owns : layout.Owns p (part ++ part')) :
    layout.Owns p part ∧ layout.Owns (p + part.length) part' := by
  constructor
  · intro offset entry found
    have inside := (List.getElem?_eq_some_iff.mp found).1
    apply owns
    rw [List.getElem?_append_left inside, found]
  · intro offset entry found
    rw [Nat.add_assoc]
    apply owns
    rw [List.getElem?_append_right (Nat.le_add_right _ _), Nat.add_sub_cancel_left, found]

theorem Owns.head {entry : Nat × Instruction} (owns : layout.Owns p (entry :: part)) :
    layout.owned[p]? = some entry :=
  owns 0 entry rfl

theorem Owns.tail {entry : Nat × Instruction} (owns : layout.Owns p (entry :: part)) :
    layout.Owns (p + 1) part := by
  have split : layout.Owns p ([entry] ++ part) := owns
  exact split.append.2

/-- An instruction that assembly put somewhere. -/
def Stands (layout : Layout) (p : Nat) (instruction : Instruction) : Prop :=
  ∃ resolved, resolve layout.table instruction = .ok resolved ∧ layout.code[p]? = some resolved

theorem Stands.at_plain (stands : layout.Stands p instruction)
    (noTarget : instruction.target? = none)
    (owned : layout.owned[p]? = some (function, instruction)) :
    layout.At p function instruction := by
  obtain ⟨resolved, found, here⟩ := stands
  have same : resolve layout.table instruction = .ok instruction := by
    simp only [resolve, noTarget]
  rw [same] at found
  cases found
  exact ⟨⟨_, owned, same⟩, here⟩

theorem Stands.at_target {label : String} {address : Nat} (stands : layout.Stands p instruction)
    (target : instruction.target? = some (.label label))
    (known : layout.table.lookup label = some address)
    (owned : layout.owned[p]? = some (function, instruction)) :
    layout.At p function (instruction.withTarget (.address address)) := by
  obtain ⟨resolved, found, here⟩ := stands
  refine ⟨⟨_, owned, ?_⟩, ?_⟩
  · simp only [resolve, target, known]
  · simp only [resolve, target, known] at found
    cases found
    exact here

theorem At.unique (one : layout.At pc function instruction)
    (two : layout.At pc function' instruction') :
    function' = function ∧ instruction' = instruction := by
  obtain ⟨⟨_, owner, _⟩, stands⟩ := one
  obtain ⟨⟨_, owner', _⟩, stands'⟩ := two
  rw [owner] at owner'
  rw [stands] at stands'
  cases owner'
  cases stands'
  exact ⟨rfl, rfl⟩

section Conversion

variable {starts : String → Option Nat} {owner : Nat} {made : List (Nat × Nat)} {region : Region}
  {code : List Instruction}

theorem length_attributed (starts : String → Option Nat) (region : Region)
    (code : List Instruction) : (attributed starts region code).length = width code := by
  rw [← List.length_map Prod.snd, map_snd_attributed, width, List.countP_eq_length_filter]

/-- The functions that begin in a piece of code. -/
def begun (starts : String → Option Nat) (code : List Instruction) : List Nat :=
  (placedLabels code).filterMap starts

@[simp] theorem begun_append (starts : String → Option Nat) (first second : List Instruction) :
    begun starts (first ++ second) = begun starts first ++ begun starts second := by
  simp [begun]

section Composite

variable {first second inner : List Instruction} {test slots reg last : Nat} {given : List Nat}
  {otherwise again past entry : String}

theorem width_halves : width (Lowering.halvesCode test otherwise past first second) =
    1 + width first + 1 + width second := by
  simp [Lowering.halvesCode, width_step, Instruction.labelName?]
  omega

theorem width_loop : width (Lowering.loopCode test again past first second) =
    width first + 1 + width second + 1 := by
  simp [Lowering.loopCode, width_step, Instruction.labelName?]
  omega

theorem width_function : width (Lowering.functionCode reg entry slots given inner last) =
    4 + width inner + 3 := by
  simp [Lowering.functionCode, width_step, Instruction.labelName?]
  omega

/-- Where the parts of a branch are placed, and its labels with them. -/
theorem placed_halves (placed : Placed layout.table layout.code p
      (Lowering.halvesCode test otherwise past first second)) :
    layout.Stands p (.branchZero test (.label otherwise)) ∧
      Placed layout.table layout.code (p + 1) first ∧
      layout.Stands (p + 1 + width first) (.jump (.label past)) ∧
      layout.table.lookup otherwise = some (p + 1 + width first + 1) ∧
      Placed layout.table layout.code (p + 1 + width first + 1) second ∧
      layout.table.lookup past = some (p + 1 + width first + 1 + width second) := by
  simp only [Lowering.halvesCode, placed_append, Placed, width_append, width_step, width_nil,
    Instruction.labelName?, Option.isNone_none, Option.isNone_some, Bool.toNat_true, Bool.toNat_false,
    Nat.zero_add, ← Nat.add_assoc] at placed
  obtain ⟨⟨⟨⟨⟨branch, -⟩, placedOne⟩, jump, knownOtherwise, -⟩, placedTwo⟩, knownPast, -⟩ := placed
  exact ⟨branch, placedOne, jump, knownOtherwise, placedTwo, knownPast⟩

theorem placed_loop (placed : Placed layout.table layout.code p
      (Lowering.loopCode test again past first second)) :
    layout.table.lookup again = some p ∧ Placed layout.table layout.code p first ∧
      layout.Stands (p + width first) (.branchZero test (.label past)) ∧
      Placed layout.table layout.code (p + width first + 1) second ∧
      layout.Stands (p + width first + 1 + width second) (.jump (.label again)) ∧
      layout.table.lookup past = some (p + width first + 1 + width second + 1) := by
  simp only [Lowering.loopCode, placed_append, Placed, width_append, width_step, width_nil,
    Instruction.labelName?, Option.isNone_none, Option.isNone_some, Bool.toNat_true, Bool.toNat_false,
    Nat.zero_add, Nat.add_zero, ← Nat.add_assoc] at placed
  obtain ⟨⟨⟨⟨⟨knownAgain, -⟩, placedOne⟩, branch, -⟩, placedTwo⟩, jump, knownPast, -⟩ := placed
  exact ⟨knownAgain, placedOne, branch, placedTwo, jump, knownPast⟩

theorem placed_function (placed : Placed layout.table layout.code p
      (Lowering.functionCode reg entry slots given inner last)) :
    layout.Stands p (.loadAddress reg (.label entry)) ∧
      layout.Stands (p + 1) (.jump (.label (entry ++ "_end"))) ∧
      layout.table.lookup entry = some (p + 2) ∧ layout.Stands (p + 2) (.reserve slots) ∧
      layout.Stands (p + 3) (.save given) ∧ Placed layout.table layout.code (p + 4) inner ∧
      layout.Stands (p + 4 + width inner) (.copy resultReg last) ∧
      layout.Stands (p + 4 + width inner + 1) (.restore given) ∧
      layout.Stands (p + 4 + width inner + 2) .ret ∧
      layout.table.lookup (entry ++ "_end") = some (p + 4 + width inner + 3) := by
  simp only [Lowering.functionCode, placed_append, Placed, width_append, width_step, width_nil,
    Instruction.labelName?, Option.isNone_none, Option.isNone_some, Bool.toNat_true, Bool.toNat_false,
    Nat.zero_add, Nat.add_zero, ← Nat.add_assoc] at placed
  obtain ⟨⟨⟨load, jump, known, reserve, save, -⟩, placedBody⟩, copy, restore, ret, knownPast, -⟩ :=
    placed
  exact ⟨load, jump, known, reserve, save, placedBody, copy, restore, ret, knownPast⟩

theorem begun_halves (beginnings : Beginnings layout.nodes layout.annotations starts)
    (isOtherwise : Lowering.IsInner otherwise) (isPast : Lowering.IsInner past) :
    begun starts (Lowering.halvesCode test otherwise past first second) =
      begun starts first ++ begun starts second := by
  simp [begun, Lowering.halvesCode, placedLabels_cons, Instruction.labelName?,
    beginnings.inner otherwise isOtherwise, beginnings.inner past isPast]

theorem begun_loop (beginnings : Beginnings layout.nodes layout.annotations starts)
    (isAgain : Lowering.IsInner again) (isPast : Lowering.IsInner past) :
    begun starts (Lowering.loopCode test again past first second) =
      begun starts first ++ begun starts second := by
  simp [begun, Lowering.loopCode, placedLabels_cons, Instruction.labelName?,
    beginnings.inner again isAgain, beginnings.inner past isPast]

/-- A function begins in its code, and those in its body do. -/
theorem begun_function (beginnings : Beginnings layout.nodes layout.annotations starts) {tag : Tag}
    {name : String} {params : List (Node Tag)} {body : Node Tag} {type : Option String}
    (isNode : .define tag name params body type ∈ layout.nodes)
    (address : (layout.annotations.get tag.id).address = some entry) :
    begun starts (Lowering.functionCode reg entry slots given inner last) =
      tag.id :: begun starts inner := by
  have begins := beginnings.entry tag name params body type entry isNode address
  have noneBegun := beginnings.inner _
    (beginnings.past tag name params body type entry isNode address)
  simp [begun, Lowering.placedLabels_function, begins, noneBegun]

end Composite

/-- Resolving a plain instruction leaves it plain. -/
theorem straight_of_resolve {resolved : Instruction}
    (isPlain : Lowering.isPlain instruction = true)
    (found : resolve layout.table instruction = .ok resolved) :
    layout.Straight function resolved := by
  cases instruction with
  | loadAddress dst target =>
    cases target with
    | address address =>
      cases found
      rfl
    | label label =>
      simp only [resolve, Instruction.target?] at found
      split at found <;> cases found
      rfl
  | loadConst | loadPool | copy | unset | phi | arith | compare | newChunk | storeHeapAt =>
    cases found
    rfl
  | _ => cases isPlain

/-- A fragment in memory is a block. The induction is on how the code was put together. A fragment
leaves the region in which it was entered, so what owns the places splits where the code does; of a
function inside, the load and the jump belong to the function around. -/
theorem block_of_fragment (beginnings : Beginnings layout.nodes layout.annotations starts)
    (notRoot : ∀ tag name params body type, .define tag name params body type ∈ layout.nodes →
      tag.id ≠ layout.root)
    (isFragment : Fragment layout.nodes layout.annotations owner made code)
    (legible : Legible region code) (isOwner : region.owner = owner)
    (placed : Placed layout.table layout.code p code)
    (owns : layout.Owns p (attributed starts region code)) :
    layout.Block owner (begun starts code) p (p + width code) := by
  induction isFragment generalizing region p with
  | nil owner => exact .nil owner p
  | append one two ihOne ihTwo =>
    rw [attributed_append, Lowering.after_fragment beginnings one legible.left] at owns
    obtain ⟨ownsOne, ownsTwo⟩ := owns.append
    rw [length_attributed] at ownsTwo
    obtain ⟨placedOne, placedTwo⟩ := placed_append.mp placed
    rw [begun_append, width_append, ← Nat.add_assoc]
    exact (ihOne legible.left isOwner placedOne ownsOne).append
      (ihTwo legible.right isOwner placedTwo ownsTwo)
  | @plain instruction owner isPlain =>
    have noLabel : instruction.labelName? = none := by
      cases instruction <;> first | rfl | cases isPlain
    rw [attributed_cons _ noLabel, isOwner] at owns
    obtain ⟨resolved, found, stands⟩ := ((placed_cons noLabel).mp placed).1
    have here : layout.At p owner resolved := ⟨⟨_, owns.head, found⟩, stands⟩
    have noneBegun : begun starts [instruction] = [] := by
      simp [begun, placedLabels_cons, noLabel]
    rw [noneBegun, width_cons [] noLabel]
    exact .one here (straight_of_resolve isPlain found)
  | load dst has =>
    simp only [attributed, isOwner] at owns
    exact .one (Stands.at_plain placed.1 rfl owns.head) ⟨_, has⟩
  | declare src isNode has | assign src isNode has =>
    simp only [attributed, isOwner] at owns
    exact .one (Stands.at_plain placed.1 rfl owns.head) ⟨_, has⟩
  | assignOnce src isNode isUnit has =>
    simp only [attributed, isOwner] at owns
    exact .one (Stands.at_plain placed.1 rfl owns.head) ⟨_, _, _, _, isNode, isUnit, has⟩
  | @call tag name params body type entry regs owner isNode address count =>
    simp only [attributed, isOwner] at owns
    obtain ⟨resolved, found, stands⟩ := placed.1
    have here : layout.At p owner resolved := ⟨⟨_, owns.head, found⟩, stands⟩
    simp only [resolve, Instruction.target?] at found
    split at found
    next place known =>
      cases found
      refine .one here ⟨_, _, _, _, _, isNode, ?_, count⟩
      simp [Layout.entry, Annotations.entry, address, known]
    next => cases found
  | @halves owner made made' first second otherwise past test isOtherwise isPast one two ihOne ihTwo =>
    obtain ⟨legibleOne, legibleTwo⟩ := Lowering.legible_halves legible
    rw [Lowering.attributed_halves beginnings isOtherwise legible
      (Lowering.after_fragment beginnings one legibleOne), isOwner] at owns
    have ownsBranch := owns.head
    obtain ⟨ownsOne, ownsRest⟩ := owns.tail.append
    rw [length_attributed] at ownsRest
    rw [begun_halves beginnings isOtherwise isPast, width_halves]
    simp only [← Nat.add_assoc]
    obtain ⟨branch, placedOne, jump, knownOtherwise, placedTwo, knownPast⟩ := placed_halves placed
    exact .halves (Stands.at_target branch rfl knownOtherwise ownsBranch)
      (ihOne legibleOne isOwner placedOne ownsOne)
      (Stands.at_target jump rfl knownPast ownsRest.head)
      (ihTwo legibleTwo isOwner placedTwo ownsRest.tail)
  | @loop owner made made' first second again past test isAgain isPast one two ihOne ihTwo =>
    obtain ⟨legibleOne, legibleTwo⟩ := Lowering.legible_loop legible
    rw [Lowering.attributed_loop beginnings isAgain legible
      (Lowering.after_fragment beginnings one legibleOne)
      (Lowering.after_fragment beginnings two legibleTwo), isOwner] at owns
    obtain ⟨ownsOne, ownsRest⟩ := owns.append
    rw [length_attributed] at ownsRest
    have ownsBranch := ownsRest.head
    obtain ⟨ownsTwo, ownsJump⟩ := ownsRest.tail.append
    rw [length_attributed] at ownsJump
    rw [begun_loop beginnings isAgain isPast, width_loop]
    simp only [← Nat.add_assoc]
    obtain ⟨knownAgain, placedOne, branch, placedTwo, jump, knownPast⟩ := placed_loop placed
    exact .loop (ihOne legibleOne isOwner placedOne ownsOne)
      (Stands.at_target branch rfl knownPast ownsBranch)
      (ihTwo legibleTwo isOwner placedTwo ownsTwo)
      (Stands.at_target jump rfl knownAgain ownsJump.head)
  | @function tag name params body type made entry locals inner owner reg given last isNode address
      noted isBody ih =>
    have legibleBody := Lowering.legible_inside tag.id legible
    rw [Lowering.attributed_function beginnings isNode address
      (Lowering.after_fragment beginnings isBody legibleBody), isOwner] at owns
    have ownsLoad := owns.head
    have ownsJump := owns.tail.head
    have ownsPart := owns.tail.tail
    unfold Lowering.functionPart at ownsPart
    have ownsReserve := ownsPart.head
    have ownsSave := ownsPart.tail.head
    obtain ⟨ownsBody, ownsEnd⟩ := ownsPart.tail.tail.append
    rw [length_attributed] at ownsEnd
    have sizes : layout.slots tag.id = locals.size := by
      simp [slots, noted]
    rw [begun_function beginnings isNode address, width_function]
    simp only [← Nat.add_assoc]
    obtain ⟨load, jump, known, reserve, save, placedBody, copy, restore, ret, knownPast⟩ :=
      placed_function placed
    have isEntry : layout.entry tag.id = p + 2 := by
      simp [Layout.entry, Annotations.entry, address, known]
    rw [← sizes] at reserve ownsReserve
    exact .function (Stands.at_target load rfl known ownsLoad)
      (Stands.at_target jump rfl knownPast ownsJump) (notRoot tag name params body type isNode)
      isEntry (Stands.at_plain reserve rfl ownsReserve) (Stands.at_plain save rfl ownsSave)
      (ih legibleBody rfl placedBody ownsBody) (Stands.at_plain copy rfl ownsEnd.head)
      (Stands.at_plain restore rfl ownsEnd.tail.head) (Stands.at_plain ret rfl ownsEnd.tail.tail.head)

end Conversion

section Following

variable (layout) in
/-- What follows an instruction of a function at an address. -/
def Flows (function pc : Nat) : Instruction → Prop
  | .jump (.address address) => layout.Inner function address
  | .branchZero _ (.address address) => layout.Inner function address ∧ layout.Inner function (pc + 1)
  | .reserve size => function ≠ layout.root ∧ size = layout.slots function ∧
    ∃ regs, layout.At (pc + 1) function (.save regs)
  | .save regs => function ≠ layout.root ∧ regs = layout.saved function ∧
    layout.Inner function (pc + 1)
  | .restore regs => function ≠ layout.root ∧ regs = layout.saved function ∧
    layout.At (pc + 1) function .ret
  | .ret => function ≠ layout.root
  | .halt => True
  | instruction => layout.Straight function instruction ∧ layout.Inner function (pc + 1)

variable (layout) in
/-- At an address stands an instruction of which it is known what follows. -/
def Settled (pc : Nat) : Prop :=
  ∃ function instruction, layout.At pc function instruction ∧ layout.Flows function pc instruction

theorem Settled.flows (settled : layout.Settled pc) (here : layout.At pc function instruction) :
    layout.Flows function pc instruction := by
  obtain ⟨function', instruction', here', flows⟩ := settled
  obtain ⟨rfl, rfl⟩ := here.unique here'
  exact flows

theorem At.inner (here : layout.At pc function instruction)
    (isInner : instruction.isInner = true) : layout.Inner function pc :=
  ⟨instruction, here, isInner⟩

theorem isInner_of_straight (straight : layout.Straight function instruction) :
    instruction.isInner = true := by
  cases instruction <;> first | rfl | cases straight

theorem flows_of_straight (straight : layout.Straight function instruction)
    (next : layout.Inner function (pc + 1)) : layout.Flows function pc instruction := by
  cases instruction <;> first | exact ⟨straight, next⟩ | cases straight

theorem saved_of_entry {regs : List Nat} (isEntry : layout.entry function = p)
    (save : layout.At (p + 1) function (.save regs)) : regs = layout.saved function := by
  simp [saved, isEntry, save.stands]

variable (layout) in
/-- All instructions of a stretch are settled. -/
def SettledIn (p q : Nat) : Prop :=
  ∀ pc, p ≤ pc → pc < q → layout.Settled pc

theorem SettledIn.trans {r : Nat} (one : layout.SettledIn p r) (two : layout.SettledIn r q) :
    layout.SettledIn p q := by
  intro pc lower upper
  rcases Nat.lt_or_ge pc r with before | after
  · exact one pc lower before
  · exact two pc after upper

theorem settledIn_one (here : layout.At p function instruction)
    (flows : layout.Flows function p instruction) : layout.SettledIn p (p + 1) := by
  intro pc lower upper
  have same : pc = p := by omega
  subst same
  exact ⟨function, instruction, here, flows⟩

/-- From inside a block control goes on inside it or at its end. Blocks are followed from the end to
the beginning, since what comes after a part must be known first. -/
theorem Block.settled {owner : Nat} {inside : List Nat} (block : layout.Block owner inside p q)
    (next : layout.Inner owner q) : layout.Inner owner p ∧ layout.SettledIn p q := by
  induction block with
  | nil => exact ⟨next, fun pc _ _ => by omega⟩
  | append one two ihOne ihTwo =>
    obtain ⟨middle, settledTwo⟩ := ihTwo next
    obtain ⟨first, settledOne⟩ := ihOne middle
    exact ⟨first, settledOne.trans settledTwo⟩
  | one here straight =>
    exact ⟨here.inner (isInner_of_straight straight),
      settledIn_one here (flows_of_straight straight next)⟩
  | halves branch one jump two ihOne ihTwo =>
    obtain ⟨otherwise, settledTwo⟩ := ihTwo next
    obtain ⟨first, settledOne⟩ := ihOne (jump.inner rfl)
    exact ⟨branch.inner rfl, (settledIn_one branch ⟨otherwise, first⟩).trans
      (settledOne.trans ((settledIn_one jump next).trans settledTwo))⟩
  | loop one branch two jump ihOne ihTwo =>
    obtain ⟨again, settledOne⟩ := ihOne (branch.inner rfl)
    obtain ⟨second, settledTwo⟩ := ihTwo (jump.inner rfl)
    exact ⟨again, settledOne.trans ((settledIn_one branch ⟨next, second⟩).trans
      (settledTwo.trans (settledIn_one jump again)))⟩
  | function load jump notRoot isEntry reserve save body copy restore ret ih =>
    obtain ⟨first, settledBody⟩ := ih (copy.inner rfl)
    have isSaved := saved_of_entry isEntry save
    have before := ((settledIn_one load ⟨rfl, jump.inner rfl⟩).trans (settledIn_one jump next)).trans
      ((settledIn_one reserve ⟨notRoot, rfl, _, save⟩).trans
        (settledIn_one save ⟨notRoot, isSaved, first⟩))
    have after := (settledIn_one copy ⟨rfl, restore.inner rfl⟩).trans
      ((settledIn_one restore ⟨notRoot, isSaved, ret⟩).trans (settledIn_one ret notRoot))
    exact ⟨load.inner rfl, before.trans (settledBody.trans after)⟩

/-- The functions inside a block begin with making their frames. -/
theorem Block.begins {owner : Nat} {inside : List Nat} (block : layout.Block owner inside p q)
    (member : function ∈ inside) :
    layout.At (layout.entry function) function (.reserve (layout.slots function)) := by
  induction block with
  | nil | one => cases member
  | append one two ihOne ihTwo | halves branch one jump two ihOne ihTwo
  | loop one branch two jump ihOne ihTwo =>
    rcases List.mem_append.mp member with inOne | inTwo
    · exact ihOne inOne
    · exact ihTwo inTwo
  | function load jump notRoot isEntry reserve save body copy restore ret ih =>
    rcases List.mem_cons.mp member with rfl | inBody
    · rwa [isEntry]
    · exact ih inBody

end Following

variable (layout) in
/-- A program in memory whose functions keep to themselves. -/
structure Coherent : Prop where
  settled : layout.SettledIn 0 layout.code.size
  begins : ∀ tag name params body type, .define tag name params body type ∈ layout.nodes →
    tag.id ≠ layout.root ∧
      layout.At (layout.entry tag.id) tag.id (.reserve (layout.slots tag.id)) ∧
      params.length ≤ layout.slots tag.id
  covered : layout.owned.length = layout.code.size
  sized : ∀ {pc function slot : Nat} {instruction : Instruction}, layout.At pc function instruction →
    instruction.usedSlot? = some slot → slot < layout.slots function
  start : layout.Inner layout.root 0
  bare : layout.slots layout.root = 0

theorem Coherent.flows (coherent : layout.Coherent) (here : layout.At pc function instruction) :
    layout.Flows function pc instruction :=
  (coherent.settled pc (Nat.zero_le _) (Array.getElem?_eq_some_iff.mp here.stands).1).flows here

end Layout

theorem Assembly.usedSlot?_of_resolve {table : List (String × Nat)}
    {original instruction : Instruction} (found : resolve table original = .ok instruction) :
    instruction.usedSlot? = original.usedSlot? := by
  rcases resolve_ok found with ⟨_, _, _, _, rfl⟩ | ⟨_, rfl⟩
  · cases original <;> rfl
  · rfl

namespace Program.Stages

variable {typeCheck : Bool} {anonymous source : String} {program : Program}

/-- A program in memory. -/
def layout (stages : Stages typeCheck anonymous source program) : Layout :=
  { stages.image with
    root := stages.document.root.id
    owned := stages.document.attributed stages.labelled }

/-- The label of every function is placed in the code. -/
theorem entry_placed (stages : Stages typeCheck anonymous source program) {tag : Tag} {name : String}
    {params : List (Node Tag)} {body : Node Tag} {type : Option String}
    (isNode : .define tag name params body type ∈ stages.layout.nodes) :
    ∃ entry, (stages.document.annotations.get tag.id).address = some entry ∧
      entry ∈ Assembly.placedLabels stages.labelled := by
  obtain ⟨rootTag, _, statements, next, _, shaped, isRoot⟩ := root_of_analyse stages.parse stages.analyse
  have plain : Lowering.PlainParams stages.collected.root := by
    rw [(Document.literals_of_collectConstants stages.collect).1, isRoot]
    exact Document.plainParams_tree (Document.shaped_wrapping rootTag next shaped) _
  obtain ⟨_, _, _, _, _, _, code, _, _, given, _, lowered, isCode, isLast⟩ :=
    Document.compile_ok stages.compile
  obtain ⟨_, _, named⟩ := Lowering.numbered_giveAddresses given
  have isNode : .define tag name params body type ∈ stages.collected.root.preorder := by
    simpa [layout, image, isLast] using isNode
  obtain ⟨n, address⟩ := named tag name params body type isNode
  refine ⟨_, by rw [isLast]; exact address, ?_⟩
  have isPlaced := Lowering.entry_placed lowered plain isNode address
  dsimp only at isCode
  rw [isCode, Assembly.placedLabels_append, Assembly.placedLabels_append]
  exact List.mem_append_left _ (List.mem_append_right _ isPlaced)

theorem function_notRoot (stages : Stages typeCheck anonymous source program) {tag : Tag}
    {name : String} {params : List (Node Tag)} {body : Node Tag} {type : Option String}
    (isNode : .define tag name params body type ∈ stages.layout.nodes) :
    tag.id ≠ stages.layout.root := by
  obtain ⟨prepared⟩ := stages.prepared
  intro same
  have isFunction := List.inj_on_of_nodup_map prepared.resolved.distinct isNode
    (Node.self_mem_preorder stages.document.root) same
  rw [prepared.isRoot] at isFunction
  cases isFunction

/-- The program itself has no variables. -/
theorem bare (stages : Stages typeCheck anonymous source program) :
    stages.layout.slots stages.layout.root = 0 := by
  obtain ⟨prepared⟩ := stages.prepared
  have noSlots : prepared.locals.size = 0 := by
    rw [← Locals.length_ids, prepared.empty, List.length_nil]
  rw [layout, prepared.isRoot]
  have noted : (stages.image.annotations.get prepared.root.id).locals = some prepared.locals :=
    prepared.noted
  simp [Layout.slots, Node.wrapped, Node.id, Node.tag, noted, noSlots]

/-- The code of a program is that of its tree and an end. -/
theorem hasCode (stages : Stages typeCheck anonymous source program) :
    ∃ body made locals, stages.document.HasCode stages.labelled body made locals ∧
      stages.labelled = body ++ [.halt] := by
  obtain ⟨_, _, body, made, locals, has⟩ :=
    Program.hasCode_of_compile stages.parse stages.analyse stages.collect stages.compile
  have noSlots : locals.size = 0 := by
    have bare := stages.bare
    have noted : (stages.layout.annotations.get stages.layout.root).locals = some locals := has.noted
    simpa [Layout.slots, noted] using bare
  have isCode := has.isCode
  rw [noSlots] at isCode
  exact ⟨body, made, locals, has, by simpa using isCode⟩

/-- The frame of a function has all slots that its instructions use. -/
theorem slot_lt (stages : Stages typeCheck anonymous source program) {pc function slot : Nat}
    {instruction : Instruction} (here : stages.layout.At pc function instruction)
    (uses : instruction.usedSlot? = some slot) : slot < stages.layout.slots function := by
  obtain ⟨⟨labelled, owned, resolved⟩, _⟩ := here
  rw [Assembly.usedSlot?_of_resolve resolved] at uses
  obtain ⟨owner, _, rfl, table, has, inside, _⟩ := Program.table_of_usedSlot stages.parse
    stages.analyse stages.collect stages.compile (List.mem_of_getElem? owned) uses
  have noted : (stages.layout.annotations.get owner.id).locals = some table := has.noted
  simpa [Layout.slots, noted] using inside

/-- Compiled programs are coherent. -/
theorem coherent (stages : Stages typeCheck anonymous source program) : stages.layout.Coherent := by
  obtain ⟨prepared⟩ := stages.prepared
  obtain ⟨body, made, locals, has, isCode⟩ := stages.hasCode
  have placed : Assembly.Placed stages.layout.table stages.layout.code 0 (body ++ [.halt]) := by
    rw [← isCode]
    exact stages.placed
  have owns : stages.layout.Owns 0 (stages.document.attributed (body ++ [.halt])) := by
    intro offset entry found
    rwa [Nat.zero_add, layout, isCode]
  unfold Document.attributed at owns
  rw [Assembly.attributed_append, Lowering.after_fragment has.beginnings has.fragment has.legible]
    at owns
  obtain ⟨ownsBody, ownsHalt⟩ := owns.append
  obtain ⟨placedBody, placedHalt⟩ := Assembly.placed_append.mp placed
  rw [Layout.length_attributed] at ownsHalt
  have halt := Layout.Stands.at_plain placedHalt.1 rfl ownsHalt.head
  have block := Layout.block_of_fragment has.beginnings
    (fun _ _ _ _ _ isNode => stages.function_notRoot isNode) has.fragment has.legible rfl placedBody
    ownsBody
  obtain ⟨start, settled⟩ := block.settled (halt.inner rfl)
  have size : stages.layout.code.size = 0 + Assembly.width body + 1 := by
    have length := Assembly.length_of_resolveAll (Assembly.resolveAll_of_assemble stages.assemble)
    rw [isCode, Assembly.width_snoc _ rfl] at length
    rw [Nat.zero_add, ← length]
    exact List.size_toArray
  have covered : stages.layout.owned.length = stages.layout.code.size := by
    rw [size, layout, Document.attributed, Layout.length_attributed, isCode,
      Assembly.width_snoc _ rfl, Nat.zero_add]
  refine ⟨?_, ?_, covered, stages.slot_lt, start, stages.bare⟩
  · rw [size]
    exact settled.trans (Layout.settledIn_one halt trivial)
  · intro tag name params inner type isNode
    obtain ⟨table, function⟩ := prepared.functions isNode
    obtain ⟨entry, address, isPlaced⟩ := stages.entry_placed isNode
    have begun : tag.id ∈ Layout.begun stages.document.functionAt? body := by
      rw [isCode] at isPlaced
      refine List.mem_filterMap.mpr ⟨entry, by simpa [Assembly.placedLabels_cons,
        Instruction.labelName?] using isPlaced, ?_⟩
      exact has.beginnings.entry tag name params inner type entry isNode address
    refine ⟨stages.function_notRoot isNode, block.begins begun, ?_⟩
    have noted : (stages.layout.annotations.get tag.id).locals = some table := function.frame.noted
    have ids := congrArg List.length function.ids
    rw [List.length_append, List.length_map, Locals.length_ids] at ids
    simp only [Layout.slots, noted, Option.map_some, Option.getD_some]
    omega

end Program.Stages

end ScriptVM
