import ScriptVM.Proofs.Fragments
import ScriptVM.Proofs.Renamed
import ScriptVM.Proofs.SlotTables

/-!
Which function an instruction belongs to, and whose slots it uses.

Labelled code tells by its labels where the code of a function begins and ends, so it is attributed
by reading it once, with the functions that are still open on a stack. Lowered code comes back to the
function it started in. An instruction that loads or stores a slot uses the frame of the function it
belongs to, within what this function reserves.
-/
namespace ScriptVM

namespace Assembly

/-- The function that the next instruction belongs to, and the functions around it, each with the
label at which it goes on. -/
structure Region where
  owner : Nat
  around : List (String × Nat) := []

section Reading

variable (starts : String → Option Nat)

/-- What a label changes: it may be where a function begins or where the innermost one ends. -/
def Region.pass (region : Region) (label : String) : Region :=
  match starts label with
  | some function => ⟨function, (label ++ "_end", region.owner) :: region.around⟩
  | none =>
    match region.around with
    | [] => region
    | (past, outer) :: around => if label = past then ⟨outer, around⟩ else region

/-- Where reading a piece of code leads. -/
def Region.after (region : Region) (code : List Instruction) : Region :=
  (placedLabels code).foldl (Region.pass starts) region

/-- The instructions of labelled code, each with the function it belongs to. -/
def attributed (region : Region) : List Instruction → List (Nat × Instruction)
  | [] => []
  | .label label :: rest => attributed (region.pass starts label) rest
  | instruction :: rest => (region.owner, instruction) :: attributed region rest

end Reading

variable {starts : String → Option Nat} {region : Region} {code : List Instruction}

@[simp] theorem after_nil : region.after starts [] = region := rfl

@[simp] theorem after_append (first second : List Instruction) :
    region.after starts (first ++ second) = (region.after starts first).after starts second := by
  simp [Region.after]

theorem after_cons (instruction : Instruction) (rest : List Instruction) :
    region.after starts (instruction :: rest) =
      (instruction.labelName?.elim region (region.pass starts)).after starts rest := by
  cases named : instruction.labelName? <;> simp [Region.after, placedLabels_cons, named]

theorem after_of_plain (plain : placedLabels code = []) : region.after starts code = region := by
  simp [Region.after, plain]

theorem attributed_cons {instruction : Instruction} (rest : List Instruction)
    (plain : instruction.labelName? = none) :
    attributed starts region (instruction :: rest) =
      (region.owner, instruction) :: attributed starts region rest := by
  cases instruction with
  | label => cases plain
  | _ => rfl

@[simp] theorem attributed_append (first second : List Instruction) :
    attributed starts region (first ++ second) =
      attributed starts region first ++ attributed starts (region.after starts first) second := by
  induction first generalizing region with
  | nil => rfl
  | cons instruction rest ih =>
    cases plain : instruction.labelName? with
    | none =>
      rw [List.cons_append, attributed_cons _ plain, attributed_cons _ plain, after_cons, plain, ih,
        List.cons_append, Option.elim]
    | some name =>
      cases instruction with
      | label label => rw [List.cons_append, attributed, attributed, after_cons, ih]; rfl
      | _ => cases plain

/-- Every instruction but the labels is attributed, once and in its place. -/
theorem map_snd_attributed (code : List Instruction) :
    (attributed starts region code).map Prod.snd =
      code.filter fun instruction => instruction.labelName?.isNone := by
  induction code generalizing region with
  | nil => rfl
  | cons instruction rest ih =>
    cases plain : instruction.labelName? with
    | none =>
      rw [attributed_cons _ plain, List.map_cons, List.filter_cons_of_pos (by simp [plain]), ih]
    | some name =>
      rw [List.filter_cons_of_neg (by simp [plain])]
      cases instruction with
      | label label => rw [attributed, ih]
      | _ => cases plain

/-- Code whose labels can be told apart, and from the one at which the current function ends. -/
structure Legible (region : Region) (code : List Instruction) : Prop where
  distinct : (placedLabels code).Nodup
  apart : ∀ past outer, (past, outer) ∈ region.around.head? → past ∉ placedLabels code

/-- Outside all functions there is no label at which one ends. -/
theorem Legible.outermost (owner : Nat) (distinct : (placedLabels code).Nodup) :
    Legible ⟨owner, []⟩ code :=
  ⟨distinct, nofun⟩

theorem Legible.left {first second : List Instruction} (legible : Legible region (first ++ second)) :
    Legible region first := by
  obtain ⟨distinct, apart⟩ := legible
  rw [placedLabels_append] at distinct apart
  refine ⟨(List.nodup_append.mp distinct).1, ?_⟩
  intro past outer isPast member
  exact apart past outer isPast (List.mem_append_left _ member)

theorem Legible.right {first second : List Instruction}
    (legible : Legible region (first ++ second)) : Legible region second := by
  obtain ⟨distinct, apart⟩ := legible
  rw [placedLabels_append] at distinct apart
  refine ⟨(List.nodup_append.mp distinct).2.1, ?_⟩
  intro past outer isPast member
  exact apart past outer isPast (List.mem_append_right _ member)

end Assembly

namespace Lowering

open Assembly

variable {nodes : List (Node Tag)} {annotations : Annotations} {starts : String → Option Nat}
  {owner : Nat} {made : List (Nat × Nat)} {code : List Instruction} {region : Region}

/-- Functions begin at their own labels and at no label inside a function. -/
structure Beginnings (nodes : List (Node Tag)) (annotations : Annotations)
    (starts : String → Option Nat) : Prop where
  entry : ∀ tag name params body type entry, .define tag name params body type ∈ nodes →
    (annotations.get tag.id).address = some entry → starts entry = some tag.id
  past : ∀ tag name params body type entry, .define tag name params body type ∈ nodes →
    (annotations.get tag.id).address = some entry → IsInner (entry ++ "_end")
  inner : ∀ label, IsInner label → starts label = none

/-- A label inside the current function changes nothing. -/
theorem pass_inner (beginnings : Beginnings nodes annotations starts)
    (legible : Legible region code) {label : String} (isInner : IsInner label)
    (isPlaced : label ∈ placedLabels code) : region.pass starts label = region := by
  unfold Region.pass
  rw [beginnings.inner label isInner]
  cases around : region.around with
  | nil => rfl
  | cons first rest =>
    obtain ⟨past, outer⟩ := first
    have different : label ≠ past := by
      rintro rfl
      exact legible.apart label outer (by simp [around]) isPlaced
    simp [different]

section Functions

variable {tag : Tag} {name : String} {params : List (Node Tag)} {body : Node Tag}
  {type : Option String} {entry : String} {reg slots last : Nat} {given : List Nat}
  {inner : List Instruction}

/-- The attributed code of a function, from its entry to its return. -/
def functionPart (function slots : Nat) (given : List Nat) (inner : List (Nat × Instruction))
    (last : Nat) : List (Nat × Instruction) :=
  (function, .reserve slots) :: (function, .save given) :: (inner ++
    [(function, .copy resultReg last), (function, .restore given), (function, .ret)])

/-- The region inside a function. -/
def inside (region : Region) (function : Nat) (entry : String) : Region :=
  ⟨function, (entry ++ "_end", region.owner) :: region.around⟩

theorem placedLabels_function :
    placedLabels (functionCode reg entry slots given inner last) =
      entry :: (placedLabels inner ++ [entry ++ "_end"]) := by
  simp [functionCode, placedLabels_cons, Instruction.labelName?]

theorem legible_inside (function : Nat)
    (legible : Legible region (functionCode reg entry slots given inner last)) :
    Legible (inside region function entry) inner := by
  have distinct := legible.distinct
  rw [placedLabels_function, List.nodup_cons, List.nodup_append] at distinct
  obtain ⟨_, distinctInner, _, different⟩ := distinct
  refine ⟨distinctInner, ?_⟩
  intro past outer isPast member
  simp only [inside, List.head?_cons, Option.mem_def, Option.some.injEq, Prod.mk.injEq] at isPast
  exact different past member (entry ++ "_end") (by simp) isPast.1.symm

theorem pass_entry (beginnings : Beginnings nodes annotations starts)
    (isNode : .define tag name params body type ∈ nodes)
    (address : (annotations.get tag.id).address = some entry) :
    region.pass starts entry = inside region tag.id entry := by
  unfold Region.pass
  rw [beginnings.entry tag name params body type entry isNode address]
  rfl

theorem pass_past (beginnings : Beginnings nodes annotations starts)
    (isNode : .define tag name params body type ∈ nodes)
    (address : (annotations.get tag.id).address = some entry) :
    (inside region tag.id entry).pass starts (entry ++ "_end") = region := by
  unfold Region.pass
  rw [beginnings.inner _ (beginnings.past tag name params body type entry isNode address)]
  simp [inside]

end Functions

section Halves

variable {first second : List Instruction} {test : Nat} {otherwise again past : String}

theorem legible_halves (legible : Legible region (halvesCode test otherwise past first second)) :
    Legible region first ∧ Legible region second :=
  ⟨legible.left.left.left.right, legible.left.right⟩

theorem legible_loop (legible : Legible region (loopCode test again past first second)) :
    Legible region first ∧ Legible region second :=
  ⟨legible.left.left.left.right, legible.left.right⟩

end Halves

section Parts

variable {first second : List Instruction} {test : Nat} {otherwise again past : String}
  {tag : Tag} {name : String} {params : List (Node Tag)} {body : Node Tag} {type : Option String}
  {entry : String} {reg slots last : Nat} {given : List Nat} {inner : List Instruction}

theorem after_halves (beginnings : Beginnings nodes annotations starts)
    (isOtherwise : IsInner otherwise) (isPast : IsInner past)
    (legible : Legible region (halvesCode test otherwise past first second))
    (one : region.after starts first = region) (two : region.after starts second = region) :
    region.after starts (halvesCode test otherwise past first second) = region := by
  have passOtherwise := pass_inner beginnings legible isOtherwise
    (by simp [halvesCode, placedLabels_cons, Instruction.labelName?])
  have passPast := pass_inner beginnings legible isPast
    (by simp [halvesCode, placedLabels_cons, Instruction.labelName?])
  simp only [halvesCode, after_append, after_cons, after_nil, Instruction.labelName?, Option.elim,
    one, two, passOtherwise, passPast]

theorem after_loop (beginnings : Beginnings nodes annotations starts) (isAgain : IsInner again)
    (isPast : IsInner past) (legible : Legible region (loopCode test again past first second))
    (one : region.after starts first = region) (two : region.after starts second = region) :
    region.after starts (loopCode test again past first second) = region := by
  have passAgain := pass_inner beginnings legible isAgain
    (by simp [loopCode, placedLabels_cons, Instruction.labelName?])
  have passPast := pass_inner beginnings legible isPast
    (by simp [loopCode, placedLabels_cons, Instruction.labelName?])
  simp only [loopCode, after_append, after_cons, after_nil, Instruction.labelName?, Option.elim,
    one, two, passAgain, passPast]

theorem after_function (beginnings : Beginnings nodes annotations starts)
    (isNode : .define tag name params body type ∈ nodes)
    (address : (annotations.get tag.id).address = some entry)
    (back : (inside region tag.id entry).after starts inner = inside region tag.id entry) :
    region.after starts (functionCode reg entry slots given inner last) = region := by
  simp only [functionCode, after_append, after_cons, after_nil, Instruction.labelName?, Option.elim,
    back, pass_entry beginnings isNode address, pass_past beginnings isNode address]

theorem attributed_halves (beginnings : Beginnings nodes annotations starts)
    (isOtherwise : IsInner otherwise)
    (legible : Legible region (halvesCode test otherwise past first second))
    (one : region.after starts first = region) :
    attributed starts region (halvesCode test otherwise past first second) =
      (region.owner, .branchZero test (.label otherwise)) :: (attributed starts region first ++
        (region.owner, .jump (.label past)) :: attributed starts region second) := by
  have passOtherwise := pass_inner beginnings legible isOtherwise
    (by simp [halvesCode, placedLabels_cons, Instruction.labelName?])
  simp only [halvesCode, attributed_append, attributed, one, passOtherwise, List.append_nil,
    List.append_assoc, List.cons_append, List.nil_append]

theorem attributed_loop (beginnings : Beginnings nodes annotations starts) (isAgain : IsInner again)
    (legible : Legible region (loopCode test again past first second))
    (one : region.after starts first = region) (two : region.after starts second = region) :
    attributed starts region (loopCode test again past first second) =
      attributed starts region first ++ (region.owner, .branchZero test (.label past)) ::
        (attributed starts region second ++ [(region.owner, .jump (.label again))]) := by
  have passAgain := pass_inner beginnings legible isAgain
    (by simp [loopCode, placedLabels_cons, Instruction.labelName?])
  simp only [loopCode, attributed_append, attributed, one, two, passAgain, List.append_assoc,
    List.cons_append, List.nil_append]

theorem attributed_function (beginnings : Beginnings nodes annotations starts)
    (isNode : .define tag name params body type ∈ nodes)
    (address : (annotations.get tag.id).address = some entry)
    (back : (inside region tag.id entry).after starts inner = inside region tag.id entry) :
    attributed starts region (functionCode reg entry slots given inner last) =
      (region.owner, .loadAddress reg (.label entry)) ::
        (region.owner, .jump (.label (entry ++ "_end"))) ::
        functionPart tag.id slots given (attributed starts (inside region tag.id entry) inner) last := by
  simp only [functionCode, attributed_append, after_append, after_cons, after_nil,
    Instruction.labelName?, Option.elim, attributed, pass_entry beginnings isNode address, back]
  rfl

end Parts

/-- Reading a fragment leads back to where it began. -/
theorem after_fragment (beginnings : Beginnings nodes annotations starts)
    (isFragment : Fragment nodes annotations owner made code) (legible : Legible region code) :
    region.after starts code = region := by
  induction isFragment generalizing region with
  | nil => rfl
  | append one two ihOne ihTwo =>
    rw [after_append, ihOne legible.left, ihTwo legible.right]
  | @plain instruction owner isPlain =>
    apply after_of_plain
    cases instruction with
    | label => cases isPlain
    | _ => rfl
  | load | declare | assign | assignOnce | call => rfl
  | halves test isOtherwise isPast one two ihOne ihTwo =>
    obtain ⟨legibleOne, legibleTwo⟩ := legible_halves legible
    exact after_halves beginnings isOtherwise isPast legible (ihOne legibleOne) (ihTwo legibleTwo)
  | loop test isAgain isPast one two ihOne ihTwo =>
    obtain ⟨legibleOne, legibleTwo⟩ := legible_loop legible
    exact after_loop beginnings isAgain isPast legible (ihOne legibleOne) (ihTwo legibleTwo)
  | @function tag name params body type made entry locals inner owner reg given last isNode address
      noted isBody ih =>
    exact after_function beginnings isNode address (ih (legible_inside tag.id legible))

end Lowering

/-- The slot that an instruction loads or stores. -/
def Instruction.usedSlot? : Instruction → Option Nat
  | .loadSlot _ slot | .storeSlot _ slot | .storeOnce _ slot => some slot
  | _ => none

namespace Lowering

open Assembly

variable {nodes : List (Node Tag)} {annotations : Annotations} {starts : String → Option Nat}
  {owner : Nat} {made : List (Nat × Nat)} {code : List Instruction} {region : Region}
  {part part' : List (Nat × Instruction)}

/-- Attributed code in which every function uses slots of its own and reserves just these, save that
the frame of the owner may be reserved elsewhere. -/
structure UsesOwn (nodes : List (Node Tag)) (annotations : Annotations) (owner : Nat)
    (part : List (Nat × Instruction)) : Prop where
  slots : ∀ function instruction slot, (function, instruction) ∈ part →
    instruction.usedSlot? = some slot → ∃ declaration, HasSlot annotations function declaration slot
  sizes : ∀ function size, (function, .reserve size) ∈ part →
    ∃ locals, (annotations.get function).locals = some locals ∧ size = locals.size
  reserved : ∀ function instruction, (function, instruction) ∈ part → function = owner ∨
    (∃ node ∈ nodes, Scoping.isFunction node = true ∧ node.id = function) ∧
      ∃ size, (function, .reserve size) ∈ part

theorem UsesOwn.append (one : UsesOwn nodes annotations owner part)
    (two : UsesOwn nodes annotations owner part') : UsesOwn nodes annotations owner (part ++ part') where
  slots function instruction slot member uses := by
    rcases List.mem_append.mp member with inOne | inTwo
    · exact one.slots function instruction slot inOne uses
    · exact two.slots function instruction slot inTwo uses
  sizes function size member := by
    rcases List.mem_append.mp member with inOne | inTwo
    · exact one.sizes function size inOne
    · exact two.sizes function size inTwo
  reserved function instruction member := by
    rcases List.mem_append.mp member with inOne | inTwo
    · exact (one.reserved function instruction inOne).imp_right fun ⟨isNode, size, reserve⟩ =>
        ⟨isNode, size, List.mem_append_left _ reserve⟩
    · exact (two.reserved function instruction inTwo).imp_right fun ⟨isNode, size, reserve⟩ =>
        ⟨isNode, size, List.mem_append_right _ reserve⟩

/-- An instruction of the owner that reserves nothing. -/
theorem UsesOwn.single (instruction : Instruction)
    (slots : ∀ slot, instruction.usedSlot? = some slot →
      ∃ declaration, HasSlot annotations owner declaration slot)
    (notReserve : ∀ size, instruction ≠ .reserve size) :
    UsesOwn nodes annotations owner [(owner, instruction)] where
  slots function other slot member uses := by
    cases List.mem_singleton.mp member
    exact slots slot uses
  sizes function size member := by
    cases List.mem_singleton.mp member
    exact absurd rfl (notReserve size)
  reserved function other member := by
    cases List.mem_singleton.mp member
    exact .inl rfl

/-- An instruction of the owner that uses no slot and reserves nothing. -/
theorem UsesOwn.silent (nodes : List (Node Tag)) (annotations : Annotations) (owner : Nat) (instruction : Instruction)
    (unused : instruction.usedSlot? = none) (notReserve : ∀ size, instruction ≠ .reserve size) :
    UsesOwn nodes annotations owner [(owner, instruction)] := by
  refine .single instruction ?_ notReserve
  intro slot uses
  rw [unused] at uses
  cases uses

/-- The code of a function, seen from the function that it is written in. -/
theorem UsesOwn.function {function last : Nat} {given : List Nat} {locals : Locals}
    (inner : UsesOwn nodes annotations function part)
    (isNode : ∃ node ∈ nodes, Scoping.isFunction node = true ∧ node.id = function)
    (noted : (annotations.get function).locals = some locals) :
    UsesOwn nodes annotations owner (functionPart function locals.size given part last) := by
  have reserve : UsesOwn nodes annotations function [(function, .reserve locals.size)] := by
    refine ⟨?_, ?_, ?_⟩
    · intro _ _ slot member uses
      cases List.mem_singleton.mp member
      cases uses
    · intro _ size member
      cases List.mem_singleton.mp member
      exact ⟨locals, noted, rfl⟩
    · intro _ _ member
      cases List.mem_singleton.mp member
      exact .inl rfl
  have save := UsesOwn.silent nodes annotations function (.save given) rfl nofun
  have copy := UsesOwn.silent nodes annotations function (.copy resultReg last) rfl nofun
  have restore := UsesOwn.silent nodes annotations function (.restore given) rfl nofun
  have ret := UsesOwn.silent nodes annotations function .ret rfl nofun
  have whole : UsesOwn nodes annotations function (functionPart function locals.size given part last) :=
    reserve.append (save.append (inner.append (copy.append (restore.append ret))))
  refine ⟨whole.slots, whole.sizes, ?_⟩
  intro other instruction member
  refine .inr ?_
  rcases whole.reserved other instruction member with rfl | reserved
  · exact ⟨isNode, locals.size, List.mem_cons_self ..⟩
  · exact reserved

/-- In the code of a function and of those inside it, every function uses its own slots. A function
inside has the slots of its own table, which it reserves itself. -/
theorem usesOwn_fragment (beginnings : Beginnings nodes annotations starts)
    (isFragment : Fragment nodes annotations owner made code) (legible : Legible region code)
    (isOwner : region.owner = owner) :
    UsesOwn nodes annotations owner (attributed starts region code) := by
  induction isFragment generalizing region with
  | nil => exact ⟨nofun, nofun, nofun⟩
  | append one two ihOne ihTwo =>
    rw [attributed_append, after_fragment beginnings one legible.left]
    exact (ihOne legible.left isOwner).append (ihTwo legible.right isOwner)
  | @plain instruction owner isPlain =>
    have noLabel : instruction.labelName? = none := by
      cases instruction <;> first | rfl | cases isPlain
    have unused : instruction.usedSlot? = none := by
      cases instruction <;> first | rfl | cases isPlain
    rw [attributed_cons _ noLabel, isOwner]
    refine .silent _ _ _ _ unused ?_
    rintro size rfl
    cases isPlain
  | load dst has | declare src _ has | assign src _ has | assignOnce src _ _ has =>
    simp only [attributed, isOwner]
    refine .single _ ?_ nofun
    rintro slot ⟨⟩
    exact ⟨_, has⟩
  | call =>
    simp only [attributed, isOwner]
    exact .silent _ _ _ _ rfl nofun
  | @halves owner made made' first second otherwise past test isOtherwise isPast one two ihOne ihTwo =>
    obtain ⟨legibleOne, legibleTwo⟩ := legible_halves legible
    rw [attributed_halves beginnings isOtherwise legible (after_fragment beginnings one legibleOne),
      isOwner]
    have branch := UsesOwn.silent nodes annotations owner (.branchZero test (.label otherwise)) rfl nofun
    have jump := UsesOwn.silent nodes annotations owner (.jump (.label past)) rfl nofun
    exact branch.append ((ihOne legibleOne isOwner).append
      (jump.append (ihTwo legibleTwo isOwner)))
  | @loop owner made made' first second again past test isAgain isPast one two ihOne ihTwo =>
    obtain ⟨legibleOne, legibleTwo⟩ := legible_loop legible
    rw [attributed_loop beginnings isAgain legible (after_fragment beginnings one legibleOne)
      (after_fragment beginnings two legibleTwo), isOwner]
    have branch := UsesOwn.silent nodes annotations owner (.branchZero test (.label past)) rfl nofun
    have jump := UsesOwn.silent nodes annotations owner (.jump (.label again)) rfl nofun
    exact (ihOne legibleOne isOwner).append
      (branch.append ((ihTwo legibleTwo isOwner).append jump))
  | @function tag name params body type made entry locals inner owner reg given last isNode address
      noted isBody ih =>
    have legibleInner := legible_inside tag.id legible
    rw [attributed_function beginnings isNode address
      (after_fragment beginnings isBody legibleInner), isOwner]
    have inner := ih legibleInner rfl
    have load := UsesOwn.silent nodes annotations owner (.loadAddress reg (.label entry)) rfl nofun
    have jump := UsesOwn.silent nodes annotations owner (.jump (.label (entry ++ "_end"))) rfl nofun
    exact load.append (jump.append (inner.function ⟨_, isNode, rfl, rfl⟩ noted))

section Compiled

theorem eq_of_countP_le_one {α : Type} {test : α → Bool} {entries : List α} {one two : α}
    (once : entries.countP test ≤ 1) (isOne : one ∈ entries) (isTwo : two ∈ entries)
    (holdsOne : test one = true) (holdsTwo : test two = true) : one = two := by
  induction entries with
  | nil => cases isOne
  | cons first rest ih =>
    rw [List.countP_cons] at once
    rcases List.mem_cons.mp isOne with rfl | oneInRest
    · rcases List.mem_cons.mp isTwo with rfl | twoInRest
      · rfl
      · have := List.countP_pos_iff.mpr ⟨two, twoInRest, holdsTwo⟩
        rw [if_pos holdsOne] at once
        omega
    · have positive := List.countP_pos_iff.mpr ⟨one, oneInRest, holdsOne⟩
      rcases List.mem_cons.mp isTwo with rfl | twoInRest
      · rw [if_pos holdsTwo] at once
        omega
      · exact ih (by omega) oneInRest twoInRest

end Compiled

end Lowering

/-- The function that starts at a label. -/
def Document.functionAt? (document : Document) (label : String) : Option Nat :=
  (document.root.preorder.find? fun node =>
    Scoping.isFunction node && (document.notes node).address == some label).map Node.id

/-- The instructions of a document, each with the function that it belongs to, or with the
program. -/
def Document.attributed (document : Document) (code : List Instruction) : List (Nat × Instruction) :=
  Assembly.attributed document.functionAt? ⟨document.root.id, []⟩ code

/-- The functions of a compiled document begin at their labels. A number is given out once, so the
function found by its label is the one. -/
theorem Document.beginnings_of_giveAddresses {document : Document}
    {state state' : Annotations × FreshNames}
    (success : document.root.preorder.foldlM Lowering.giveAddress state = .ok state')
    (same : document.annotations = state'.1) :
    Lowering.Beginnings document.root.preorder document.annotations document.functionAt? := by
  obtain ⟨_, counted, named⟩ := Lowering.numbered_giveAddresses success
  rw [← same] at counted named
  have isNumbered : ∀ node ∈ document.root.preorder, ∀ label, (Scoping.isFunction node &&
      (document.notes node).address == some label) = true →
      Lowering.isNumbered document.annotations (Assembly.labelKey label).1 node = true ∧
        (Assembly.labelKey label).2 = [] := by
    intro node isNode label starts
    simp only [Bool.and_eq_true, beq_iff_eq, notes] at starts
    cases node with
    | define tag name params body type =>
      have address : (document.annotations.get tag.id).address = some label := starts.2
      obtain ⟨n, isAddress⟩ := named tag name params body type isNode
      rw [address] at isAddress
      cases isAddress
      exact ⟨by simp [Lowering.isNumbered, address], by rw [Lowering.labelKey_entry]⟩
    | _ => cases starts.1
  refine ⟨?_, ?_, ?_⟩
  · intro tag name params body type entry isNode address
    have starts : (Scoping.isFunction (.define tag name params body type) &&
        (document.notes (.define tag name params body type)).address == some entry) = true := by
      simpa [Scoping.isFunction, notes, Node.id, Node.tag] using address
    unfold functionAt?
    cases found : document.root.preorder.find? fun node =>
        Scoping.isFunction node && (document.notes node).address == some entry with
    | none => exact absurd starts (List.find?_eq_none.mp found _ isNode)
    | some node =>
      have startsToo := List.find?_some found
      have isNodeToo := List.mem_of_find?_eq_some found
      have once := Nat.le_trans (counted (Assembly.labelKey entry).1)
        (taken_le_one _ _ _)
      rw [Lowering.eq_of_countP_le_one once isNodeToo isNode (isNumbered _ isNodeToo _ startsToo).1
        (isNumbered _ isNode _ starts).1]
      rfl
  · intro tag name params body type entry isNode address
    obtain ⟨n, isAddress⟩ := named tag name params body type isNode
    rw [address] at isAddress
    cases isAddress
    simp [Lowering.IsInner, Lowering.labelKey_past]
  · intro label isInner
    rw [functionAt?, Option.map_eq_none_iff, List.find?_eq_none]
    intro node isNode starts
    exact isInner (isNumbered node isNode label starts).2

/-- The code of a document: what its tree was lowered to, in the frame of the program. -/
structure Document.HasCode (document : Document) (code body : List Instruction)
    (made : List (Nat × Nat)) (locals : Locals) : Prop where
  beginnings : Lowering.Beginnings document.root.preorder document.annotations document.functionAt?
  fragment : Lowering.Fragment document.root.preorder document.annotations document.root.id made body
  legible : Assembly.Legible ⟨document.root.id, []⟩ body
  /-- A variable is declared no more often than there is a node for it. -/
  counted : ∀ id, (made.map Prod.snd).count id ≤ (document.root.preorder.map Node.id).count id
  noted : (document.notes document.root).locals = some locals
  isCode : code = (if 0 < locals.size then [.reserve locals.size] else []) ++ body ++ [.halt]

/-- What lowering a document gives is its code. -/
theorem Document.hasCode_of_compile {document document' : Document} {compiled : Compiled}
    {locals : Locals} (framed : Frames.Framed document.annotations document.root.preorder)
    (noted : (document.annotations.get document.root.id).get? .locals = some (.locals locals))
    (own : Scoping.declared document.root ⊆ locals.ids)
    (plain : Lowering.PlainParams document.root)
    (success : document.compile = .ok (document', compiled)) :
    ∃ body made, document'.HasCode compiled.code body made locals := by
  have orderly := orderly_of_compile plain success
  obtain ⟨tag, name, statements, annotations, names, locals', code, last, root, given, noted',
    lowered, isCode, rfl⟩ := Document.compile_ok success
  have extended := Lowering.extends_of_giveAddresses given
  have isRoot : document.root.id = tag.id := by
    rw [root]
    rfl
  have stillNoted : (annotations.get document.root.id).locals = some locals :=
    Notes.locals_of_get? (extended _ _ _ noted)
  rw [← isRoot, stillNoted] at noted'
  cases noted'
  rw [← isRoot] at lowered
  obtain ⟨made, fragment, counted⟩ := (Lowering.lowers_visit lowered).fragmented
    (framed.extend extended) stillNoted (List.Subset.refl _) own
  refine ⟨code, made, beginnings_of_giveAddresses given rfl, fragment, ⟨?_, nofun⟩, counted,
    stillNoted, isCode⟩
  have distinct : (Assembly.placedLabels compiled.code).Nodup := .of_map _ orderly.distinct
  rw [isCode, Assembly.placedLabels_append, Assembly.placedLabels_append] at distinct
  exact (List.nodup_append.mp (List.nodup_append.mp distinct).1).2.1

/-- In the code of a document every function uses slots of its own, and so does the program. -/
theorem Document.HasCode.usesOwn {document : Document} {code body : List Instruction}
    {made : List (Nat × Nat)} {locals : Locals} (has : document.HasCode code body made locals) :
    Lowering.UsesOwn document.root.preorder document.annotations document.root.id
      (document.attributed code) := by
  have inner := Lowering.usesOwn_fragment has.beginnings has.fragment has.legible rfl
  have halt := Lowering.UsesOwn.silent document.root.preorder document.annotations document.root.id
    .halt rfl nofun
  have opening : Lowering.UsesOwn document.root.preorder document.annotations document.root.id
      (Assembly.attributed document.functionAt? ⟨document.root.id, []⟩
        (if 0 < locals.size then [.reserve locals.size] else [])) := by
    refine ⟨?_, ?_, ?_⟩
    · intro function instruction slot member uses
      split at member
      · cases List.mem_singleton.mp member
        cases uses
      · cases member
    · intro function size member
      split at member
      · cases List.mem_singleton.mp member
        exact ⟨locals, has.noted, rfl⟩
      · cases member
    · intro function instruction member
      split at member
      · cases List.mem_singleton.mp member
        exact .inl rfl
      · cases member
  have back : Assembly.Region.after document.functionAt? ⟨document.root.id, []⟩
      (if 0 < locals.size then [.reserve locals.size] else []) = ⟨document.root.id, []⟩ := by
    split <;> rfl
  unfold attributed
  rw [has.isCode, Assembly.attributed_append, Assembly.attributed_append, Assembly.after_append, back,
    Lowering.after_fragment has.beginnings has.fragment has.legible]
  exact (opening.append inner).append halt

/-- The program reserves its frame if it uses it. -/
theorem Document.HasCode.reserve_mem {document : Document} {code body : List Instruction}
    {made : List (Nat × Nat)} {locals : Locals} (has : document.HasCode code body made locals)
    (used : 0 < locals.size) : (document.root.id, .reserve locals.size) ∈ document.attributed code := by
  unfold attributed
  rw [has.isCode, if_pos used]
  exact List.mem_cons_self ..

namespace Program

variable {typeCheck : Bool} {anonymous source : String}
  {parsed analysed collected document : Document} {pool : Pool} {compiled : Compiled}

/-- The passes give every function its frame, and the program an empty one. -/
theorem framed_of_analyse (parse : Document.parse anonymous source = .ok parsed)
    (success : Program.analyse typeCheck parsed = .ok analysed) :
    Frames.Framed analysed.annotations analysed.root.preorder ∧ ∃ locals : Locals,
      (analysed.annotations.get analysed.root.id).get? .locals = some (.locals locals) ∧
      locals.ids = Scoping.declared analysed.root := by
  obtain ⟨wrapped, wrap, analyse⟩ := Walks.except_bind_ok.mp success
  obtain ⟨named, resolve, analyse⟩ := Walks.except_bind_ok.mp analyse
  obtain ⟨slotted, assign, check⟩ := Walks.except_bind_ok.mp analyse
  obtain ⟨root, function, block, call, callee, name, body, isWrapped, shaped, _⟩ :=
    @Document.wrapped_of_parse .all _ _ _ _ parse trivial (fun _ _ _ _ => trivial) wrap
  have sameNamed := Document.root_of_resolveNames resolve
  obtain ⟨sameSlotted, _, framed, locals, noted, ids⟩ :=
    Document.framed_of_assignSlots (sameNamed.trans isWrapped)
      (Stages.shaped_wrapped shaped trivial) assign
  obtain ⟨sameAnalysed, extended⟩ := Stages.extends_of_analyse check
  have isRoot := sameAnalysed.trans (sameSlotted.trans (sameNamed.trans isWrapped))
  rw [sameAnalysed, sameSlotted]
  refine ⟨framed.extend extended, locals, ?_, ?_⟩
  · rw [sameNamed, isWrapped]
    exact extended _ _ _ noted
  · rw [ids, sameNamed, isWrapped]
    rfl

theorem plainParams_of_analyse (parse : Document.parse anonymous source = .ok parsed)
    (analyse : Program.analyse typeCheck parsed = .ok analysed)
    (collect : analysed.collectConstants = .ok (collected, pool)) :
    Lowering.PlainParams collected.root := by
  obtain ⟨tag, name, statements, next, _, shaped, isRoot⟩ := Stages.root_of_analyse parse analyse
  rw [(Document.literals_of_collectConstants collect).1, isRoot]
  exact Document.plainParams_tree (Document.shaped_wrapping tag next shaped) name

/-- The code that a text is lowered to, and what of the analysis is still noted with it. -/
theorem hasCode_of_compile (parse : Document.parse anonymous source = .ok parsed)
    (analyse : Program.analyse typeCheck parsed = .ok analysed)
    (collect : analysed.collectConstants = .ok (collected, pool))
    (compile : collected.compile = .ok (document, compiled)) :
    document.root = analysed.root ∧ analysed.annotations.Extends document.annotations ∧
      ∃ body made locals, document.HasCode compiled.code body made locals := by
  obtain ⟨framed, locals, noted, ids⟩ := framed_of_analyse parse analyse
  obtain ⟨sameCollected, toCollected, _⟩ := Document.literals_of_collectConstants collect
  have plain := plainParams_of_analyse parse analyse collect
  have framedCollected := framed.extend toCollected
  have notedCollected := toCollected _ _ _ noted
  rw [← sameCollected] at framedCollected notedCollected ids
  have hasCode := Document.hasCode_of_compile framedCollected notedCollected
    (by rw [ids]; exact List.Subset.refl _) plain compile
  obtain ⟨_, _, _, _, _, _, _, _, _, given, _, _, _, rfl⟩ := Document.compile_ok compile
  refine ⟨sameCollected, toCollected.trans (Lowering.extends_of_giveAddresses given), ?_⟩
  obtain ⟨body, made, has⟩ := hasCode
  exact ⟨body, made, locals, has⟩

/-- An instruction that loads or stores a slot belongs to a function, or to the program, that has a
table with this slot. -/
theorem table_of_usedSlot (parse : Document.parse anonymous source = .ok parsed)
    (analyse : Program.analyse typeCheck parsed = .ok analysed)
    (collect : analysed.collectConstants = .ok (collected, pool))
    (compile : collected.compile = .ok (document, compiled)) {function slot : Nat}
    {instruction : Instruction}
    (member : (function, instruction) ∈ document.attributed compiled.code)
    (uses : instruction.usedSlot? = some slot) :
    ∃ owner ∈ document.root.preorder, owner.id = function ∧ ∃ table,
      document.HasTable owner table ∧ slot < table.size ∧
      ∃ declaration ∈ table.ids, (document.annotations.get declaration).index = some slot := by
  obtain ⟨sameRoot, extended, body, made, locals, has⟩ :=
    hasCode_of_compile parse analyse collect compile
  have usesOwn := has.usesOwn
  obtain ⟨declaration, table, noted, isOwn, index⟩ :=
    usesOwn.slots function instruction slot member uses
  have isOwner : ∃ owner ∈ document.root.preorder, Frames.ownsFrame owner = true ∧
      owner.id = function := by
    rcases usesOwn.reserved function instruction member with rfl | ⟨⟨node, isNode, isFunction, same⟩, _⟩
    · obtain ⟨_, _, _, _, _, _, isRoot⟩ := Stages.root_of_analyse parse analyse
      refine ⟨document.root, Node.self_mem_preorder _, ?_, rfl⟩
      rw [sameRoot, isRoot]
      rfl
    · refine ⟨node, isNode, ?_, same⟩
      cases node with
      | define => rfl
      | _ => cases isFunction
  obtain ⟨owner, isNode, owns, rfl⟩ := isOwner
  obtain ⟨table', hasTable⟩ :=
    hasTable_of_analyse parse analyse (by rwa [sameRoot] at isNode) owns
  have hasTable := hasTable.extend extended
  have same : table' = table := Option.some.inj (hasTable.noted.symm.trans noted)
  subst same
  obtain ⟨place, found⟩ := List.mem_iff_getElem?.mp isOwn
  have indexed := hasTable.indexed place declaration found
  rw [index] at indexed
  cases indexed
  have inside := (List.getElem?_eq_some_iff.mp found).1
  rw [Locals.length_ids] at inside
  exact ⟨owner, isNode, rfl, table', hasTable, inside, declaration, isOwn, index⟩

/-- Frames are used by their owners only. Once a text is analysed, the program and every function in
it have their tables of slots. If the text is lowered then, every instruction of the code belongs to
one of them, and one that loads or stores a slot does so below the size that its owner reserves, at
the slot of a variable of this owner. -/
theorem uses_slots_of_owner (parse : Document.parse anonymous source = .ok parsed)
    (analyse : Program.analyse typeCheck parsed = .ok analysed) :
    (∀ owner ∈ analysed.root.preorder, Frames.ownsFrame owner = true →
      ∃ table, analysed.HasTable owner table) ∧
    ∀ collected pool document compiled, analysed.collectConstants = .ok (collected, pool) →
      collected.compile = .ok (document, compiled) →
      (document.attributed compiled.code).map Prod.snd =
        compiled.code.filter (fun instruction => instruction.labelName?.isNone) ∧
      ∀ function instruction slot, (function, instruction) ∈ document.attributed compiled.code →
        instruction.usedSlot? = some slot →
        ∃ owner ∈ document.root.preorder, owner.id = function ∧ ∃ table,
          document.HasTable owner table ∧ slot < table.size ∧
          (∃ declaration ∈ table.ids, (document.annotations.get declaration).index = some slot) ∧
          (function, .reserve table.size) ∈ document.attributed compiled.code ∧
          ∀ size, (function, .reserve size) ∈ document.attributed compiled.code →
            size = table.size := by
  have tables : ∀ owner ∈ analysed.root.preorder, Frames.ownsFrame owner = true →
      ∃ table, analysed.HasTable owner table :=
    fun owner isNode owns => hasTable_of_analyse parse analyse isNode owns
  refine ⟨tables, ?_⟩
  intro collected pool document compiled collect compile
  obtain ⟨sameRoot, extended, body, made, locals, has⟩ :=
    hasCode_of_compile parse analyse collect compile
  refine ⟨Assembly.map_snd_attributed _, ?_⟩
  intro function instruction slot member uses
  have usesOwn := has.usesOwn
  obtain ⟨owner, isNode, rfl, table, hasTable, inside, isOwn⟩ :=
    table_of_usedSlot parse analyse collect compile member uses
  have sizes : ∀ size, (owner.id, .reserve size) ∈ document.attributed compiled.code →
      size = table.size := by
    intro size reserve
    obtain ⟨other, notedOther, rfl⟩ := usesOwn.sizes owner.id size reserve
    rw [Option.some.inj (notedOther.symm.trans hasTable.noted)]
  refine ⟨owner, isNode, rfl, table, hasTable, inside, isOwn, ?_, sizes⟩
  rcases usesOwn.reserved owner.id instruction member with isRoot | ⟨_, size, reserve⟩
  · have sameTable : locals = table := by
      have notedRoot := has.noted
      simp only [Document.notes, ← isRoot] at notedRoot
      exact Option.some.inj (notedRoot.symm.trans hasTable.noted)
    subst sameTable
    rw [isRoot]
    exact has.reserve_mem (by omega)
  · rwa [← sizes size reserve]

/-- A function inside another one: both have a parameter and a variable, in the same slots of frames
of their own. -/
theorem uses_slots_of_owner_of_nested :
    ∃ parsed analysed collected pool document compiled,
      Document.parse "main"
        "def f(a) \x7b val x = a; def g(b) \x7b var y = b; y \x7d; g(x) \x7d; f(1)" = .ok parsed ∧
      Program.analyse false parsed = .ok analysed ∧
      analysed.collectConstants = .ok (collected, pool) ∧
      collected.compile = .ok (document, compiled) ∧
      (document.attributed compiled.code).filterMap
          (fun (function, instruction) => instruction.usedSlot?.map fun slot => (function, slot)) =
        [(14, 0), (14, 1), (9, 0), (9, 1), (9, 1), (14, 1)] ∧
      ∀ function instruction slot, (function, instruction) ∈ document.attributed compiled.code →
        instruction.usedSlot? = some slot →
        ∃ owner ∈ document.root.preorder, owner.id = function ∧ ∃ table,
          document.HasTable owner table ∧ slot < table.size := by
  have lowers : ((Document.parse "main"
      "def f(a) \x7b val x = a; def g(b) \x7b var y = b; y \x7d; g(x) \x7d; f(1)").toOption.bind
        fun parsed => (Program.analyse false parsed).toOption.bind fun analysed =>
          analysed.collectConstants.toOption.bind fun collected =>
            collected.1.compile.toOption.map fun lowered =>
              (lowered.1.attributed lowered.2.code).filterMap fun (function, instruction) =>
                instruction.usedSlot?.map fun slot => (function, slot)) =
        some [(14, 0), (14, 1), (9, 0), (9, 1), (9, 1), (14, 1)] := by
    decide +kernel
  obtain ⟨parsed, parse, lowers⟩ := Option.bind_eq_some_iff.mp lowers
  obtain ⟨analysed, analyse, lowers⟩ := Option.bind_eq_some_iff.mp lowers
  obtain ⟨⟨collected, pool⟩, collect, lowers⟩ := Option.bind_eq_some_iff.mp lowers
  obtain ⟨⟨document, compiled⟩, compile, slots⟩ := Option.map_eq_some_iff.mp lowers
  have parse := ok_of_toOption parse
  have analysed' := ok_of_toOption analyse
  have collected' := ok_of_toOption collect
  have compiled' := ok_of_toOption compile
  refine ⟨parsed, analysed, collected, pool, document, compiled, parse, analysed', collected',
    compiled', slots, ?_⟩
  intro function instruction slot member uses
  obtain ⟨owner, isNode, same, table, hasTable, inside, _⟩ :=
    ((uses_slots_of_owner parse analysed').2 collected pool document compiled collected'
      compiled').2 function instruction slot member uses
  exact ⟨owner, isNode, same, table, hasTable, inside⟩

end Program

end ScriptVM
