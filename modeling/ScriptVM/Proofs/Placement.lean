import ScriptVM.Instruction.Assembly

/-!
Where assembly puts instructions.

Assembled code holds the instructions of the labelled code in order, without the labels, and every
label of the labelled code stands for the address of the instruction after it. `Placed` says this of
a stretch of labelled code; it splits where the stretch does, so code made of parts is placed just
when its parts are, one after the other.
-/
namespace ScriptVM.Assembly

/-- The number of instructions that remain after assembly. -/
def width (code : List Instruction) : Nat :=
  code.countP fun instruction => instruction.labelName?.isNone

/-- Labelled code stands at an address of assembled code, and its labels with it. -/
def Placed (table : List (String × Nat)) (assembled : Array Instruction) :
    Nat → List Instruction → Prop
  | _, [] => True
  | pc, .label name :: rest => table.lookup name = some pc ∧ Placed table assembled pc rest
  | pc, instruction :: rest =>
    (∃ resolved, resolve table instruction = .ok resolved ∧ assembled[pc]? = some resolved) ∧
      Placed table assembled (pc + 1) rest

variable {table : List (String × Nat)} {assembled : Array Instruction}

@[simp] theorem width_nil : width [] = 0 := rfl

@[simp] theorem width_label (name : String) (rest : List Instruction) :
    width (.label name :: rest) = width rest := by
  simp [width, Instruction.labelName?]

theorem width_cons {instruction : Instruction} (rest : List Instruction)
    (plain : instruction.labelName? = none) : width (instruction :: rest) = width rest + 1 := by
  simp [width, plain]

/-- One more instruction, whichever it is. -/
theorem width_step (instruction : Instruction) (rest : List Instruction) :
    width (instruction :: rest) = width rest + instruction.labelName?.isNone.toNat := by
  cases plain : instruction.labelName? <;> simp [width, plain]

@[simp] theorem width_append (first second : List Instruction) :
    width (first ++ second) = width first + width second := by
  simp [width]

theorem width_snoc {instruction : Instruction} (before : List Instruction)
    (plain : instruction.labelName? = none) : width (before ++ [instruction]) = width before + 1 := by
  rw [width_append, width_cons [] plain, width_nil]

theorem placed_cons {instruction : Instruction} {pc : Nat} {rest : List Instruction}
    (plain : instruction.labelName? = none) :
    Placed table assembled pc (instruction :: rest) ↔
      (∃ resolved, resolve table instruction = .ok resolved ∧ assembled[pc]? = some resolved) ∧
        Placed table assembled (pc + 1) rest := by
  cases instruction with
  | label name => cases plain
  | _ => rfl

theorem Placed.at_pc {pc pc' : Nat} {code : List Instruction}
    (placed : Placed table assembled pc code) (same : pc = pc') : Placed table assembled pc' code :=
  same ▸ placed

theorem placed_tail {instruction : Instruction} {pc : Nat} {rest : List Instruction}
    (placed : Placed table assembled pc (instruction :: rest))
    (plain : instruction.labelName? = none) : Placed table assembled (pc + 1) rest :=
  ((placed_cons plain).mp placed).2

theorem placed_append {pc : Nat} {first second : List Instruction} :
    Placed table assembled pc (first ++ second) ↔
      Placed table assembled pc first ∧ Placed table assembled (pc + width first) second := by
  induction first generalizing pc with
  | nil => simp [Placed]
  | cons instruction rest ih =>
    cases plain : instruction.labelName? with
    | some name =>
      cases instruction with
      | label name => simp only [List.cons_append, Placed, ih, width_label, and_assoc]
      | _ => cases plain
    | none =>
      rw [List.cons_append, placed_cons plain, placed_cons plain, ih, width_cons rest plain,
        Nat.add_assoc pc, Nat.add_comm 1, and_assoc]

/-- Code that is placed somewhere lies within the assembled code. -/
theorem Placed.le_size {pc : Nat} {code : List Instruction} (placed : Placed table assembled pc code)
    (inside : pc ≤ assembled.size) : pc + width code ≤ assembled.size := by
  induction code generalizing pc with
  | nil => exact inside
  | cons instruction rest ih =>
    cases plain : instruction.labelName? with
    | some name =>
      cases instruction with
      | label name =>
        rw [width_label]
        exact ih placed.2 inside
      | _ => cases plain
    | none =>
      obtain ⟨⟨resolved, _, stands⟩, placedRest⟩ := (placed_cons plain).mp placed
      have := ih placedRest (Array.getElem?_eq_some_iff.mp stands).1
      rw [width_cons rest plain]
      omega

/-- A part of the code is placed where the instructions before it end. -/
theorem placed_infix {pc : Nat} {before part after : List Instruction}
    (placed : Placed table assembled pc (before ++ part ++ after)) :
    Placed table assembled (pc + width before) part := by
  rw [placed_append, placed_append] at placed
  exact placed.1.2

/-- Names without a repetition are all different, and none was seen before. -/
theorem nodup_of_firstRepeated {names seen : List String} (unique : firstRepeated seen names = none) :
    names.Nodup ∧ ∀ name ∈ names, name ∉ seen := by
  induction names generalizing seen with
  | nil => simp
  | cons name rest ih =>
    unfold firstRepeated at unique
    split at unique
    · cases unique
    next fresh =>
      obtain ⟨nodup, unseen⟩ := ih unique
      have nameUnseen : name ∉ seen := by simpa using fresh
      refine ⟨List.nodup_cons.mpr ⟨?_, nodup⟩, ?_⟩
      · intro again
        exact unseen name again (by simp)
      · intro other member
        rcases List.mem_cons.mp member with rfl | inRest
        · exact nameUnseen
        · intro wasSeen
          exact unseen other inRest (List.mem_cons_of_mem _ wasSeen)

theorem lookup_of_mem {name : String} {address : Nat} {entries : List (String × Nat)}
    (unique : (entries.map Prod.fst).Nodup) (member : (name, address) ∈ entries) :
    entries.lookup name = some address := by
  induction entries with
  | nil => cases member
  | cons entry rest ih =>
    obtain ⟨key, value⟩ := entry
    simp only [List.map_cons, List.nodup_cons] at unique
    rcases List.mem_cons.mp member with same | inRest
    · cases same
      simp
    · have different : name ≠ key := by
        rintro rfl
        exact unique.1 (List.mem_map.mpr ⟨(name, address), inRest, rfl⟩)
      simp only [List.lookup_cons, beq_false_of_ne different]
      exact ih unique.2 inRest

theorem labels_cons {instruction : Instruction} (index : Nat) (rest : List Instruction)
    (plain : instruction.labelName? = none) :
    labels index (instruction :: rest) = labels (index + 1) rest := by
  cases instruction with
  | label name => cases plain
  | _ => rfl

theorem resolveAll_cons {instruction : Instruction} (rest : List Instruction)
    (plain : instruction.labelName? = none) :
    resolveAll table (instruction :: rest) = (do
      let first ← resolve table instruction
      let others ← resolveAll table rest
      return first :: others) := by
  cases instruction with
  | label name => cases plain
  | _ => rfl

/-- Resolved code is placed where it stands, given that the table knows its labels. A label takes no
place, so what follows it is placed at the same address. -/
theorem placed_of_resolveAll {code resolved : List Instruction} {index : Nat}
    (known : ∀ name address, (name, address) ∈ labels index code →
      table.lookup name = some address)
    (stands : ∀ offset instruction, resolved[offset]? = some instruction →
      assembled[index + offset]? = some instruction)
    (success : resolveAll table code = .ok resolved) : Placed table assembled index code := by
  induction code generalizing index resolved with
  | nil => trivial
  | cons instruction rest ih =>
    cases plain : instruction.labelName? with
    | some name =>
      cases instruction with
      | label name =>
        refine ⟨known name index (by simp [labels]), ih ?_ stands success⟩
        intro other address member
        exact known other address (by simp [labels, member])
      | _ => cases plain
    | none =>
      rw [resolveAll_cons rest plain] at success
      cases first : resolve table instruction with
      | error e => simp [first, bind, Except.bind] at success
      | ok here =>
        cases others : resolveAll table rest with
        | error e => simp [first, others, bind, Except.bind] at success
        | ok tail =>
          simp only [first, others, bind, Except.bind, pure, Except.pure, Except.ok.injEq]
            at success
          subst success
          rw [placed_cons plain]
          refine ⟨⟨here, first, stands 0 here rfl⟩, ih ?_ ?_ others⟩
          · intro name address member
            exact known name address (by rwa [labels_cons index rest plain])
          · intro offset other found
            have := stands (offset + 1) other (by simpa using found)
            rwa [Nat.add_right_comm, Nat.add_assoc]

/-- Assembled code holds the labelled code from its start. -/
theorem placed_of_assemble {code resolved : List Instruction}
    (success : assemble code = .ok resolved) :
    Placed (labels 0 code) resolved.toArray 0 code := by
  unfold assemble at success
  dsimp only at success
  split at success
  · cases success
  next unique =>
    obtain ⟨nodup, _⟩ := nodup_of_firstRepeated unique
    refine placed_of_resolveAll ?_ ?_ success
    · intro name address member
      exact lookup_of_mem nodup member
    · intro offset instruction found
      simpa using found

end ScriptVM.Assembly
