import ScriptVM.Proofs.Assembled

/-!
What assembly does to any list of instructions, lowered or not.

The first label that is placed again is refused. If there is none, the first label that is gone to
and placed nowhere is refused. If there is none either, the instructions other than labels remain, in
order, and each label that one of them goes to is replaced by the number of instructions before the
place of the label (`located`). What remains has no labels, so assembling it changes nothing.
-/
namespace ScriptVM.Assembly

/-- The name is that of the first label whose name was placed before. -/
def FirstPlacedAgain (code : List Instruction) (name : String) : Prop :=
  ∃ before after, code = before ++ .label name :: after ∧ .label name ∈ before ∧
    (placedLabels before).Nodup

/-- The name is the first that is gone to and not placed. -/
def FirstUnplaced (code : List Instruction) (name : String) : Prop :=
  ∃ before instruction after, code = before ++ instruction :: after ∧
    goal? instruction = some name ∧ .label name ∉ code ∧
    ∀ other ∈ goals before, .label other ∈ code

/-- The number of instructions before the label with a name. -/
def place (code : List Instruction) (name : String) : Nat :=
  width (code.takeWhile fun instruction => instruction ≠ .label name)

/-- A target as an address. -/
def locatedTarget (code : List Instruction) : Target → Target
  | .label name => .address (place code name)
  | .address index => .address index

/-- An instruction that goes to an address. -/
def located (code : List Instruction) (instruction : Instruction) : Instruction :=
  match instruction.target? with
  | some target => instruction.withTarget (locatedTarget code target)
  | none => instruction

/-- An operand with its label as an address. -/
def locatedOperand (code : List Instruction) : Operand → Operand
  | .target target => .target (locatedTarget code target)
  | operand => operand

/-- The instructions that remain. -/
def unlabelled (code : List Instruction) : List Instruction :=
  code.filter fun instruction => instruction.labelName?.isNone

variable {code : List Instruction} {name : String}

section Names

theorem mem_placedLabels : name ∈ placedLabels code ↔ .label name ∈ code := by
  unfold placedLabels
  rw [List.mem_filterMap]
  constructor
  · intro found
    obtain ⟨instruction, member, isName⟩ := found
    cases instruction with
    | label other =>
      cases isName
      exact member
    | _ => cases isName
  · intro member
    exact ⟨.label name, member, rfl⟩

/-- The first repeated name ends a list of names that are different and new. -/
theorem firstRepeated_eq_some {seen names : List String} :
    firstRepeated seen names = some name ↔
      ∃ before after, names = before ++ name :: after ∧ (name ∈ seen ∨ name ∈ before) ∧
        before.Nodup ∧ ∀ other ∈ before, other ∉ seen := by
  induction names generalizing seen with
  | nil => simp [firstRepeated]
  | cons first rest ih =>
    unfold firstRepeated
    split
    next again =>
      have isSeen : first ∈ seen := by simpa using again
      constructor
      · intro same
        cases same
        exact ⟨[], rest, rfl, .inl isSeen, List.nodup_nil, by simp⟩
      · intro found
        obtain ⟨before, after, split, _, _, unseen⟩ := found
        cases before with
        | nil =>
          cases split
          rfl
        | cons other before =>
          cases split
          exact absurd isSeen (unseen first (by simp))
    next fresh =>
      have notSeen : first ∉ seen := by simpa using fresh
      rw [ih]
      constructor
      · intro found
        obtain ⟨before, after, rfl, isOld, distinct, unseen⟩ := found
        have notBefore : first ∉ before := fun member => unseen first member (by simp)
        refine ⟨first :: before, after, rfl, ?_, List.nodup_cons.mpr ⟨notBefore, distinct⟩, ?_⟩
        · simp only [List.mem_cons] at isOld ⊢
          tauto
        · intro other member
          rcases List.mem_cons.mp member with rfl | inBefore
          · exact notSeen
          · exact fun wasSeen => unseen other inBefore (List.mem_cons_of_mem _ wasSeen)
      · intro found
        obtain ⟨before, after, split, isOld, distinct, unseen⟩ := found
        cases before with
        | nil =>
          cases split
          rcases isOld with wasSeen | impossible
          · exact absurd wasSeen notSeen
          · cases impossible
        | cons other before =>
          cases split
          obtain ⟨notBefore, distinctRest⟩ := List.nodup_cons.mp distinct
          refine ⟨before, after, rfl, ?_, distinctRest, ?_⟩
          · simp only [List.mem_cons] at isOld ⊢
            tauto
          · intro other member wasSeen
            rcases List.mem_cons.mp wasSeen with rfl | inSeen
            · exact notBefore member
            · exact unseen other (List.mem_cons_of_mem _ member) inSeen

/-- Where the placed labels split, so does the code. -/
theorem placedLabels_eq_append_cons {before after : List String} :
    placedLabels code = before ++ name :: after ↔
      ∃ first second, code = first ++ .label name :: second ∧ placedLabels first = before ∧
        placedLabels second = after := by
  constructor
  · intro split
    obtain ⟨first, others, rfl, isBefore, split⟩ := List.filterMap_eq_append_iff.mp split
    obtain ⟨silent, instruction, second, rfl, noLabels, isName, isAfter⟩ :=
      List.filterMap_eq_cons_iff.mp split
    have isLabel : instruction = .label name := by
      cases instruction with
      | label other =>
        cases isName
        rfl
      | _ => cases isName
    subst isLabel
    refine ⟨first ++ silent, second, by simp, ?_, isAfter⟩
    rw [placedLabels_append, show placedLabels silent = [] from
      List.filterMap_eq_nil_iff.mpr noLabels, List.append_nil]
    exact isBefore
  · intro split
    obtain ⟨first, second, rfl, rfl, rfl⟩ := split
    rw [placedLabels_append, placedLabels_cons]
    rfl

theorem firstRepeated_eq_some_iff :
    firstRepeated [] (placedLabels code) = some name ↔ FirstPlacedAgain code name := by
  rw [firstRepeated_eq_some]
  constructor
  · intro found
    obtain ⟨before, after, split, isOld, distinct, _⟩ := found
    obtain ⟨first, second, rfl, rfl, rfl⟩ := placedLabels_eq_append_cons.mp split
    refine ⟨first, second, rfl, ?_, distinct⟩
    rcases isOld with impossible | again
    · cases impossible
    · exact mem_placedLabels.mp again
  · intro found
    obtain ⟨first, second, rfl, again, distinct⟩ := found
    refine ⟨placedLabels first, placedLabels second, ?_, .inr (mem_placedLabels.mpr again),
      distinct, fun _ _ => List.not_mem_nil⟩
    exact placedLabels_eq_append_cons.mpr ⟨first, second, rfl, rfl, rfl⟩

theorem firstRepeated_eq_none_iff :
    firstRepeated [] (placedLabels code) = none ↔ (placedLabels code).Nodup := by
  constructor
  · exact fun unrepeated => (nodup_of_firstRepeated unrepeated).1
  · exact fun distinct => firstRepeated_of_nodup distinct fun _ _ => List.not_mem_nil

end Names

section Table

theorem place_cons {first : Instruction} {rest : List Instruction} (other : first ≠ .label name) :
    place (first :: rest) name = place rest name + first.labelName?.isNone.toNat := by
  simp [place, other, width_step]

/-- The table gives a label the number of instructions before it, counted from the index. -/
theorem lookup_labels (index : Nat) :
    (labels index code).lookup name =
      if .label name ∈ code then some (index + place code name) else none := by
  induction code generalizing index with
  | nil => rfl
  | cons first rest ih =>
    by_cases here : first = .label name
    · subst here
      simp [labels, place]
    · have elsewhere : (.label name ∈ first :: rest) = (.label name ∈ rest) := by
        simp [Ne.symm here]
      rw [place_cons here]
      cases first with
      | label other =>
        have different : name ≠ other := by
          rintro rfl
          exact here rfl
        simp only [labels, List.lookup_cons, beq_false_of_ne different, ih, elsewhere]
        rfl
      | _ =>
        simp only [labels, ih, elsewhere, Instruction.labelName?, Option.isNone_none, Bool.toNat_true]
        simp only [Nat.add_assoc, Nat.add_comm 1]

theorem lookup_labels_of_placed (placed : .label name ∈ code) :
    (labels 0 code).lookup name = some (place code name) := by
  rw [lookup_labels, if_pos placed, Nat.zero_add]

theorem lookup_labels_eq_none : (labels 0 code).lookup name = none ↔ .label name ∉ code := by
  rw [lookup_labels]
  split <;> simp_all

end Table

section Resolving

variable {part : List Instruction}

theorem resolve_error {table : List (String × Nat)} {instruction : Instruction}
    {error : AssemblyError} :
    resolve table instruction = .error error ↔
      ∃ label, goal? instruction = some label ∧ table.lookup label = none ∧
        error = .unknownLabel label := by
  unfold resolve goal?
  cases instruction.target? with
  | none => simp
  | some target =>
    cases target with
    | address index => simp
    | label label =>
      simp only [Option.some.injEq, exists_eq_left']
      cases table.lookup label with
      | some index => simp
      | none => simp only [Except.error.injEq, true_and, eq_comm]

/-- Resolving stops at the first label that the table does not know. -/
theorem resolveAll_error {table : List (String × Nat)} {error : AssemblyError} :
    resolveAll table part = .error error ↔
      ∃ before instruction after label, part = before ++ instruction :: after ∧
        goal? instruction = some label ∧ table.lookup label = none ∧
        error = .unknownLabel label ∧ ∀ other ∈ goals before, table.lookup other ≠ none := by
  induction part with
  | nil =>
    constructor
    · intro impossible
      cases impossible
    · intro found
      obtain ⟨before, _, _, _, impossible, _⟩ := found
      cases before <;> cases impossible
  | cons first rest ih =>
    have later : (∀ label ∈ (goal? first).toList, table.lookup label ≠ none) →
        (resolveAll table rest = .error error ↔
          ∃ before instruction after label, first :: rest = before ++ instruction :: after ∧
            goal? instruction = some label ∧ table.lookup label = none ∧
            error = .unknownLabel label ∧ ∀ other ∈ goals before, table.lookup other ≠ none) := by
      intro known
      rw [ih]
      constructor
      · intro found
        obtain ⟨before, instruction, after, label, rfl, isGoal, unknown, same, others⟩ := found
        refine ⟨first :: before, instruction, after, label, rfl, isGoal, unknown, same, ?_⟩
        intro other member
        rw [goals_cons, List.mem_append] at member
        rcases member with isFirst | inBefore
        · exact known other isFirst
        · exact others other inBefore
      · intro found
        obtain ⟨before, instruction, after, label, split, isGoal, unknown, same, others⟩ := found
        cases before with
        | nil =>
          cases split
          exact absurd unknown (known label (by simp [isGoal]))
        | cons other before =>
          cases split
          refine ⟨before, instruction, after, label, rfl, isGoal, unknown, same, ?_⟩
          intro goal member
          exact others goal (by simp [goals_cons, member])
    cases plain : first.labelName? with
    | some name =>
      cases first with
      | label name => exact later (by simp [goal?, Instruction.target?])
      | _ => cases plain
    | none =>
      rw [resolveAll_cons rest plain]
      cases resolvedFirst : resolve table first with
      | error failure =>
        obtain ⟨label, isGoal, unknown, rfl⟩ := resolve_error.mp resolvedFirst
        constructor
        · intro same
          cases same
          exact ⟨[], first, rest, label, rfl, isGoal, unknown, rfl, by simp [goals]⟩
        · intro found
          obtain ⟨before, instruction, after, label', split, isGoal', _, same, others⟩ := found
          cases before with
          | nil =>
            cases split
            rw [isGoal] at isGoal'
            cases isGoal'
            rw [same]
            rfl
          | cons other before =>
            cases split
            exact absurd unknown (others label (by simp [goals_cons, isGoal]))
      | ok here =>
        have known : ∀ label ∈ (goal? first).toList, table.lookup label ≠ none := by
          intro label isGoal unknown
          have failed := resolve_error.mpr ⟨label, by simpa using isGoal, unknown, rfl⟩
          rw [resolvedFirst] at failed
          cases failed
        rw [← later known]
        cases resolveAll table rest with
        | error failure => rfl
        | ok others => simp [bind, Except.bind, pure, Except.pure]

/-- The table knows every label that resolved code goes to. -/
theorem known_of_resolveAll {table : List (String × Nat)} {resolved : List Instruction}
    (success : resolveAll table part = .ok resolved) {label : String} (isGoal : label ∈ goals part) :
    table.lookup label ≠ none := by
  induction part generalizing resolved with
  | nil => cases isGoal
  | cons first rest ih =>
    rw [goals_cons, List.mem_append] at isGoal
    cases plain : first.labelName? with
    | some name =>
      cases first with
      | label name =>
        rcases isGoal with impossible | inRest
        · cases impossible
        · exact ih success inRest
      | _ => cases plain
    | none =>
      rw [resolveAll_cons rest plain] at success
      obtain ⟨here, resolvedHere, success⟩ := Walks.except_bind_ok.mp success
      obtain ⟨others, resolvedRest, _⟩ := Walks.except_bind_ok.mp success
      rcases isGoal with isFirst | inRest
      · intro unknown
        have failed := resolve_error.mpr ⟨label, by simpa using isFirst, unknown, rfl⟩
        rw [resolvedHere] at failed
        cases failed
      · exact ih resolvedRest inRest

theorem resolve_labels {instruction : Instruction}
    (placed : ∀ label, goal? instruction = some label → .label label ∈ code) :
    resolve (labels 0 code) instruction = .ok (located code instruction) := by
  unfold resolve located
  cases isTarget : instruction.target? with
  | none => rfl
  | some target =>
    cases target with
    | address index => cases instruction <;> cases isTarget <;> rfl
    | label label =>
      have isGoal : goal? instruction = some label := by simp [goal?, isTarget]
      simp only [lookup_labels_of_placed (placed label isGoal), locatedTarget]

/-- Resolving part of the code whose goals are all placed. -/
theorem resolveAll_labels (placed : ∀ label ∈ goals part, .label label ∈ code) :
    resolveAll (labels 0 code) part = .ok ((unlabelled part).map (located code)) := by
  induction part with
  | nil => rfl
  | cons first rest ih =>
    have others := ih fun label isGoal => placed label (by simp [goals_cons, isGoal])
    cases plain : first.labelName? with
    | some name =>
      cases first with
      | label name => exact others
      | _ => cases plain
    | none =>
      have here : resolve (labels 0 code) first = .ok (located code first) :=
        resolve_labels fun label isGoal => placed label (by simp [goals_cons, isGoal])
      rw [resolveAll_cons rest plain, here, others]
      simp [unlabelled, plain, bind, Except.bind, pure, Except.pure]

end Resolving

section Located

theorem goal?_located (code : List Instruction) (instruction : Instruction) :
    goal? (located code instruction) = none := by
  unfold located
  cases isTarget : instruction.target? with
  | none => simp [goal?, isTarget]
  | some target => cases target <;> cases instruction <;> cases isTarget <;> rfl

theorem labelName?_located {instruction : Instruction} (plain : instruction.labelName? = none) :
    (located code instruction).labelName? = none := by
  unfold located
  split
  · exact labelName?_withTarget _ plain
  · exact plain

/-- Locating changes nothing but a label among the operands. -/
theorem operands_located {instruction : Instruction} (plain : instruction.labelName? = none) :
    (located code instruction).opcode = instruction.opcode ∧
      (located code instruction).operands = instruction.operands.map (locatedOperand code) := by
  cases instruction with
  | label name => cases plain
  | unset regs | save regs | restore regs =>
    refine ⟨rfl, ?_⟩
    simp [located, Instruction.target?, Instruction.operands, locatedOperand]
  | call target args =>
    refine ⟨rfl, ?_⟩
    simp [located, Instruction.target?, Instruction.withTarget, Instruction.operands,
      locatedOperand]
  | _ => exact ⟨rfl, rfl⟩

end Located

theorem assemble_eq (code : List Instruction) :
    assemble code =
      match firstRepeated [] (placedLabels code) with
      | some name => .error (.duplicateLabel name)
      | none => resolveAll (labels 0 code) code := by
  cases repeated : firstRepeated [] (placedLabels code) <;>
    simp [assemble, map_fst_labels, repeated]

theorem resolveAll_not_duplicate {table : List (String × Nat)} {part : List Instruction} :
    resolveAll table part ≠ .error (.duplicateLabel name) := by
  intro failed
  obtain ⟨_, _, _, _, _, _, _, impossible, _⟩ := resolveAll_error.mp failed
  cases impossible

theorem assemble_duplicate :
    assemble code = .error (.duplicateLabel name) ↔ FirstPlacedAgain code name := by
  rw [assemble_eq, ← firstRepeated_eq_some_iff]
  cases firstRepeated [] (placedLabels code) with
  | none => simp [resolveAll_not_duplicate]
  | some other => simp

theorem assemble_of_distinct (distinct : (placedLabels code).Nodup) :
    assemble code = resolveAll (labels 0 code) code := by
  rw [assemble_eq, firstRepeated_eq_none_iff.mpr distinct]

theorem distinct_of_assemble {out : Except AssemblyError (List Instruction)}
    (assembled : assemble code = out) (other : ∀ name, out ≠ .error (.duplicateLabel name)) :
    (placedLabels code).Nodup := by
  rw [assemble_eq] at assembled
  cases repeated : firstRepeated [] (placedLabels code) with
  | none => exact firstRepeated_eq_none_iff.mp repeated
  | some name =>
    rw [repeated] at assembled
    exact absurd assembled.symm (other name)

theorem distinct_iff_not_again :
    (placedLabels code).Nodup ↔ ¬ ∃ name, FirstPlacedAgain code name := by
  simp only [← firstRepeated_eq_none_iff, ← firstRepeated_eq_some_iff, Option.eq_none_iff_forall_ne_some,
    not_exists, ne_eq]

theorem resolveAll_unknown :
    resolveAll (labels 0 code) code = .error (.unknownLabel name) ↔ FirstUnplaced code name := by
  rw [resolveAll_error]
  simp only [lookup_labels_eq_none, ne_eq, not_not, AssemblyError.unknownLabel.injEq]
  constructor
  · intro found
    obtain ⟨before, instruction, after, label, split, isGoal, unplaced, rfl, others⟩ := found
    exact ⟨before, instruction, after, split, isGoal, unplaced, others⟩
  · intro found
    obtain ⟨before, instruction, after, split, isGoal, unplaced, others⟩ := found
    exact ⟨before, instruction, after, name, split, isGoal, unplaced, rfl, others⟩

theorem goals_placed_of_resolved {out : List Instruction}
    (success : resolveAll (labels 0 code) code = .ok out) :
    ∀ label ∈ goals code, .label label ∈ code := by
  intro label isGoal
  by_contra unplaced
  exact known_of_resolveAll success isGoal (lookup_labels_eq_none.mpr unplaced)

theorem placed_iff_not_unplaced :
    (∀ label ∈ goals code, .label label ∈ code) ↔ ¬ ∃ name, FirstUnplaced code name := by
  constructor
  · intro placed found
    obtain ⟨name, before, instruction, after, rfl, isGoal, unplaced, _⟩ := found
    exact unplaced (placed name (by simp [goals_cons, isGoal]))
  · intro none
    cases resolved : resolveAll (labels 0 code) code with
    | ok out => exact goals_placed_of_resolved resolved
    | error error =>
      obtain ⟨_, _, _, first, _, _, _, rfl, _⟩ := resolveAll_error.mp resolved
      exact absurd ⟨first, resolveAll_unknown.mp resolved⟩ none

theorem assemble_unknown :
    assemble code = .error (.unknownLabel name) ↔
      (placedLabels code).Nodup ∧ FirstUnplaced code name := by
  constructor
  · intro failed
    have distinct := distinct_of_assemble failed nofun
    rw [assemble_of_distinct distinct] at failed
    exact ⟨distinct, resolveAll_unknown.mp failed⟩
  · intro found
    rw [assemble_of_distinct found.1]
    exact resolveAll_unknown.mpr found.2

theorem assemble_ok {out : List Instruction} :
    assemble code = .ok out ↔
      (placedLabels code).Nodup ∧ (∀ label ∈ goals code, .label label ∈ code) ∧
        out = (unlabelled code).map (located code) := by
  constructor
  · intro assembled
    have distinct := distinct_of_assemble assembled nofun
    rw [assemble_of_distinct distinct] at assembled
    have placed := goals_placed_of_resolved assembled
    rw [resolveAll_labels placed] at assembled
    cases assembled
    exact ⟨distinct, placed, rfl⟩
  · intro holds
    obtain ⟨distinct, placed, rfl⟩ := holds
    rw [assemble_of_distinct distinct, resolveAll_labels placed]

/-- Assembled code is assembled already. -/
theorem assemble_unlabelled (code : List Instruction) :
    assemble ((unlabelled code).map (located code)) = .ok ((unlabelled code).map (located code)) := by
  have plain : ∀ instruction ∈ (unlabelled code).map (located code),
      instruction.labelName? = none ∧ goal? instruction = none := by
    intro instruction member
    obtain ⟨original, remains, rfl⟩ := List.mem_map.mp member
    have isPlain : original.labelName? = none := by simpa using (List.mem_filter.mp remains).2
    exact ⟨labelName?_located isPlain, goal?_located code original⟩
  have noLabels : placedLabels ((unlabelled code).map (located code)) = [] :=
    List.filterMap_eq_nil_iff.mpr fun instruction member => (plain instruction member).1
  have noGoals : goals ((unlabelled code).map (located code)) = [] :=
    List.filterMap_eq_nil_iff.mpr fun instruction member => (plain instruction member).2
  rw [assemble_ok, noLabels, noGoals]
  refine ⟨List.nodup_nil, nofun, ?_⟩
  have same : ∀ instruction ∈ (unlabelled code).map (located code),
      located ((unlabelled code).map (located code)) instruction = instruction := by
    intro instruction member
    have noGoal := (plain instruction member).2
    unfold located
    cases isTarget : instruction.target? with
    | none => rfl
    | some target =>
      cases target with
      | label label => simp [goal?, isTarget] at noGoal
      | address index => cases instruction <;> cases isTarget <;> rfl
  have all : unlabelled ((unlabelled code).map (located code)) =
      (unlabelled code).map (located code) :=
    List.filter_eq_self.mpr fun instruction member => by simp [(plain instruction member).1]
  rw [all, List.map_congr_left same, List.map_id']

/-- All that assembly does. It refuses a list of instructions for the first label that is placed
again, or else for the first that is gone to and not placed, and for nothing else. Otherwise the
instructions other than labels remain, in order and unchanged but for the labels among their
operands, which become the numbers of instructions before them. Assembling what remains gives it
back. -/
theorem resolves_labels (code : List Instruction) :
    (∀ name, assemble code = .error (.duplicateLabel name) ↔ FirstPlacedAgain code name) ∧
    (∀ name, assemble code = .error (.unknownLabel name) ↔
      (¬ ∃ again, FirstPlacedAgain code again) ∧ FirstUnplaced code name) ∧
    (∀ out, assemble code = .ok out ↔
      (¬ ∃ again, FirstPlacedAgain code again) ∧ (¬ ∃ unplaced, FirstUnplaced code unplaced) ∧
        out = (unlabelled code).map (located code)) ∧
    (∀ instruction ∈ unlabelled code,
      (located code instruction).opcode = instruction.opcode ∧
        (located code instruction).operands = instruction.operands.map (locatedOperand code)) ∧
    ∀ out, assemble code = .ok out → assemble out = .ok out := by
  refine ⟨fun _ => assemble_duplicate, ?_, ?_, ?_, ?_⟩
  · intro name
    rw [assemble_unknown, distinct_iff_not_again]
  · intro out
    rw [assemble_ok, distinct_iff_not_again, placed_iff_not_unplaced]
  · intro instruction remains
    have plain : instruction.labelName? = none := by simpa using (List.mem_filter.mp remains).2
    exact operands_located plain
  · intro out assembled
    obtain ⟨_, _, rfl⟩ := assemble_ok.mp assembled
    exact assemble_unlabelled code

/-- Two labels at one place, the second of them at the end, and a target that is an address. -/
example :
    assemble [.jump (.label "end"), .label "again", .branchZero 1 (.label "again"),
        .call (.address 7) [2], .label "end", .label "last"] =
      .ok [.jump (.address 3), .branchZero 1 (.address 1), .call (.address 7) [2]] := by
  decide

end ScriptVM.Assembly
