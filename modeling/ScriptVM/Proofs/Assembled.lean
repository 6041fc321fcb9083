import ScriptVM.Proofs.Correctness
import ScriptVM.Proofs.Emitted
import ScriptVM.Proofs.Renamed

/-!
Assembling a lowered program succeeds.

The labels of lowered code are distinct and all of those it goes to are placed, whatever the names
in the source are. So every target gets an address, and since lowered code does not end with a
label, the address is that of an instruction.
-/
namespace ScriptVM

namespace Assembly

variable {table : List (String × Nat)} {code : List Instruction}

/-- Code resolves if the table knows every label that it goes to. -/
theorem exists_resolveAll (known : ∀ label ∈ goals code, ∃ address, table.lookup label = some address) :
    ∃ resolved, resolveAll table code = .ok resolved := by
  induction code with
  | nil => exact ⟨[], rfl⟩
  | cons first rest ih =>
    rw [goals_cons] at known
    obtain ⟨others, resolvedRest⟩ := ih fun label isGoal => known label (by simp [isGoal])
    cases plain : first.labelName? with
    | some name =>
      cases first with
      | label name => exact ⟨others, resolvedRest⟩
      | _ => cases plain
    | none =>
      have resolvedHere : ∃ here, resolve table first = .ok here := by
        unfold resolve
        split
        next label isLabel =>
          obtain ⟨address, found⟩ := known label (by simp [goal?, isLabel])
          exact ⟨_, by rw [found]⟩
        next => exact ⟨first, rfl⟩
      obtain ⟨here, resolvedHere⟩ := resolvedHere
      exact ⟨here :: others, by rw [resolveAll_cons rest plain, resolvedHere, resolvedRest]; rfl⟩

/-- Orderly code can be assembled. -/
theorem Orderly.exists_assemble (orderly : Orderly code) :
    ∃ resolved, assemble code = .ok resolved := by
  have names := map_fst_labels 0 code
  have distinct : (placedLabels code).Nodup := .of_map _ orderly.distinct
  have unrepeated := firstRepeated_of_nodup distinct fun _ _ => List.not_mem_nil
  unfold assemble
  simp only [names, unrepeated]
  refine exists_resolveAll fun label isGoal => ?_
  have placed := orderly.reaches label isGoal
  rw [← names] at placed distinct
  obtain ⟨⟨_, address⟩, member, rfl⟩ := List.mem_map.mp placed
  exact ⟨address, lookup_of_mem distinct member⟩

/-- A label stands for the number of instructions before it. -/
theorem address_le_of_labels {index address : Nat} {label : String}
    (member : (label, address) ∈ labels index code) : address ≤ index + width code := by
  induction code generalizing index with
  | nil => cases member
  | cons first rest ih =>
    cases plain : first.labelName? with
    | some name =>
      cases first with
      | label name =>
        rw [width_label]
        rcases List.mem_cons.mp member with same | inRest
        · cases same
          exact Nat.le_add_right _ _
        · exact ih inRest
      | _ => cases plain
    | none =>
      rw [labels_cons index rest plain] at member
      rw [width_cons rest plain, ← Nat.add_assoc, Nat.add_right_comm]
      exact ih member

theorem labels_snoc {instruction : Instruction} (index : Nat) (before : List Instruction)
    (plain : instruction.labelName? = none) :
    labels index (before ++ [instruction]) = labels index before := by
  induction before generalizing index with
  | nil => exact labels_cons index [] plain
  | cons first rest ih =>
    cases first with
    | label name => exact congrArg ((name, index) :: ·) (ih index)
    | _ => exact ih (index + 1)

/-- Instructions without labels, whose targets are addresses of some among them. -/
def Closed (code : List Instruction) : Prop :=
  ∀ instruction ∈ code, instruction.labelName? = none ∧
    ∀ target, instruction.target? = some target → ∃ address, target = .address address ∧
      address < code.length

theorem target?_withTarget {instruction : Instruction} {target target' : Target}
    (found : (instruction.withTarget target).target? = some target') : target' = target := by
  cases instruction <;> cases found <;> rfl

theorem labelName?_withTarget {instruction : Instruction} (target : Target)
    (plain : instruction.labelName? = none) : (instruction.withTarget target).labelName? = none := by
  cases instruction with
  | label name => cases plain
  | _ => rfl

/-- Lowered code that ends with an instruction other than a label assembles to closed code. -/
theorem closed_of_assemble {before resolved : List Instruction} {last : Instruction}
    (emitted : ∀ instruction ∈ before ++ [last], Lowering.Emitted True instruction)
    (plain : last.labelName? = none) (success : assemble (before ++ [last]) = .ok resolved) :
    Closed resolved := by
  have success := resolveAll_of_assemble success
  have length := length_of_resolveAll success
  rw [width_snoc before plain] at length
  intro instruction member
  obtain ⟨original, isOriginal, plainOriginal, found⟩ := mem_of_resolveAll success member
  rcases resolve_ok found with ⟨label, address, _, known, rfl⟩ | ⟨noLabel, rfl⟩
  · refine ⟨labelName?_withTarget _ plainOriginal, fun target isTarget => ?_⟩
    refine ⟨address, target?_withTarget isTarget, ?_⟩
    rw [labels_snoc 0 before plain] at known
    have := address_le_of_labels (Names.mem_of_lookup known)
    omega
  · refine ⟨plainOriginal, fun target isTarget => ?_⟩
    have goes := emitted instruction isOriginal
    cases instruction with
    | loadAddress | jump | branchZero | branchNonzero | branch | call =>
      obtain ⟨label, rfl⟩ := goes
      exact absurd rfl (noLabel label)
    | _ => cases isTarget

end Assembly

/-- A text is lowered to instructions with labels. -/
def Program.LowersTo (typeCheck : Bool) (anonymous source : String) (compiled : Compiled) : Prop :=
  ∃ parsed analysed collected pool document, Document.parse anonymous source = .ok parsed ∧
    Program.analyse typeCheck parsed = .ok analysed ∧
    analysed.collectConstants = .ok (collected, pool) ∧
    collected.compile = .ok (document, compiled)

namespace Program

variable {typeCheck : Bool} {anonymous source : String} {compiled : Compiled}

theorem LowersTo.orderly (lowers : LowersTo typeCheck anonymous source compiled) :
    Assembly.Orderly compiled.code := by
  obtain ⟨parsed, analysed, collected, pool, document, parse, analyse, collect, compile⟩ := lowers
  obtain ⟨tag, name, body, next, _, shaped, isRoot⟩ := Stages.root_of_analyse parse analyse
  refine Document.orderly_of_compile ?_ compile
  rw [(Document.literals_of_collectConstants collect).1, isRoot]
  exact Document.plainParams_tree (Document.shaped_wrapping tag next shaped) name

theorem LowersTo.exists_closed (lowers : LowersTo typeCheck anonymous source compiled) :
    ∃ code, assemble compiled.code = .ok code ∧ Assembly.Closed code := by
  obtain ⟨code, assembled⟩ := lowers.orderly.exists_assemble
  refine ⟨code, assembled, ?_⟩
  obtain ⟨_, _, _, _, _, _, _, _, compile⟩ := lowers
  have emitted := Document.emitted_of_compile (.inr trivial) compile
  obtain ⟨_, _, _, _, _, _, _, _, _, _, _, _, isCode, _⟩ := Document.compile_ok compile
  rw [isCode] at assembled emitted
  exact Assembly.closed_of_assemble emitted rfl assembled

/-- What assembly refuses was lowered before. -/
theorem lowersTo_of_assembly {error : AssemblyError}
    (refused : Program.ofSource typeCheck anonymous source = .error (.assembly error)) :
    ∃ compiled, LowersTo typeCheck anonymous source compiled ∧
      assemble compiled.code = .error error := by
  rcases bind_mapError_error refused with ⟨_, _, impossible⟩ | ⟨parsed, parse, refused⟩
  · cases impossible
  rcases bind_mapError_error refused with ⟨_, _, impossible⟩ | ⟨analysed, analyse, refused⟩
  · cases impossible
  rcases bind_mapError_error refused with
    ⟨_, _, impossible⟩ | ⟨⟨collected, pool⟩, collect, refused⟩
  · cases impossible
  rcases bind_mapError_error refused with
    ⟨_, _, impossible⟩ | ⟨⟨document, compiled⟩, compile, refused⟩
  · cases impossible
  rcases bind_mapError_error refused with ⟨_, failed, same⟩ | ⟨_, _, impossible⟩
  · cases same
    exact ⟨compiled, ⟨parsed, analysed, collected, pool, document, parse, analyse, collect, compile⟩,
      failed⟩
  · cases impossible

/-- Assembling a lowered program succeeds, whatever the names in its text are: its labels are
distinct, the labels that it goes to are placed, and what assembly gives has no labels and goes to
its own instructions only. So no text is refused by assembly. -/
theorem assembly_succeeds (typeCheck : Bool) (anonymous source : String) :
    (∀ compiled, LowersTo typeCheck anonymous source compiled →
      (Assembly.placedLabels compiled.code).Nodup ∧
      (∀ label ∈ Assembly.goals compiled.code, label ∈ Assembly.placedLabels compiled.code) ∧
      ∃ code, assemble compiled.code = .ok code ∧ Assembly.Closed code) ∧
    ∀ error, Program.ofSource typeCheck anonymous source ≠ .error (.assembly error) := by
  constructor
  · intro compiled lowers
    exact ⟨.of_map _ lowers.orderly.distinct, lowers.orderly.reaches, lowers.exists_closed⟩
  · intro error refused
    obtain ⟨compiled, lowers, failed⟩ := lowersTo_of_assembly refused
    obtain ⟨code, assembled, _⟩ := lowers.exists_closed
    rw [assembled] at failed
    cases failed

/-- Functions whose names look like the labels of others. -/
theorem assembly_succeeds_of_names :
    ∃ compiled, LowersTo false "main"
        "def f() \x7b 1 \x7d; def f_1_end() \x7b f() \x7d; def f_1() \x7b f_1_end() \x7d; f_1()"
        compiled ∧
      Assembly.placedLabels compiled.code = ["main_0", "f_1", "f_1_end", "f_1_end_2",
        "f_1_end_2_end", "f_1_3", "f_1_3_end", "main_0_end"] ∧
      ∃ code, assemble compiled.code = .ok code ∧ Assembly.Closed code := by
  have lowers : ((Document.parse "main"
      "def f() \x7b 1 \x7d; def f_1_end() \x7b f() \x7d; def f_1() \x7b f_1_end() \x7d; f_1()").toOption.bind
        fun parsed => (Program.analyse false parsed).toOption.bind fun analysed =>
          analysed.collectConstants.toOption.bind fun collected =>
            collected.1.compile.toOption.map fun lowered =>
              Assembly.placedLabels lowered.2.code) =
        some ["main_0", "f_1", "f_1_end", "f_1_end_2", "f_1_end_2_end", "f_1_3", "f_1_3_end",
          "main_0_end"] := by
    decide +kernel
  obtain ⟨parsed, parse, lowers⟩ := Option.bind_eq_some_iff.mp lowers
  obtain ⟨analysed, analyse, lowers⟩ := Option.bind_eq_some_iff.mp lowers
  obtain ⟨⟨collected, pool⟩, collect, lowers⟩ := Option.bind_eq_some_iff.mp lowers
  obtain ⟨⟨document, compiled⟩, compile, labels⟩ := Option.map_eq_some_iff.mp lowers
  have lowered : LowersTo false "main" _ compiled :=
    ⟨parsed, analysed, collected, pool, document, ok_of_toOption parse, ok_of_toOption analyse,
      ok_of_toOption collect, ok_of_toOption compile⟩
  exact ⟨compiled, lowered, labels, ((assembly_succeeds false "main" _).1 compiled lowered).2.2⟩

end Program

end ScriptVM
