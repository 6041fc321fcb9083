import ScriptVM.Proofs.Given
import ScriptVM.Proofs.Passes
import ScriptVM.Proofs.Placement

/-!
The labels of lowered instructions.

A label is a base that may be any text, a number and an ending without digits, so the number and the
ending can be read off its text. A function has one number for its two labels, and every other label
has a number of its own. So no label is placed twice, whatever the names in the source are, and
every label that an instruction goes to is placed.
-/
namespace ScriptVM

namespace Assembly

/-- The labels placed in a piece of code. -/
def placedLabels (code : List Instruction) : List String :=
  code.filterMap Instruction.labelName?

/-- The label that an instruction goes to. -/
def goal? (instruction : Instruction) : Option String :=
  match instruction.target? with
  | some (.label name) => some name
  | _ => none

/-- The labels that the instructions of a piece of code go to. -/
def goals (code : List Instruction) : List String :=
  code.filterMap goal?

@[simp] theorem placedLabels_nil : placedLabels [] = [] := rfl

@[simp] theorem goals_nil : goals [] = [] := rfl

@[simp] theorem placedLabels_append (first second : List Instruction) :
    placedLabels (first ++ second) = placedLabels first ++ placedLabels second := by
  simp [placedLabels]

@[simp] theorem goals_append (first second : List Instruction) :
    goals (first ++ second) = goals first ++ goals second := by
  simp [goals]

theorem placedLabels_cons (instruction : Instruction) (rest : List Instruction) :
    placedLabels (instruction :: rest) = instruction.labelName?.toList ++ placedLabels rest := by
  unfold placedLabels
  rw [List.filterMap_cons]
  cases instruction.labelName? <;> rfl

theorem goals_cons (instruction : Instruction) (rest : List Instruction) :
    goals (instruction :: rest) = (goal? instruction).toList ++ goals rest := by
  unfold goals
  rw [List.filterMap_cons]
  cases goal? instruction <;> rfl

/-- The number in a label and its ending. -/
def labelKey (label : String) : Nat × List Char :=
  let reversed := label.toList.reverse
  let digits := (reversed.dropWhile fun c => !c.isDigit).takeWhile Char.isDigit
  (Nat.ofDigitChars 10 digits.reverse 0, (reversed.takeWhile fun c => !c.isDigit).reverse)

theorem labelKey_eq (base ending : String) (n : Nat)
    (plain : ∀ c ∈ ending.toList, c.isDigit = false) :
    labelKey (base ++ "_" ++ toString n ++ ending) = (n, ending.toList) := by
  have text : (base ++ "_" ++ toString n ++ ending).toList.reverse =
      ending.toList.reverse ++ ((Nat.toDigits 10 n).reverse ++ '_' :: base.toList.reverse) := by
    simp [Nat.toList_repr]
  have plain' : ∀ c ∈ ending.toList.reverse, (!c.isDigit) = true := by
    intro c member
    simp [plain c (List.mem_reverse.mp member)]
  have digits : ∀ c ∈ (Nat.toDigits 10 n).reverse, c.isDigit = true := by
    intro c member
    exact Nat.isDigit_of_mem_toDigits (by decide) (by decide) (List.mem_reverse.mp member)
  obtain ⟨digit, others, split⟩ : ∃ digit others, (Nat.toDigits 10 n).reverse = digit :: others :=
    List.exists_cons_of_ne_nil (by simp)
  have first : digit.isDigit = true := digits digit (by simp [split])
  have stops : ((Nat.toDigits 10 n).reverse ++ '_' :: base.toList.reverse).takeWhile
      (fun c => !c.isDigit) = [] := by
    simp [split, first]
  have starts : ((Nat.toDigits 10 n).reverse ++ '_' :: base.toList.reverse).dropWhile
      (fun c => !c.isDigit) = (Nat.toDigits 10 n).reverse ++ '_' :: base.toList.reverse := by
    simp [split, first]
  have ends : ((Nat.toDigits 10 n).reverse ++ '_' :: base.toList.reverse).takeWhile Char.isDigit =
      (Nat.toDigits 10 n).reverse := by
    rw [List.takeWhile_append_of_pos digits]
    simp
  unfold labelKey
  dsimp only
  rw [text, List.takeWhile_append_of_pos plain', List.dropWhile_append_of_pos plain', stops, starts,
    ends, List.reverse_reverse, List.append_nil, List.reverse_reverse,
    Nat.ofDigitChars_ten_toDigits]

/-- How often a label with this number and ending is placed. -/
def keyCount (key : Nat × List Char) (code : List Instruction) : Nat :=
  (placedLabels code).countP (labelKey · = key)

theorem keyCount_append (key : Nat × List Char) (first second : List Instruction) :
    keyCount key (first ++ second) = keyCount key first + keyCount key second := by
  simp [keyCount]

theorem keyCount_of_plain {code : List Instruction} (plain : placedLabels code = [])
    (key : Nat × List Char) : keyCount key code = 0 := by
  simp [keyCount, plain]

theorem keyCount_cons (key : Nat × List Char) (instruction : Instruction)
    (rest : List Instruction) :
    keyCount key (instruction :: rest) =
      instruction.labelName?.toList.countP (labelKey · = key) + keyCount key rest := by
  simp [keyCount, placedLabels_cons]

theorem count_labelKey (key : Nat × List Char) (code : List Instruction) :
    ((placedLabels code).map labelKey).count key = keyCount key code := by
  rw [keyCount, List.count_eq_countP, List.countP_map]
  apply List.countP_congr
  simp

end Assembly

namespace Lowering

open Assembly

variable {env : Env} {s s₁ s' : Supply} {code : List Instruction}

theorem labelKey_entry (base : String) (n : Nat) :
    labelKey (FreshNames.uniqueName base n) = (n, []) := by
  have key := labelKey_eq base "" n (by simp)
  rw [String.append_empty] at key
  exact key

theorem labelKey_past (base : String) (n : Nat) :
    labelKey (FreshNames.uniqueName base n ++ "_end") = (n, "_end".toList) :=
  labelKey_eq base "_end" n (by simp)

theorem labelKey_label (env : Env) (n : Nat) (suffix : String)
    (plain : ∀ c ∈ suffix.toList, c.isDigit = false) :
    labelKey (env.label n suffix) = (n, '_' :: suffix.toList) := by
  have key := labelKey_eq env.stem ("_" ++ suffix) n (by simpa using plain)
  rw [← String.append_assoc] at key
  exact key.trans (by simp)

/-- Whether a node is a function whose labels have this number. -/
def isNumbered (annotations : Annotations) (n : Nat) : Node Tag → Bool
  | .define tag _ _ _ _ => (annotations.get tag.id).address.any fun entry => (labelKey entry).1 == n
  | _ => false

/-- A function starts at this label. -/
def Env.Starts (env : Env) (label : String) : Prop :=
  ∃ tag name params body type, .define tag name params body type ∈ env.nodes ∧
    (env.annotations.get tag.id).address = some label

/-- The labels of the code of some nodes: each is that of one of the functions among them or has a
number that was given out, and whatever the code goes to is one of them or starts a function. -/
structure Tidy (env : Env) (nodes : List (Node Tag)) (s : Supply) (code : List Instruction)
    (s' : Supply) : Prop where
  numbers : s.number ≤ s'.number
  counted : ∀ key, keyCount key code ≤
    nodes.countP (isNumbered env.annotations key.1) + taken s.number s'.number key.1
  reaches : ∀ label ∈ goals code, label ∈ placedLabels code ∨ env.Starts label

theorem Tidy.widen {nodes nodes' : List (Node Tag)} (tidy : Tidy env nodes s code s')
    (sub : nodes.Sublist nodes') : Tidy env nodes' s code s' := by
  refine { tidy with counted := fun key => ?_ }
  have fewer : nodes.countP (isNumbered env.annotations key.1) ≤
      nodes'.countP (isNumbered env.annotations key.1) := sub.countP_le
  exact Nat.le_trans (tidy.counted key) (Nat.add_le_add_right fewer _)

/-- Code that places no labels. -/
theorem Tidy.of_plain (nodes : List (Node Tag)) (plain : placedLabels code = [])
    (reaches : ∀ label ∈ goals code, env.Starts label) (numbers : s.number ≤ s'.number) :
    Tidy env nodes s code s' := by
  refine ⟨numbers, fun key => ?_, fun label isGoal => .inr (reaches label isGoal)⟩
  rw [keyCount_of_plain plain]
  omega

/-- Code that neither places labels nor goes to any. -/
theorem Tidy.of_silent (nodes : List (Node Tag)) (plain : placedLabels code = [])
    (silent : goals code = []) (numbers : s.number ≤ s'.number) : Tidy env nodes s code s' := by
  refine .of_plain nodes plain ?_ numbers
  rw [silent]
  intro label isGoal
  cases isGoal

theorem Tidy.append {nodes nodes' : List (Node Tag)} {code' : List Instruction}
    (first : Tidy env nodes s code s₁) (second : Tidy env nodes' s₁ code' s') :
    Tidy env (nodes ++ nodes') s (code ++ code') s' := by
  refine ⟨Nat.le_trans first.numbers second.numbers, fun key => ?_, fun label isGoal => ?_⟩
  · have := first.counted key
    have := second.counted key
    rw [keyCount_append, List.countP_append, taken_add first.numbers second.numbers]
    omega
  · rw [goals_append, List.mem_append] at isGoal
    rw [placedLabels_append, List.mem_append]
    rcases isGoal with inFirst | inSecond
    · exact (first.reaches label inFirst).imp_left .inl
    · exact (second.reaches label inSecond).imp_left .inr

/-- Every function has a label made of a base and a number. -/
def Env.Unique (env : Env) : Prop :=
  ∀ tag name params body type entry, .define tag name params body type ∈ env.nodes →
    (env.annotations.get tag.id).address = some entry →
    ∃ base n, entry = FreshNames.uniqueName base n

theorem placedLabels_cellStores (ptr offset : Nat) (regs : List Nat) :
    placedLabels (cellStores ptr offset regs) = [] := by
  induction regs generalizing offset with
  | nil => rfl
  | cons reg rest ih => simpa [cellStores, placedLabels_cons, Instruction.labelName?] using ih _

theorem goals_cellStores (ptr offset : Nat) (regs : List Nat) :
    goals (cellStores ptr offset regs) = [] := by
  induction regs generalizing offset with
  | nil => rfl
  | cons reg rest ih => simpa [cellStores, goals_cons, goal?, Instruction.target?] using ih _

section Nodes

variable {reg : Nat}

theorem count_number (n : Nat) (ending : List Char) (key : Nat × List Char) :
    (if (n, ending) = key then 1 else 0) ≤ if n = key.1 then 1 else 0 := by
  split
  next same =>
    cases same
    simp
  next => exact Nat.zero_le _

/-- Of two labels with one number at most one has a given ending. -/
theorem count_one_number (n : Nat) {first second : List Char} (different : first ≠ second)
    (key : Nat × List Char) :
    (if (n, first) = key then 1 else 0) + (if (n, second) = key then 1 else 0) ≤
      if n = key.1 then 1 else 0 := by
  obtain ⟨number, ending⟩ := key
  by_cases isFirst : (n, first) = (number, ending)
  · cases isFirst
    simp [Ne.symm different]
  · by_cases isSecond : (n, second) = (number, ending)
    · cases isSecond
      simp [different]
    · simp [isFirst, isSecond]

/-- The labels of a function: its own two and those of its body. -/
theorem tidy_function {tag : Tag} {name : String} {params : List (Node Tag)} {body : Node Tag}
    {type : Option String} {entry : String} {slots last : Nat} {given : List Nat}
    {inner : List Instruction} {base : String} {n : Nat}
    (isEntry : entry = FreshNames.uniqueName base n)
    (address : (env.annotations.get tag.id).address = some entry)
    (tidy : Tidy env body.preorder s inner s') :
    Tidy env (Node.define tag name params body type).preorder s
      (functionCode reg entry slots given inner last) s' := by
  subst isEntry
  refine ⟨tidy.numbers, fun key => ?_, fun label isGoal => ?_⟩
  · have counted := tidy.counted key
    have here : isNumbered env.annotations key.1 (.define tag name params body type) =
        decide (n = key.1) := by
      simp [isNumbered, address, labelKey_entry, Bool.beq_eq_decide_eq]
    have own := count_one_number n (show ([] : List Char) ≠ "_end".toList by decide) key
    simp only [functionCode, keyCount_append, keyCount_cons, Instruction.labelName?,
      Option.toList_some, Option.toList_none, List.countP_nil, labelKey_entry, labelKey_past,
      keyCount_of_plain placedLabels_nil, Node.preorder, List.countP_cons, List.countP_append, here,
      decide_eq_true_eq]
    omega
  · simp only [functionCode, goals_append, goals_cons, goal?, Instruction.target?,
      Option.toList_some, Option.toList_none, goals_nil, List.append_nil, List.mem_append,
      List.mem_singleton] at isGoal
    simp only [functionCode, placedLabels_append, placedLabels_cons, Instruction.labelName?,
      Option.toList_some, Option.toList_none, placedLabels_nil, List.append_nil, List.nil_append,
      List.mem_append, List.mem_singleton]
    rcases isGoal with (isEntry | isPast) | inBody
    · exact .inl (.inl (.inl isEntry))
    · exact .inl (.inr isPast)
    · exact (tidy.reaches label inBody).imp_left fun inside => .inl (.inr inside)

/-- The labels of a branch: its own two and those of its parts. The numbers are given out to the
test, one to each of the two labels, and to the halves. -/
theorem tidy_branch {tag : Tag} {pred yes no : Node Tag} {test left right : Nat} {s₂ s₃ : Supply}
    {before first second : List Instruction} (tidyPred : Tidy env pred.preorder s before s₁)
    (tidyYes : Tidy env yes.preorder s₁.withoutNumber.withoutNumber first s₂)
    (tidyNo : Tidy env no.preorder s₂ second s₃) :
    Tidy env (Node.branch tag pred yes no).preorder s
      (before ++ [.unset [left, right], .branchZero test (.label (env.label s₁.number "else"))] ++
        first ++ [.jump (.label (env.label (s₁.number + 1) "end")),
          .label (env.label s₁.number "else")] ++ second ++
        [.label (env.label (s₁.number + 1) "end"), .phi reg left right]) s₃.withoutRegister := by
  have inPred := tidyPred.numbers
  have inYes : s₁.number + 1 + 1 ≤ s₂.number := tidyYes.numbers
  have inNo : s₂.number ≤ s₃.number := tidyNo.numbers
  refine ⟨?_, fun key => ?_, fun label isGoal => ?_⟩
  · show s.number ≤ s₃.number
    omega
  · have countedPred := tidyPred.counted key
    have countedYes : keyCount key first ≤ yes.preorder.countP (isNumbered env.annotations key.1) +
      taken (s₁.number + 1 + 1) s₂.number key.1 := tidyYes.counted key
    have countedNo := tidyNo.counted key
    show _ ≤ _ + taken s.number s₃.number key.1
    rw [taken_add (show s.number ≤ s₂.number by omega) inNo,
      taken_add (show s.number ≤ s₁.number + 1 + 1 by omega) inYes,
      taken_add (show s.number ≤ s₁.number + 1 by omega) (Nat.le_succ _),
      taken_add inPred (Nat.le_succ _), taken_one, taken_one]
    have ownElse := count_number s₁.number ('_' :: "else".toList) key
    have ownEnd := count_number (s₁.number + 1) ('_' :: "end".toList) key
    simp only [keyCount_append, keyCount_cons, Instruction.labelName?, Option.toList_some,
      Option.toList_none, List.countP_nil, labelKey_label env _ "else" (by simp),
      labelKey_label env _ "end" (by simp), keyCount_of_plain placedLabels_nil, Node.preorder,
      List.countP_cons, List.countP_append, decide_eq_true_eq]
    omega
  · simp only [goals_append, goals_cons, goal?, Instruction.target?,
      Option.toList_some, Option.toList_none, goals_nil, List.append_nil, List.nil_append,
      List.mem_append, List.mem_singleton] at isGoal
    simp only [placedLabels_append, placedLabels_cons, Instruction.labelName?,
      Option.toList_some, Option.toList_none, placedLabels_nil, List.append_nil, List.nil_append,
      List.mem_append, List.mem_singleton]
    rcases isGoal with (((inPred | isElse) | inYes) | isEnd) | inNo
    · exact (tidyPred.reaches label inPred).imp_left fun inside => .inl (.inl (.inl (.inl inside)))
    · exact .inl (.inl (.inl (.inr isElse)))
    · exact (tidyYes.reaches label inYes).imp_left fun inside => .inl (.inl (.inl (.inr inside)))
    · exact .inl (.inr isEnd)
    · exact (tidyNo.reaches label inNo).imp_left fun inside => .inl (.inr inside)

/-- The labels of a loop: its own two and those of its parts. -/
theorem tidy_loop {tag : Tag} {pred body : Node Tag} {test : Nat} {s₂ : Supply}
    {first second : List Instruction}
    (tidyPred : Tidy env pred.preorder s.withoutNumber.withoutNumber first s₁)
    (tidyBody : Tidy env body.preorder s₁ second s₂) :
    Tidy env (Node.loop tag pred body).preorder s
      ([.label (env.label s.number "begin")] ++ first ++
        [.branchZero test (.label (env.label (s.number + 1) "end"))] ++ second ++
        [.jump (.label (env.label s.number "begin")), .label (env.label (s.number + 1) "end"),
          .loadConst reg .null]) s₂.withoutRegister := by
  have inPred : s.number + 1 + 1 ≤ s₁.number := tidyPred.numbers
  have inBody : s₁.number ≤ s₂.number := tidyBody.numbers
  refine ⟨?_, fun key => ?_, fun label isGoal => ?_⟩
  · show s.number ≤ s₂.number
    omega
  · have countedPred : keyCount key first ≤ pred.preorder.countP (isNumbered env.annotations key.1) +
      taken (s.number + 1 + 1) s₁.number key.1 := tidyPred.counted key
    have countedBody := tidyBody.counted key
    show _ ≤ _ + taken s.number s₂.number key.1
    rw [taken_add (show s.number ≤ s₁.number by omega) inBody,
      taken_add (show s.number ≤ s.number + 1 + 1 by omega) inPred,
      taken_add (Nat.le_add_right s.number 1) (Nat.le_succ _), taken_one, taken_one]
    have ownBegin := count_number s.number ('_' :: "begin".toList) key
    have ownEnd := count_number (s.number + 1) ('_' :: "end".toList) key
    simp only [keyCount_append, keyCount_cons, Instruction.labelName?, Option.toList_some,
      Option.toList_none, List.countP_nil, labelKey_label env _ "begin" (by simp),
      labelKey_label env _ "end" (by simp), keyCount_of_plain placedLabels_nil, Node.preorder,
      List.countP_cons, List.countP_append, decide_eq_true_eq]
    omega
  · simp only [goals_append, goals_cons, goal?, Instruction.target?, Option.toList_some,
      Option.toList_none, goals_nil, List.append_nil, List.nil_append, List.mem_append,
      List.mem_singleton] at isGoal
    simp only [placedLabels_append, placedLabels_cons, Instruction.labelName?, Option.toList_some,
      Option.toList_none, placedLabels_nil, List.append_nil, List.nil_append, List.mem_append,
      List.mem_singleton]
    rcases isGoal with ((inPred | isEnd) | inBody) | isBegin
    · exact (tidyPred.reaches label inPred).imp_left fun inside => .inl (.inl (.inr inside))
    · exact .inl (.inr isEnd)
    · exact (tidyBody.reaches label inBody).imp_left fun inside => .inl (.inr inside)
    · exact .inl (.inl (.inl (.inl isBegin)))

end Nodes

/-- Code without labels after that of the parts of a node. -/
theorem Tidy.followed {nodes nodes' : List (Node Tag)} {code' : List Instruction}
    (tidy : Tidy env nodes s code s₁) (sub : nodes.Sublist nodes')
    (plain : placedLabels code' = []) (silent : goals code' = [])
    (numbers : s₁.number ≤ s'.number) : Tidy env nodes' s (code ++ code') s' := by
  have both := tidy.append (Tidy.of_silent [] plain silent numbers)
  rw [List.append_nil] at both
  exact both.widen sub

/-- A function that a use refers to starts at its label. -/
theorem Env.starts_of_declaration (env : Env) {use : Node Tag} {tag : Tag} {name : String}
    {params : List (Node Tag)} {body : Node Tag} {type : Option String} {entry : String}
    (found : env.declaration? use = some (.define tag name params body type))
    (address : (env.annotations.get tag.id).address = some entry) : env.Starts entry := by
  obtain ⟨id, _, isDeclaration⟩ := Option.bind_eq_some_iff.mp found
  exact ⟨tag, name, params, body, type, List.mem_of_find?_eq_some isDeclaration, address⟩

/-- The labels of lowered code. -/
theorem Lowers.tidy {task : Task} (lowers : Lowers env s task code s') (unique : env.Unique)
    (sub : task.nodes ⊆ env.nodes) : Tidy env task.nodes s code s' := by
  induction lowers with
  | literal | nothing | readSlot => exact .of_silent _ rfl rfl (Nat.le_refl _)
  | readEntry found address =>
    refine .of_plain _ rfl ?_ (Nat.le_refl _)
    intro label isGoal
    rw [List.mem_singleton.mp isGoal]
    exact Env.starts_of_declaration _ found address
  | program _ ih | block _ ih =>
    simp only [Task.nodes, Node.preorder, List.cons_subset] at sub
    exact (ih unique sub.2).widen (List.sublist_cons_self _ _)
  | define address _ _ ih =>
    simp only [Task.nodes, Node.preorder, List.cons_subset, List.append_subset] at sub
    obtain ⟨base, n, isEntry⟩ := unique _ _ _ _ _ _ sub.1 address
    obtain ⟨numbers, counted, reaches⟩ := ih unique sub.2.2
    exact tidy_function isEntry address ⟨numbers, counted, reaches⟩
  | declare _ _ ih =>
    simp only [Task.nodes, Node.preorder, List.cons_subset] at sub
    exact (ih unique sub.2).followed (List.sublist_cons_self _ _) rfl rfl (Nat.le_refl _)
  | assign _ isStore _ _ _ ih =>
    simp only [Task.nodes, Node.preorder, List.cons_subset] at sub
    cases isStore with
    | again | once =>
      exact (ih unique sub.2).followed (List.sublist_cons_self _ _) rfl rfl (Nat.le_refl _)
  | branch _ _ _ ihPred ihYes ihNo =>
    simp only [Task.nodes, Node.preorder, List.cons_subset, List.append_subset] at sub
    obtain ⟨_, ⟨subPred, subYes⟩, subNo⟩ := sub
    exact tidy_branch (ihPred unique subPred) (ihYes unique subYes) (ihNo unique subNo)
  | loop _ _ ihPred ihBody =>
    simp only [Task.nodes, Node.preorder, List.cons_subset, List.append_subset] at sub
    exact tidy_loop (ihPred unique sub.2.1) (ihBody unique sub.2.2)
  | binary isOp _ _ ihLeft ihRight =>
    simp only [Task.nodes, Node.preorder, List.cons_subset, List.append_subset] at sub
    have parts := (ihLeft unique sub.2.1).append (ihRight unique sub.2.2)
    rcases operation_cases isOp with ⟨arith, rfl⟩ | ⟨compare, rfl⟩
    · exact parts.followed (List.sublist_cons_self _ _) rfl rfl (Nat.le_refl _)
    · exact parts.followed (List.sublist_cons_self _ _) rfl rfl (Nat.le_refl _)
  | call found _ address _ ih =>
    simp only [Task.nodes, Node.preorder, List.cons_subset, List.append_subset] at sub
    refine Tidy.widen (Tidy.append (ih unique sub.2.2) (.of_plain [] rfl ?_ (Nat.le_refl _))) ?_
    · intro label isGoal
      rw [List.mem_singleton.mp isGoal]
      exact Env.starts_of_declaration _ found address
    · rw [List.append_nil]
      exact (List.sublist_append_right _ _).cons _
  | aggregate _ ih =>
    simp only [Task.nodes, Node.preorder, List.cons_subset] at sub
    exact (ih unique sub.2).followed (List.sublist_cons_self _ _) (placedLabels_cellStores _ _ _)
      (goals_cellStores _ _ _) (Nat.le_refl _)
  | noValues | noStatements => exact .of_silent _ rfl rfl (Nat.le_refl _)
  | moreValues _ _ ih ihOthers | moreStatements _ _ _ ih ihOthers =>
    simp only [Task.nodes, Node.preorderAll, List.append_subset] at sub
    exact (ih unique sub.1).append (ihOthers unique sub.2)
  | merged _ _ ih =>
    simp only [Task.nodes, Node.preorderAll, List.append_subset] at sub
    exact (ih unique sub.2).widen (List.sublist_append_right _ _)

section Addresses

variable {nodes : List (Node Tag)} {state state' : Annotations × FreshNames}

theorem isNumbered_of_other {node : Node Tag}
    (notFunction : ∀ tag name params body type, node ≠ .define tag name params body type)
    (annotations : Annotations) (n : Nat) : isNumbered annotations n node = false := by
  cases node with
  | define tag name params body type => exact absurd rfl (notFunction tag name params body type)
  | _ => rfl

/-- Every function gets a number of its own. -/
theorem numbered_giveAddresses (success : nodes.foldlM giveAddress state = .ok state') :
    state.2.next ≤ state'.2.next ∧
    (∀ n, nodes.countP (isNumbered state'.1 n) ≤ taken state.2.next state'.2.next n) ∧
    ∀ tag name params body type, .define tag name params body type ∈ nodes →
      ∃ n, (state'.1.get tag.id).address = some (FreshNames.uniqueName name n) := by
  induction nodes generalizing state with
  | nil =>
    cases success
    refine ⟨Nat.le_refl _, fun n => by simp, ?_⟩
    intro tag name params body type member
    cases member
  | cons node rest ih =>
    rw [List.foldlM_cons] at success
    obtain ⟨state₁, given, success⟩ := Walks.except_bind_ok.mp success
    obtain ⟨numbers, counted, named⟩ := ih success
    have kept := extends_of_giveAddresses success
    rcases giveAddress_ok given with
      ⟨tag, name, params, body, type, rfl, next, written⟩ | ⟨notFunction, rfl⟩
    · have address : (state'.1.get tag.id).address =
          some (FreshNames.uniqueName name state.2.next) :=
        Notes.address_of_get? (kept _ _ _ (Annotations.some_of_set written))
      rw [next] at numbers counted
      refine ⟨by omega, fun n => ?_, ?_⟩
      · have here : isNumbered state'.1 n (.define tag name params body type) =
            decide (state.2.next = n) := by
          simp [isNumbered, address, labelKey_entry, Bool.beq_eq_decide_eq]
        have := counted n
        rw [taken_add (Nat.le_add_right _ 1) numbers, taken_one, List.countP_cons, here]
        simp only [decide_eq_true_eq]
        omega
      · intro tag' name' params' body' type' member
        rcases List.mem_cons.mp member with same | inRest
        · cases same
          exact ⟨_, address⟩
        · exact named tag' name' params' body' type' inRest
    · refine ⟨numbers, fun n => ?_, ?_⟩
      · rw [List.countP_cons, isNumbered_of_other notFunction]
        exact counted n
      · intro tag' name' params' body' type' member
        rcases List.mem_cons.mp member with rfl | inRest
        · exact absurd rfl (notFunction _ _ _ _ _)
        · exact named tag' name' params' body' type' inRest

theorem unique_of_named (named : ∀ tag name params body type,
      Node.define tag name params body type ∈ env.nodes →
      ∃ n, (env.annotations.get tag.id).address = some (FreshNames.uniqueName name n)) :
    env.Unique := by
  intro tag name params body type entry member address
  obtain ⟨n, isEntry⟩ := named tag name params body type member
  rw [isEntry] at address
  cases address
  exact ⟨name, n, rfl⟩

end Addresses

/-- The label of a function stands in the code of a node that the function is inside. -/
theorem entry_placed {node : Node Tag} {reg : Nat} {tag : Tag} {name : String}
    {params : List (Node Tag)} {body : Node Tag} {type : Option String} {entry : String}
    (success : visit env node s = .ok reg code s') (plain : PlainParams node)
    (inside : .define tag name params body type ∈ node.preorder)
    (address : (env.annotations.get tag.id).address = some entry) : entry ∈ placedLabels code := by
  obtain ⟨env', s₁, reg', part, s₂, before, after, _, annotations, _, lowered, rfl⟩ :=
    contains_function success plain inside
  obtain ⟨entry', _, last, inner, address', _, _, _, rfl⟩ := visit_define_ok lowered
  rw [annotations, address] at address'
  cases address'
  simp [functionCode, placedLabels_cons, Instruction.labelName?]

end Lowering

/-- Code in which no two labels have the same number and ending, and all labels that it goes to are
placed. -/
structure Assembly.Orderly (code : List Instruction) : Prop where
  distinct : ((placedLabels code).map labelKey).Nodup
  reaches : ∀ label ∈ goals code, label ∈ placedLabels code

/-- The labels of a lowered document are orderly, whatever its names are. -/
theorem Document.orderly_of_compile {document document' : Document} {compiled : Compiled}
    (plain : Lowering.PlainParams document.root)
    (success : document.compile = .ok (document', compiled)) : Assembly.Orderly compiled.code := by
  obtain ⟨tag, name, body, annotations, names, locals, code, last, root, given, _, lowered,
    isCode, _⟩ := Document.compile_ok success
  obtain ⟨numbers, counted, named⟩ := Lowering.numbered_giveAddresses given
  have tidy := (Lowering.lowers_visit lowered).tidy (Lowering.unique_of_named named)
    (List.Subset.refl _)
  have placed : Assembly.placedLabels compiled.code = Assembly.placedLabels code := by
    rw [isCode]
    split <;> simp [Assembly.placedLabels_cons, Instruction.labelName?]
  have reached : Assembly.goals compiled.code = Assembly.goals code := by
    rw [isCode]
    split <;> simp [Assembly.goals_cons, Assembly.goal?, Instruction.target?]
  refine ⟨?_, ?_⟩
  · rw [placed, List.nodup_iff_count]
    intro key
    rw [Assembly.count_labelKey]
    calc Assembly.keyCount key code
      _ ≤ _ := tidy.counted key
      _ ≤ taken 0 names.next key.1 + taken names.next last.number key.1 :=
        Nat.add_le_add_right (counted key.1) _
      _ = taken 0 last.number key.1 := (taken_add numbers tidy.numbers key.1).symm
      _ ≤ 1 := taken_le_one 0 last.number key.1
  · intro label isGoal
    rw [reached] at isGoal
    rw [placed]
    rcases tidy.reaches label isGoal with here | ⟨tag', name', params, body', type, member, address⟩
    · exact here
    · exact Lowering.entry_placed lowered plain member address

end ScriptVM
