import Mathlib.Data.List.Forall2
import Mathlib.Data.List.Nodup
import ScriptVM.Proofs.Labels

/-!
Code that differs only in the bases of its labels.

Two pieces of code are alike if they have the same instructions at the same places, but for labels
that have the same numbers and endings. Alike code with orderly labels is assembled to the same
instructions. Lowering gives alike code for documents that differ in the names of functions alone,
because it looks at those names for nothing but the bases of labels.
-/
namespace ScriptVM

namespace Assembly

/-- The same instruction, but for the base of a label. -/
inductive Alike : Instruction → Instruction → Prop
  | same (instruction : Instruction) : Alike instruction instruction
  | label {first second : String} (key : labelKey first = labelKey second) :
      Alike (.label first) (.label second)
  | loadAddress (dst : Nat) {first second : String} (key : labelKey first = labelKey second) :
      Alike (.loadAddress dst (.label first)) (.loadAddress dst (.label second))
  | jump {first second : String} (key : labelKey first = labelKey second) :
      Alike (.jump (.label first)) (.jump (.label second))
  | branchZero (pred : Nat) {first second : String} (key : labelKey first = labelKey second) :
      Alike (.branchZero pred (.label first)) (.branchZero pred (.label second))
  | call (args : List Nat) {first second : String} (key : labelKey first = labelKey second) :
      Alike (.call (.label first) args) (.call (.label second) args)

/-- Alike instructions, one after the other. -/
abbrev AlikeAll (first second : List Instruction) : Prop :=
  List.Forall₂ Alike first second

theorem AlikeAll.refl (code : List Instruction) : AlikeAll code code :=
  List.forall₂_same.mpr fun instruction _ => .same instruction

/-- Tables with the same addresses for labels with the same numbers and endings. -/
abbrev AlikeTables (first second : List (String × Nat)) : Prop :=
  List.Forall₂ (fun one two => labelKey one.1 = labelKey two.1 ∧ one.2 = two.2) first second

variable {first second : List Instruction}

theorem map_fst_labels (index : Nat) (code : List Instruction) :
    (labels index code).map Prod.fst = placedLabels code := by
  induction code generalizing index with
  | nil => rfl
  | cons instruction rest ih =>
    cases instruction with
    | label name => simp [labels, placedLabels_cons, Instruction.labelName?, ih]
    | _ => simpa [labels, placedLabels_cons, Instruction.labelName?] using ih (index + 1)

theorem AlikeAll.labels (alike : AlikeAll first second) (index : Nat) :
    AlikeTables (Assembly.labels index first) (Assembly.labels index second) := by
  induction alike generalizing index with
  | nil => exact .nil
  | @cons one _ _ _ here _ ih =>
    cases here with
    | same =>
      cases one with
      | label name => exact .cons ⟨rfl, rfl⟩ (ih index)
      | _ => exact ih (index + 1)
    | label key => exact .cons ⟨key, rfl⟩ (ih index)
    | loadAddress | jump | branchZero | call => exact ih (index + 1)

theorem firstRepeated_of_nodup {names seen : List String} (distinct : names.Nodup)
    (unseen : ∀ name ∈ names, name ∉ seen) : firstRepeated seen names = none := by
  induction names generalizing seen with
  | nil => rfl
  | cons name rest ih =>
    obtain ⟨notLater, distinctRest⟩ := List.nodup_cons.mp distinct
    have fresh : seen.contains name = false := by
      simpa using unseen name (by simp)
    simp only [firstRepeated, fresh, Bool.false_eq_true, if_false]
    refine ih distinctRest ?_
    intro other member
    simp only [List.mem_cons, not_or]
    refine ⟨?_, unseen other (by simp [member])⟩
    rintro rfl
    exact notLater member

theorem AlikeTables.mem {table₁ table₂ : List (String × Nat)} {name : String} {address : Nat}
    (alike : AlikeTables table₁ table₂) (member : (name, address) ∈ table₁) :
    ∃ name', labelKey name = labelKey name' ∧ (name', address) ∈ table₂ := by
  induction alike with
  | nil => cases member
  | @cons one two _ _ here _ ih =>
    rcases List.mem_cons.mp member with rfl | inRest
    · obtain ⟨name', _⟩ := two
      obtain ⟨key, rfl⟩ := here
      exact ⟨name', key, by simp⟩
    · obtain ⟨name', key, found⟩ := ih inRest
      exact ⟨name', key, List.mem_cons_of_mem _ found⟩

/-- Labels with the same number and ending have the same address in alike tables. -/
theorem AlikeTables.lookup {table₁ table₂ : List (String × Nat)} {name₁ name₂ : String}
    (alike : AlikeTables table₁ table₂) (distinct₁ : ((table₁.map Prod.fst).map labelKey).Nodup)
    (distinct₂ : ((table₂.map Prod.fst).map labelKey).Nodup) (key : labelKey name₁ = labelKey name₂)
    (member₁ : name₁ ∈ table₁.map Prod.fst) (member₂ : name₂ ∈ table₂.map Prod.fst) :
    ∃ address, table₁.lookup name₁ = some address ∧ table₂.lookup name₂ = some address := by
  obtain ⟨⟨_, address⟩, inFirst, rfl⟩ := List.mem_map.mp member₁
  obtain ⟨name', key', inSecond⟩ := alike.mem inFirst
  have same : name' = name₂ :=
    List.inj_on_of_nodup_map distinct₂ (List.mem_map.mpr ⟨_, inSecond, rfl⟩) member₂
      (key'.symm.trans key)
  subst same
  exact ⟨address, lookup_of_mem (.of_map _ distinct₁) inFirst,
    lookup_of_mem (.of_map _ distinct₂) inSecond⟩

/-- Alike instructions are resolved to the same ones, if the labels they go to are known. -/
theorem Alike.resolve {one two : Instruction} {table₁ table₂ : List (String × Nat)}
    (alike : Alike one two) (plain : one.labelName? = none) (tables : AlikeTables table₁ table₂)
    (distinct₁ : ((table₁.map Prod.fst).map labelKey).Nodup)
    (distinct₂ : ((table₂.map Prod.fst).map labelKey).Nodup)
    (known₁ : ∀ label, goal? one = some label → label ∈ table₁.map Prod.fst)
    (known₂ : ∀ label, goal? two = some label → label ∈ table₂.map Prod.fst) :
    Assembly.resolve table₁ one = Assembly.resolve table₂ two := by
  have found : ∀ {name₁ name₂ : String}, goal? one = some name₁ → goal? two = some name₂ →
      labelKey name₁ = labelKey name₂ →
      ∃ address, table₁.lookup name₁ = some address ∧ table₂.lookup name₂ = some address :=
    fun isGoal₁ isGoal₂ key =>
      tables.lookup distinct₁ distinct₂ key (known₁ _ isGoal₁) (known₂ _ isGoal₂)
  cases alike with
  | label => cases plain
  | loadAddress dst key | jump key | branchZero pred key | call args key =>
    obtain ⟨address, isFirst, isSecond⟩ := found rfl rfl key
    simp only [Assembly.resolve, Instruction.target?, isFirst, isSecond, Instruction.withTarget]
  | same =>
    unfold Assembly.resolve
    split
    next name isTarget =>
      have isGoal : goal? one = some name := by
        simp only [goal?, isTarget]
      obtain ⟨address, isFirst, isSecond⟩ := found isGoal isGoal rfl
      rw [isFirst, isSecond]
    next => rfl

theorem Alike.plain {one two : Instruction} (alike : Alike one two)
    (plain : one.labelName? = none) : two.labelName? = none := by
  cases alike with
  | label => cases plain
  | same => exact plain
  | _ => rfl

theorem AlikeAll.resolveAll {table₁ table₂ : List (String × Nat)} (alike : AlikeAll first second)
    (tables : AlikeTables table₁ table₂)
    (distinct₁ : ((table₁.map Prod.fst).map labelKey).Nodup)
    (distinct₂ : ((table₂.map Prod.fst).map labelKey).Nodup)
    (known₁ : ∀ label ∈ goals first, label ∈ table₁.map Prod.fst)
    (known₂ : ∀ label ∈ goals second, label ∈ table₂.map Prod.fst) :
    Assembly.resolveAll table₁ first = Assembly.resolveAll table₂ second := by
  induction alike with
  | nil => rfl
  | @cons one two rest₁ rest₂ here _ ih =>
    rw [goals_cons] at known₁ known₂
    have others := ih (fun label member => known₁ label (List.mem_append_right _ member))
      fun label member => known₂ label (List.mem_append_right _ member)
    by_cases plain : one.labelName? = none
    · have resolved := here.resolve plain tables distinct₁ distinct₂
        (fun label isGoal => known₁ label (List.mem_append_left _ (by simp [isGoal])))
        fun label isGoal => known₂ label (List.mem_append_left _ (by simp [isGoal]))
      rw [resolveAll_cons _ plain, resolveAll_cons _ (here.plain plain), resolved, others]
    · cases here with
      | label => exact others
      | same =>
        cases one with
        | label => exact others
        | _ => exact absurd rfl plain
      | _ => exact absurd rfl plain

/-- Alike code with orderly labels is assembled to the same instructions. -/
theorem AlikeAll.assemble_eq (alike : AlikeAll first second) (orderly₁ : Orderly first)
    (orderly₂ : Orderly second) : assemble first = assemble second := by
  unfold assemble
  have names₁ := map_fst_labels 0 first
  have names₂ := map_fst_labels 0 second
  have unrepeated : ∀ {code : List Instruction}, Orderly code →
      firstRepeated [] (placedLabels code) = none := fun orderly =>
    firstRepeated_of_nodup (.of_map _ orderly.distinct) fun _ _ => List.not_mem_nil
  simp only [names₁, names₂, unrepeated orderly₁, unrepeated orderly₂]
  apply alike.resolveAll (alike.labels 0)
  · rw [names₁]
    exact orderly₁.distinct
  · rw [names₂]
    exact orderly₂.distinct
  · rw [names₁]
    exact orderly₁.reaches
  · rw [names₂]
    exact orderly₂.reaches

end Assembly

namespace Lowering

open Assembly (Alike AlikeAll labelKey)

variable {α β : Type} {env₁ env₂ : Env}

/-- Two results with alike code and the same supply, or the same refusal. -/
inductive Outcome.Matches (agree : α → α → Prop) : Outcome α → Outcome α → Prop
  | ok {value₁ value₂ : α} {code₁ code₂ : List Instruction} (values : agree value₁ value₂)
      (codes : AlikeAll code₁ code₂) (supply : Supply) :
      Outcome.Matches agree (.ok value₁ code₁ supply) (.ok value₂ code₂ supply)
  | error (error : CompileError) (code₁ code₂ : List Instruction) :
      Outcome.Matches agree (.error error code₁) (.error error code₂)

/-- Computations that match from every supply. -/
def Matches (agree : α → α → Prop) (x y : Lowering α) : Prop :=
  ∀ s, (x s).Matches agree (y s)

namespace Matches

theorem refl (x : Lowering α) : Matches Eq x x := by
  intro s
  cases x s with
  | ok value code supply => exact .ok rfl (.refl code) supply
  | error error code => exact .error error code code

theorem pure {agree : α → α → Prop} {a b : α} (values : agree a b) :
    Matches agree (Pure.pure a : Lowering α) (Pure.pure b) :=
  fun s => .ok values .nil s

theorem fail {agree : α → α → Prop} (cause : CompileError.Cause) (span : Span) :
    Matches agree (Lowering.fail cause span) (Lowering.fail cause span) :=
  fun _ => .error _ _ _

theorem emit {code₁ code₂ : List Instruction} (codes : AlikeAll code₁ code₂) :
    Matches Eq (Lowering.emit code₁) (Lowering.emit code₂) :=
  fun s => .ok rfl codes s

theorem bind {agree : α → α → Prop} {agree' : β → β → Prop} {x y : Lowering α}
    {f g : α → Lowering β} (first : Matches agree x y)
    (rest : ∀ a b, agree a b → Matches agree' (f a) (g b)) : Matches agree' (x >>= f) (y >>= g) := by
  intro s
  show (andThen x f s).Matches agree' (andThen y g s)
  unfold andThen
  have parts := first s
  generalize x s = left, y s = right at parts
  cases parts with
  | error error code₁ code₂ => exact .error error code₁ code₂
  | @ok a b code₁ code₂ values codes s₁ =>
    dsimp only
    have parts := rest a b values s₁
    generalize f a s₁ = left, g b s₁ = right at parts
    cases parts with
    | error error => exact .error error _ _
    | ok values' codes' s' => exact .ok values' (List.rel_append codes codes') s'

/-- The same result on both sides. -/
theorem then_same {agree : β → β → Prop} {x y : Lowering α} {f g : α → Lowering β}
    (first : Matches Eq x y) (rest : ∀ a, Matches agree (f a) (g a)) :
    Matches agree (x >>= f) (y >>= g) := by
  refine first.bind ?_
  rintro a _ rfl
  exact rest a

theorem precededBy {pending : Instruction} {settled : α → Instruction} {x y : Lowering α}
    (body : Matches Eq x y) :
    Matches Eq (Lowering.precededBy pending settled x) (Lowering.precededBy pending settled y) := by
  intro s
  unfold Lowering.precededBy
  have parts := body s
  generalize x s = left, y s = right at parts
  cases parts with
  | error error => exact .error error _ _
  | ok values codes s' =>
    cases values
    exact .ok rfl (.cons (.same _) codes) s'

theorem require {agree : α → α → Prop} {note₁ note₂ : Option α} {key : Note.Key}
    {node₁ node₂ : Node Tag} (notes : Option.Rel agree note₁ note₂)
    (kind : node₁.kindName = node₂.kindName) (span : node₁.span = node₂.span) :
    Matches agree (Lowering.require note₁ key node₁) (Lowering.require note₂ key node₂) := by
  cases notes with
  | some values => exact fun s => .ok values .nil s
  | none =>
    simp only [Lowering.require, kind, span]
    exact .fail _ _

theorem require_same (note : Option α) (key : Note.Key) {node₁ node₂ : Node Tag}
    (kind : node₁.kindName = node₂.kindName) (span : node₁.span = node₂.span) :
    Matches Eq (Lowering.require note key node₁) (Lowering.require note key node₂) := by
  cases note with
  | none => exact .require .none kind span
  | some value => exact .require (.some rfl) kind span

end Matches

/-- Labels that do not differ, or those of functions that differ in their bases. -/
def TwinLabels (first second : String) : Prop :=
  first = second ∨
    ∃ base₁ base₂ n, first = FreshNames.uniqueName base₁ n ∧ second = FreshNames.uniqueName base₂ n

theorem TwinLabels.key {first second : String} (twins : TwinLabels first second) :
    labelKey first = labelKey second := by
  rcases twins with rfl | ⟨base₁, base₂, n, rfl, rfl⟩
  · rfl
  · rw [labelKey_entry, labelKey_entry]

theorem TwinLabels.key_past {first second : String} (twins : TwinLabels first second) :
    labelKey (first ++ "_end") = labelKey (second ++ "_end") := by
  rcases twins with rfl | ⟨base₁, base₂, n, rfl, rfl⟩
  · rfl
  · rw [labelKey_past, labelKey_past]

/-- The same notes, but for the base of a label. -/
structure TwinNotes (first second : Notes) : Prop where
  locals : first.locals = second.locals
  index : first.index = second.index
  constant : first.constant = second.constant
  binding : first.binding = second.binding
  address : Option.Rel TwinLabels first.address second.address

/-- The same node, but for a name that lowering does not look at. -/
inductive Renamed : Node Tag → Node Tag → Prop
  | same (node : Node Tag) : Renamed node node
  | define (tag : Tag) (name₁ name₂ : String) (params : List (Node Tag)) (body : Node Tag)
      (type : Option String) :
      Renamed (.define tag name₁ params body type) (.define tag name₂ params body type)
  | program (tag : Tag) (name₁ name₂ : String) (body₁ body₂ : List (Node Tag)) :
      Renamed (.program tag name₁ body₁) (.program tag name₂ body₂)
  | call (tag : Tag) (callee₁ callee₂ : Node Tag) (args : List (Node Tag))
      (trailing : Option (Node Tag)) :
      Renamed (.call tag callee₁ args trailing) (.call tag callee₂ args trailing)
  | use (tag : Tag) (name₁ name₂ : String) :
      Renamed (.leaf tag (.valueId name₁)) (.leaf tag (.valueId name₂))

theorem Renamed.tag {node₁ node₂ : Node Tag} (renamed : Renamed node₁ node₂) :
    node₁.tag = node₂.tag := by
  cases renamed <;> rfl

theorem Renamed.kindName {node₁ node₂ : Node Tag} (renamed : Renamed node₁ node₂) :
    node₁.kindName = node₂.kindName := by
  cases renamed <;> rfl

/-- What is known where a node stands differs in names and bases of labels alone. -/
structure Env.Twins (env₁ env₂ : Env) : Prop where
  owner : env₁.owner = env₂.owner
  notes : ∀ id, TwinNotes (env₁.annotations.get id) (env₂.annotations.get id)
  nodes : List.Forall₂ Renamed env₁.nodes env₂.nodes

theorem find?_renamed {nodes₁ nodes₂ : List (Node Tag)}
    (renamed : List.Forall₂ Renamed nodes₁ nodes₂) (id : Nat) :
    Option.Rel Renamed (nodes₁.find? fun node => node.id == id)
      (nodes₂.find? fun node => node.id == id) := by
  induction renamed with
  | nil => exact .none
  | @cons node₁ node₂ _ _ here _ ih =>
    have same : node₁.id = node₂.id := congrArg Tag.id here.tag
    rw [List.find?_cons, List.find?_cons, same]
    split
    · exact .some here
    · exact ih

section Lookups

variable (twins : env₁.Twins env₂)

include twins

theorem matches_declarationOf (node : Node Tag) :
    Matches Renamed (declarationOf env₁ node) (declarationOf env₂ node) := by
  refine .require ?_ rfl rfl
  unfold Env.notes
  rw [(twins.notes node.id).binding]
  cases (env₂.annotations.get node.id).binding with
  | none => exact .none
  | some id => exact find?_renamed twins.nodes id

theorem matches_slotOf {declaration₁ declaration₂ : Node Tag}
    (renamed : Renamed declaration₁ declaration₂) (name : String) (span : Span) :
    Matches Eq (slotOf env₁ declaration₁ name span) (slotOf env₂ declaration₂ name span) := by
  have same : declaration₁.id = declaration₂.id := congrArg Tag.id renamed.tag
  simp only [slotOf, Env.notes, twins.owner, same, (twins.notes env₂.owner).locals,
    (twins.notes declaration₂.id).index]
  split
  · exact .require_same _ _ renamed.kindName (congrArg Tag.span renamed.tag)
  · exact .fail _ _

theorem matches_entryOf {declaration₁ declaration₂ : Node Tag}
    (renamed : Renamed declaration₁ declaration₂) :
    Matches TwinLabels (entryOf env₁ declaration₁) (entryOf env₂ declaration₂) := by
  have same : declaration₁.id = declaration₂.id := congrArg Tag.id renamed.tag
  refine .require ?_ renamed.kindName (congrArg Tag.span renamed.tag)
  unfold Env.notes
  rw [same]
  exact (twins.notes declaration₂.id).address

omit twins in
theorem matches_freshLabel (env₁ env₂ : Env) (suffix : String)
    (plain : ∀ c ∈ suffix.toList, c.isDigit = false) :
    Matches (fun first second => labelKey first = labelKey second) (freshLabel env₁ suffix)
      (freshLabel env₂ suffix) := by
  refine (Matches.refl freshNumber).then_same fun n => .pure ?_
  exact (labelKey_label env₁ n suffix plain).trans (labelKey_label env₂ n suffix plain).symm

theorem matches_literal (node : Node Tag) : Matches Eq (literal env₁ node) (literal env₂ node) := by
  unfold literal Env.notes
  rw [(twins.notes node.id).constant]
  exact .refl _

theorem matches_reference (node : Node Tag) (name : String) :
    Matches Eq (reference env₁ node name) (reference env₂ node name) := by
  refine (matches_declarationOf twins node).bind ?_
  intro declaration₁ declaration₂ renamed
  cases renamed with
  | same =>
    cases declaration₁ with
    | declare | param =>
      exact (matches_slotOf twins (.same _) name _).then_same fun _ => .refl _
    | define =>
      refine (matches_entryOf twins (.same _)).bind fun entry₁ entry₂ labels => ?_
      refine (Matches.refl fresh).then_same fun dst => ?_
      exact (Matches.emit (.cons (.loadAddress dst labels.key) .nil)).then_same fun _ => .refl _
    | _ => exact .fail _ _
  | define tag name₁ name₂ params body type =>
    refine (matches_entryOf twins (.define tag name₁ name₂ params body type)).bind
      fun entry₁ entry₂ labels => ?_
    refine (Matches.refl fresh).then_same fun dst => ?_
    exact (Matches.emit (.cons (.loadAddress dst labels.key) .nil)).then_same fun _ => .refl _
  | program | call | use => exact .fail _ _

theorem matches_calleeOf (callee : Node Tag) (args : Nat) (trailing : Bool) (span : Span) :
    Matches TwinLabels (calleeOf env₁ callee args trailing span)
      (calleeOf env₂ callee args trailing span) := by
  unfold calleeOf
  split
  · exact .fail _ _
  · split
    next tag name =>
      refine (matches_declarationOf twins _).bind fun declaration₁ declaration₂ renamed => ?_
      cases renamed with
      | same =>
        cases declaration₁ with
        | define tag' name' params body type =>
          dsimp only
          split
          · exact matches_entryOf twins (.same _)
          · exact .fail _ _
        | _ => exact .fail _ _
      | define tag' name₁ name₂ params body type =>
        dsimp only
        split
        · exact matches_entryOf twins (.define tag' name₁ name₂ params body type)
        · exact .fail _ _
      | program | call | use => exact .fail _ _
    next => exact .fail _ _

omit twins in
theorem storeOf_renamed {declaration₁ declaration₂ : Node Tag}
    (renamed : Renamed declaration₁ declaration₂) (name : String) (span : Span) :
    storeOf declaration₁ name span = storeOf declaration₂ name span := by
  cases renamed <;> rfl

end Lookups

theorem Env.Twins.inside (twins : env₁.Twins env₂) (owner : Nat) (entry₁ entry₂ : String) :
    Env.Twins { env₁ with owner, stem := entry₁ } { env₂ with owner, stem := entry₂ } :=
  { twins with owner := rfl }

/-- A function whose body is lowered alike is, whatever its name is. -/
theorem matches_define (twins : env₁.Twins env₂) (tag : Tag) (name₁ name₂ : String)
    (params : List (Node Tag)) (body : Node Tag) (type : Option String)
    (inner : ∀ entry₁ entry₂,
      Matches Eq (visit { env₁ with owner := tag.id, stem := entry₁ } body)
        (visit { env₂ with owner := tag.id, stem := entry₂ } body)) :
    Matches Eq (visit env₁ (.define tag name₁ params body type))
      (visit env₂ (.define tag name₂ params body type)) := by
  rw [visit, visit]
  refine (matches_entryOf twins (.define tag name₁ name₂ params body type)).bind
    fun entry₁ entry₂ labels => ?_
  have sameLocals := (twins.notes tag.id).locals
  unfold Env.notes
  refine Matches.then_same ?_ fun locals => (Matches.refl fresh).then_same fun dst => ?_
  · show Matches Eq (require (env₁.annotations.get tag.id).locals _ _) _
    rw [sameLocals]
    exact .require_same _ _ rfl rfl
  refine (Matches.emit (.cons (.loadAddress dst labels.key) (.cons (.jump labels.key_past)
    (.cons (.label labels.key) (AlikeAll.refl _))))).then_same fun _ => ?_
  refine (Matches.refl mark).then_same fun start => ?_
  refine Matches.then_same (.precededBy ?_) fun last => ?_
  · exact (inner entry₁ entry₂).then_same fun _ => .refl _
  · exact (Matches.emit (.cons (.same _) (.cons (.same _) (.cons (.same _)
      (.cons (.label labels.key_past) .nil))))).then_same fun _ => .refl _

mutual

/-- Lowering looks at the names of functions for nothing but the bases of labels. -/
theorem matches_visit : ∀ {env₁ env₂ : Env} (node : Node Tag), env₁.Twins env₂ →
    Matches Eq (visit env₁ node) (visit env₂ node)
  | env₁, env₂, .leaf tag kind => by
    intro twins
    cases kind with
    | int | real | bool => exact matches_literal twins _
    | valueId name => exact matches_reference twins _ name
    | _ => exact .refl _
  | _, _, .param tag name type => fun _ => .refl _
  | _, _, .program tag name body | _, _, .block tag body => by
    intro twins
    rw [visit, visit]
    exact (matches_visitStatements none body twins).then_same fun _ => .refl _
  | _, _, .define tag name params body type => by
    intro twins
    refine matches_define twins tag name name params body type fun entry₁ entry₂ => ?_
    exact matches_visit body (twins.inside tag.id entry₁ entry₂)
  | env₁, env₂, .declare tag mutability name type value => by
    intro twins
    rw [visit, visit]
    refine (matches_visit value twins).then_same fun src => ?_
    unfold Env.notes
    rw [(twins.notes (Node.declare tag mutability name type value).id).index]
    exact .refl _
  | env₁, env₂, .assign tag name value => by
    intro twins
    rw [visit, visit]
    refine (matches_declarationOf twins _).bind fun declaration₁ declaration₂ renamed => ?_
    rw [storeOf_renamed renamed]
    refine (Matches.refl _).then_same fun store => ?_
    refine (matches_slotOf twins renamed name _).then_same fun index => ?_
    exact (matches_visit value twins).then_same fun _ => .refl _
  | env₁, env₂, .branch tag pred yes no => by
    intro twins
    rw [visit, visit]
    refine (matches_visit pred twins).then_same fun test => ?_
    refine (matches_freshLabel env₁ env₂ "else" (by simp)).bind fun else₁ else₂ isElse => ?_
    refine (matches_freshLabel env₁ env₂ "end" (by simp)).bind fun end₁ end₂ isEnd => ?_
    refine Matches.then_same (.precededBy ?_) fun _ => .refl _
    refine (Matches.emit (.cons (.branchZero test isElse) .nil)).then_same fun _ => ?_
    refine (matches_visit yes twins).then_same fun left => ?_
    refine (Matches.emit (.cons (.jump isEnd) (.cons (.label isElse) .nil))).then_same fun _ => ?_
    refine (matches_visit no twins).then_same fun right => ?_
    exact (Matches.emit (.cons (.label isEnd) .nil)).then_same fun _ => .refl _
  | _, _, .orElse tag body => fun _ => .refl _
  | env₁, env₂, .loop tag pred body => by
    intro twins
    rw [visit, visit]
    refine (matches_freshLabel env₁ env₂ "begin" (by simp)).bind fun begin₁ begin₂ isBegin => ?_
    refine (matches_freshLabel env₁ env₂ "end" (by simp)).bind fun end₁ end₂ isEnd => ?_
    refine (Matches.emit (.cons (.label isBegin) .nil)).then_same fun _ => ?_
    refine (matches_visit pred twins).then_same fun test => ?_
    refine (Matches.emit (.cons (.branchZero test isEnd) .nil)).then_same fun _ => ?_
    refine (matches_visit body twins).then_same fun _ => ?_
    exact (Matches.emit (.cons (.jump isBegin) (.cons (.label isEnd) .nil))).then_same
      fun _ => .refl _
  | _, _, .binary tag op left right => by
    intro twins
    rw [visit, visit]
    split
    · exact .fail _ _
    · refine (matches_visit left twins).then_same fun a => ?_
      exact (matches_visit right twins).then_same fun _ => .refl _
  | _, _, .call tag callee args trailing => by
    intro twins
    rw [visit, visit]
    refine (matches_calleeOf twins callee args.length trailing.isSome tag.span).bind
      fun entry₁ entry₂ labels => ?_
    refine (matches_visitAll args twins).then_same fun regs => ?_
    exact (Matches.emit (.cons (.call regs labels.key) .nil)).then_same fun _ => .refl _
  | _, _, .aggregate tag kind elements => by
    intro twins
    rw [visit, visit]
    exact (matches_visitAll elements twins).then_same fun _ => .refl _

theorem matches_visitAll : ∀ {env₁ env₂ : Env} (nodes : List (Node Tag)), env₁.Twins env₂ →
    Matches Eq (visitAll env₁ nodes) (visitAll env₂ nodes)
  | _, _, [] => fun _ => .refl _
  | _, _, node :: rest => by
    intro twins
    rw [visitAll, visitAll]
    refine (matches_visit node twins).then_same fun reg => ?_
    exact (matches_visitAll rest twins).then_same fun _ => .refl _

theorem matches_visitStatements : ∀ {env₁ env₂ : Env} (last : Option Nat) (nodes : List (Node Tag)),
    env₁.Twins env₂ →
    Matches Eq (visitStatements env₁ last nodes) (visitStatements env₂ last nodes)
  | _, _, _, [] => fun _ => .refl _
  | _, _, last, node :: rest => by
    intro twins
    rw [visitStatements, visitStatements]
    split
    · exact matches_visitStatements last rest twins
    · refine (matches_visit node twins).then_same fun reg => ?_
      exact matches_visitStatements (some reg) rest twins

end

section Addresses

open Walks (Agree)

/-- Notes that differ in the bases of labels, and the same counter. -/
def TwinAddresses (state₁ state₂ : Annotations × FreshNames) : Prop :=
  (∀ id, TwinNotes (state₁.1.get id) (state₂.1.get id)) ∧ state₁.2 = state₂.2

theorem TwinNotes.refl (notes : Notes) : TwinNotes notes notes := by
  refine ⟨rfl, rfl, rfl, rfl, ?_⟩
  cases notes.address with
  | none => exact .none
  | some label => exact .some (.inl rfl)

variable {annotations₁ annotations₂ : Annotations}

theorem agree_set_address {label₁ label₂ : String}
    (twins : ∀ id, TwinNotes (annotations₁.get id) (annotations₂.get id))
    (labels : TwinLabels label₁ label₂) (node : Nat) :
    Agree (fun one two : Annotations => ∀ id, TwinNotes (one.get id) (two.get id))
      (annotations₁.set node (.address label₁)) (annotations₂.set node (.address label₂)) := by
  have here := twins node
  have address := here.address
  unfold Annotations.set Notes.set
  simp only [Note.key, Notes.get?]
  generalize noted₁ : (annotations₁.get node).address = address₁,
    noted₂ : (annotations₂.get node).address = address₂ at address
  cases address with
  | some => exact .error _
  | none =>
    refine .ok fun id => ?_
    rw [Annotations.get_replace, Annotations.get_replace]
    split
    · exact ⟨here.locals, here.index, here.constant, here.binding, .some labels⟩
    · exact twins id

theorem agree_giveAddress {state₁ state₂ : Annotations × FreshNames} {node₁ node₂ : Node Tag}
    (twins : TwinAddresses state₁ state₂) (renamed : Renamed node₁ node₂) :
    Agree TwinAddresses (giveAddress state₁ node₁) (giveAddress state₂ node₂) := by
  have given : ∀ (tag : Tag) (name₁ name₂ : String) (params : List (Node Tag)) (body : Node Tag)
      (type : Option String),
      Agree TwinAddresses (giveAddress state₁ (.define tag name₁ params body type))
        (giveAddress state₂ (.define tag name₂ params body type)) := by
    intro tag name₁ name₂ params body type
    have labels : TwinLabels (FreshNames.uniqueName name₁ state₁.2.next)
        (FreshNames.uniqueName name₂ state₂.2.next) := by
      rw [twins.2]
      exact .inr ⟨name₁, name₂, _, rfl, rfl⟩
    have written := agree_set_address twins.1 labels tag.id
    simp only [giveAddress, FreshNames.unique]
    generalize state₁.1.set tag.id _ = first, state₂.1.set tag.id _ = second at written
    cases written with
    | error e => exact .error _
    | ok notes => exact .ok ⟨notes, by rw [twins.2]⟩
  cases renamed with
  | define tag name₁ name₂ params body type => exact given tag name₁ name₂ params body type
  | same =>
    cases node₁ with
    | define tag name params body type => exact given tag name name params body type
    | _ => exact .ok twins
  | program | call | use => exact .ok twins

/-- Functions get labels that differ in their bases alone. -/
theorem agree_giveAddresses {nodes₁ nodes₂ : List (Node Tag)}
    (renamed : List.Forall₂ Renamed nodes₁ nodes₂) {state₁ state₂ : Annotations × FreshNames}
    (twins : TwinAddresses state₁ state₂) :
    Agree TwinAddresses (nodes₁.foldlM giveAddress state₁) (nodes₂.foldlM giveAddress state₂) := by
  induction renamed generalizing state₁ state₂ with
  | nil => exact .ok twins
  | cons here _ ih =>
    rw [List.foldlM_cons, List.foldlM_cons]
    exact (agree_giveAddress twins here).bind fun _ _ next => ih next

end Addresses

end Lowering

end ScriptVM
