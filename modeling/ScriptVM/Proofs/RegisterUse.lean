import ScriptVM.Proofs.Ownership
import ScriptVM.Proofs.RegisterFlow

/-!
Every register is written once, before it is read.

Four things hold of a stretch of lowered code. It writes the registers between its numbers, in order.
Every function in it reads what it wrote before. Results and the values of branches stand where they
are expected. And a function saves what is written in it. The code of a document is one stretch, so
they hold of all of it.
-/
namespace ScriptVM

namespace Lowering

/-! ### The order of writes -/

/-- The registers that code writes, in its order, apart from the one that carries results. -/
def written (code : List Instruction) : List Nat :=
  (code.filterMap Instruction.written?).filter (· ≠ resultReg)

@[simp] theorem written_nil : written [] = [] := rfl

@[simp] theorem written_append (first second : List Instruction) :
    written (first ++ second) = written first ++ written second := by
  simp [written]

theorem written_cons (instruction : Instruction) (rest : List Instruction) :
    written (instruction :: rest) =
      (instruction.written?.filter (· ≠ resultReg)).toList ++ written rest := by
  cases writes : instruction.written? with
  | none => simp [written, writes]
  | some reg => by_cases same : reg = resultReg <;> simp [written, writes, same, Option.filter]

theorem written_cons_of_none {instruction : Instruction} (silent : instruction.written? = none)
    (rest : List Instruction) : written (instruction :: rest) = written rest := by
  simp [written_cons, silent]

theorem written_cons_of_some {instruction : Instruction} {reg : Nat}
    (writes : instruction.written? = some reg) (given : reg ≠ resultReg) (rest : List Instruction) :
    written (instruction :: rest) = reg :: written rest := by
  simp [written_cons, writes, given, Option.filter]

theorem mem_written {code : List Instruction} {reg : Nat} (given : reg ≠ resultReg) :
    reg ∈ written code ↔ ∃ instruction ∈ code, instruction.written? = some reg := by
  simp [written, given]

theorem count_written (code : List Instruction) {reg : Nat} (given : reg ≠ resultReg) :
    (written code).count reg = code.countP (fun instruction => instruction.written? == some reg) := by
  rw [written, List.count_filter (by simpa using given), List.count_filterMap]

theorem written_halves (test : Nat) (otherwise past : String) (first second : List Instruction) :
    written (halvesCode test otherwise past first second) = written first ++ written second := by
  simp [halvesCode, written_cons, Instruction.written?]

theorem written_loop (test : Nat) (again past : String) (first second : List Instruction) :
    written (loopCode test again past first second) = written first ++ written second := by
  simp [loopCode, written_cons, Instruction.written?]

theorem written_function (entry : String) (slots last : Nat) (given : List Nat)
    (inner : List Instruction) {reg : Nat} (isGiven : reg ≠ resultReg) :
    written (functionCode reg entry slots given inner last) = reg :: written inner := by
  simp [functionCode, written_cons, Instruction.written?, isGiven, Option.filter]

/-- Code that writes the registers from one number up to another, each once and in order, and some of
these. -/
structure Numbered (next : Nat) (code : List Instruction) (next' : Nat) (known : List Nat) :
    Prop where
  le : next ≤ next'
  order : written code = List.range' next (next' - next)
  within : ∀ reg ∈ known, next ≤ reg ∧ reg < next'

namespace Numbered

variable {next next₁ next₂ : Nat} {code code' first second : List Instruction}
  {known known' : List Nat}

theorem of_silent (silent : written code = []) : Numbered next code next [] :=
  ⟨Nat.le_refl _, by simp [silent], nofun⟩

theorem of_one (one : written code = [next]) : Numbered next code (next + 1) [next] :=
  ⟨Nat.le_add_right .., by simp [one], by simp⟩

theorem append (one : Numbered next first next₁ known) (two : Numbered next₁ second next₂ known') :
    Numbered next (first ++ second) next₂ (known ++ known') := by
  have := one.le
  have := two.le
  refine ⟨Nat.le_trans one.le two.le, ?_, fun reg member => ?_⟩
  · have middle : next₁ = next + (next₁ - next) := by omega
    have whole : next₂ - next = (next₁ - next) + (next₂ - next₁) := by omega
    calc written (first ++ second)
        = List.range' next (next₁ - next) ++ List.range' next₁ (next₂ - next₁) := by
          rw [written_append, one.order, two.order]
      _ = List.range' next (next₁ - next) ++
            List.range' (next + (next₁ - next)) (next₂ - next₁) := by rw [← middle]
      _ = List.range' next (next₂ - next) := by rw [List.range'_append_1, ← whole]
  · rcases List.mem_append.mp member with inOne | inTwo
    · have := one.within reg inOne
      omega
    · have := two.within reg inTwo
      omega

/-- Numbers depend on nothing but what is written. -/
theorem congr (numbered : Numbered next code next₁ known) (same : written code' = written code)
    (sub : known' ⊆ known) : Numbered next code' next₁ known' :=
  ⟨numbered.le, same.trans numbered.order, fun reg member => numbered.within reg (sub member)⟩

end Numbered

variable {nodes : List (Node Tag)} {annotations : Annotations} {owner next next' : Nat}
  {code : List Instruction} {known : List Nat}

/-- A stretch writes the registers between its numbers. -/
theorem Stretch.numbered (stretch : Stretch nodes annotations owner next code next' known)
    (isGiven : resultReg < next) : Numbered next code next' known := by
  induction stretch with
  | nil => exact .of_silent rfl
  | append first second ihFirst ihSecond =>
    have one := ihFirst isGiven
    exact one.append (ihSecond (Nat.lt_of_lt_of_le isGiven one.le))
  | write before instruction ordinary reads writes ih =>
    have numbered := ih isGiven
    have isNew := Nat.ne_of_gt (Nat.lt_of_lt_of_le isGiven numbered.le)
    have one := Numbered.of_one (written_cons_of_some writes isNew [])
    exact (numbered.append one).congr rfl (by simp)
  | use before instruction ordinary reads writes ih =>
    exact ((ih isGiven).append (.of_silent (written_cons_of_none writes []))).congr rfl (by simp)
  | @call owner next next' code known target args before reads ih =>
    have numbered := ih isGiven
    have isNew := Nat.ne_of_gt (Nat.lt_of_lt_of_le isGiven numbered.le)
    have one : written [.call target args, .copy next' resultReg] = [next'] := by
      rw [written_cons_of_none rfl, written_cons_of_some rfl isNew]
      rfl
    exact (numbered.append (.of_one one)).congr rfl (by simp)
  | @branch owner next next₁ next₂ next₃ test left right code first second known known₁ known₂
      otherwise past before isTest isOtherwise isPast one isLeft two isRight ih ihOne ihTwo =>
    have inTest := ih isGiven
    have given₁ := Nat.lt_of_lt_of_le isGiven inTest.le
    have inFirst := ihOne given₁
    have given₂ := Nat.lt_of_lt_of_le given₁ inFirst.le
    have inSecond := ihTwo given₂
    have given₃ := Nat.lt_of_lt_of_le given₂ inSecond.le
    have join : Numbered next₃ [.phi next₃ left right] (next₃ + 1) [next₃] :=
      .of_one (written_cons_of_some rfl (Nat.ne_of_gt given₃) [])
    refine (inTest.append ((inFirst.append inSecond).append join)).congr ?_ ?_
    · have silent (rest : List Instruction) : written (.unset [left, right] :: rest) = written rest :=
        written_cons_of_none rfl rest
      simp [written_halves, silent]
    · intro reg member
      grind
  | loop isAgain isPast one isTest two ihOne ihTwo =>
    have inFirst := ihOne isGiven
    have inSecond := ihTwo (Nat.lt_of_lt_of_le isGiven inFirst.le)
    refine (inFirst.append inSecond).congr ?_ (List.Subset.refl _)
    rw [written_loop, written_append]
  | @function next' last slots inner known tag name params body type entry owner next isNode address
      isBody isLast ih =>
    have isNew := Nat.ne_of_gt isGiven
    have one : Numbered next [.loadAddress next (.label entry)] (next + 1) [next] :=
      .of_one (written_cons_of_some rfl isNew [])
    refine (one.append (ih (Nat.lt_succ_of_lt isGiven))).congr ?_ (List.subset_append_left ..)
    rw [written_function _ _ _ _ _ isNew, written_append, written_cons_of_some rfl isNew]
    rfl

theorem Numbered.not_result {next next' reg : Nat} {code : List Instruction} {known : List Nat}
    (numbered : Numbered next code next' known) (isGiven : resultReg < next) (member : reg ∈ known) :
    reg ≠ resultReg := by
  have := numbered.within reg member
  omega

/-- The two values that a branch may leave are in registers of their own. -/
theorem Numbered.ne {next next₁ next₂ left right : Nat} {first second : List Instruction}
    {known known' : List Nat} (one : Numbered next first next₁ known)
    (two : Numbered next₁ second next₂ known') (isLeft : left ∈ known) (isRight : right ∈ known') :
    left ≠ right := by
  have := one.within left isLeft
  have := two.within right isRight
  omega

/-! ### Where values come from -/

/-- What holds at every place of a list, of the items before it, there and after it. Around the list
stand others. -/
def Everywhere {α : Type} (holds : List α → α → List α → Prop) (front items back : List α) : Prop :=
  ∀ before item after, items = before ++ item :: after →
    holds (front ++ before) item (after ++ back)

namespace Everywhere

variable {α : Type} {holds : List α → α → List α → Prop} {front first second back : List α}

theorem nil : Everywhere holds front [] back := by
  intro before item after same
  simp at same

theorem cons {item : α} {rest : List α} (here : holds front item (rest ++ back))
    (there : Everywhere holds (front ++ [item]) rest back) :
    Everywhere holds front (item :: rest) back := by
  intro before other after same
  rcases List.cons_eq_append_iff.mp same with ⟨rfl, cut⟩ | ⟨before', rfl, rfl⟩
  · cases cut
    simpa using here
  · simpa using there before' other after rfl

theorem append (one : Everywhere holds front first (second ++ back))
    (two : Everywhere holds (front ++ first) second back) :
    Everywhere holds front (first ++ second) back := by
  induction first generalizing front with
  | nil => simpa using two
  | cons item rest ih =>
    refine cons ?_ (ih ?_ (by simpa using two))
    · simpa using one [] item rest rfl
    · intro before other after same
      simpa using one (item :: before) other after (by rw [same, List.cons_append])

/-- What does not depend on how far one looks holds in wider surroundings too. -/
theorem widen (everywhere : Everywhere holds front first back) (front' back' : List α)
    (wider : ∀ before item after, holds before item after →
      holds (front' ++ before) item (after ++ back')) :
    Everywhere holds (front' ++ front) first (back ++ back') := by
  intro before item after same
  simpa using wider _ _ _ (everywhere before item after same)

end Everywhere

/-- The function of an instruction wrote before whatever the instruction reads, apart from a
result. -/
def Fed (before : List (Nat × Instruction)) (item : Nat × Instruction)
    (_after : List (Nat × Instruction)) : Prop :=
  ∀ reg ∈ item.2.read, reg ≠ resultReg →
    ∃ instruction, (item.1, instruction) ∈ before ∧ instruction.written? = some reg

/-- Attributed code in which every function reads what it wrote before. The owner has written the
registers named. -/
structure Feeds (owner : Nat) (part : List (Nat × Instruction)) (known : List Nat) : Prop where
  reads : Everywhere Fed [] part []
  writes : ∀ reg ∈ known, ∃ instruction, (owner, instruction) ∈ part ∧ instruction.written? = some reg

namespace Feeds

variable {owner : Nat} {part part' : List (Nat × Instruction)} {known known' : List Nat}

theorem nil (owner : Nat) : Feeds owner [] [] := ⟨.nil, nofun⟩

theorem append (one : Feeds owner part known) (two : Feeds owner part' known') :
    Feeds owner (part ++ part') (known ++ known') := by
  refine ⟨.append ?_ ?_, fun reg member => ?_⟩
  · exact one.reads.widen [] part' fun _ _ _ fed => fed
  · have after := two.reads.widen part [] fun before item after fed reg
        isRead isGiven => by
      obtain ⟨instruction, inPart, writes⟩ := fed reg isRead isGiven
      exact ⟨instruction, List.mem_append_right _ inPart, writes⟩
    simpa using after
  · rcases List.mem_append.mp member with inOne | inTwo
    · obtain ⟨instruction, inPart, writes⟩ := one.writes reg inOne
      exact ⟨instruction, List.mem_append_left _ inPart, writes⟩
    · obtain ⟨instruction, inPart, writes⟩ := two.writes reg inTwo
      exact ⟨instruction, List.mem_append_right _ inPart, writes⟩

/-- What one function reads and writes is nothing that another one has written. -/
theorem forget (feeds : Feeds owner part known) (other : Nat) : Feeds other part [] :=
  ⟨feeds.reads, fun _ member => absurd member List.not_mem_nil⟩

theorem weaken (feeds : Feeds owner part known) (sub : known' ⊆ known) : Feeds owner part known' :=
  ⟨feeds.reads, fun reg member => feeds.writes reg (sub member)⟩

/-- The owner goes on with an instruction that reads registers it has written. -/
theorem step (feeds : Feeds owner part known) (instruction : Instruction)
    (reads : ∀ reg ∈ instruction.read, reg ≠ resultReg → reg ∈ known) :
    Feeds owner (part ++ [(owner, instruction)]) (known ++ instruction.written?.toList) := by
  refine ⟨.append ?_ (.cons ?_ .nil), fun reg member => ?_⟩
  · exact feeds.reads.widen [] [(owner, instruction)] fun _ _ _ fed => fed
  · intro reg isRead isGiven
    exact feeds.writes reg (reads reg isRead isGiven)
  · rcases List.mem_append.mp member with old | new
    · obtain ⟨other, inPart, writes⟩ := feeds.writes reg old
      exact ⟨other, List.mem_append_left _ inPart, writes⟩
    · exact ⟨instruction, by simp, by simpa using new⟩

/-- The owner goes on with an instruction that neither reads nor writes. -/
theorem skip (feeds : Feeds owner part known) (instruction : Instruction)
    (reads : instruction.read = []) :
    Feeds owner (part ++ [(owner, instruction)]) known :=
  (feeds.step instruction (by simp [reads])).weaken (List.subset_append_left ..)

end Feeds

section Attributed

open Assembly

variable {starts : String → Option Nat} {region : Region}

theorem labelName?_of_ordinary {instruction : Instruction}
    (ordinary : instruction.isOrdinary = true) : instruction.labelName? = none := by
  cases instruction <;> first | rfl | cases ordinary

/-- Reading a stretch leads back to where it began. -/
theorem after_stretch (beginnings : Beginnings nodes annotations starts)
    (stretch : Stretch nodes annotations owner next code next' known)
    (legible : Legible region code) : region.after starts code = region := by
  induction stretch generalizing region with
  | nil => rfl
  | append first second ihFirst ihSecond =>
    rw [after_append, ihFirst legible.left, ihSecond legible.right]
  | write before _ ordinary reads writes ih | use before _ ordinary reads writes ih =>
    rw [after_append, ih legible.left, after_cons, labelName?_of_ordinary ordinary]
    rfl
  | call before reads ih =>
    rw [after_append, ih legible.left]
    rfl
  | @branch owner next next₁ next₂ next₃ test left right code first second known known₁ known₂
      otherwise past before isTest isOtherwise isPast one isLeft two isRight ih ihOne ihTwo =>
    have legibleHalves := legible.right.left.right
    obtain ⟨legibleOne, legibleTwo⟩ := legible_halves legibleHalves
    have unset : region.after starts [.unset [left, right]] = region := rfl
    rw [after_append, ih legible.left, after_append, after_append, unset,
      after_halves beginnings isOtherwise isPast legibleHalves (ihOne legibleOne) (ihTwo legibleTwo)]
    rfl
  | loop isAgain isPast one isTest two ihOne ihTwo =>
    obtain ⟨legibleOne, legibleTwo⟩ := legible_loop legible
    exact after_loop beginnings isAgain isPast legible (ihOne legibleOne) (ihTwo legibleTwo)
  | function owner next isNode address isBody isLast ih =>
    exact after_function beginnings isNode address (ih (legible_inside _ legible))

/-- In the code of a function and of those inside it, every function reads what it wrote before.
What a function inside has written is of no use outside. -/
theorem feeds_stretch (beginnings : Beginnings nodes annotations starts)
    (stretch : Stretch nodes annotations owner next code next' known)
    (legible : Legible region code) (isOwner : region.owner = owner) :
    Feeds owner (attributed starts region code) known := by
  induction stretch generalizing region with
  | nil => exact .nil _
  | append first second ihFirst ihSecond =>
    rw [attributed_append, after_stretch beginnings first legible.left]
    exact (ihFirst legible.left isOwner).append (ihSecond legible.right isOwner)
  | write before instruction ordinary reads writes ih =>
    rw [attributed_append, after_stretch beginnings before legible.left,
      attributed_cons _ (labelName?_of_ordinary ordinary), isOwner]
    refine ((ih legible.left isOwner).step instruction fun reg isRead _ => reads isRead).weaken ?_
    simp [writes]
  | use before instruction ordinary reads writes ih =>
    rw [attributed_append, after_stretch beginnings before legible.left,
      attributed_cons _ (labelName?_of_ordinary ordinary), isOwner]
    refine ((ih legible.left isOwner).step instruction fun reg isRead _ => reads isRead).weaken ?_
    simp [writes]
  | @call owner next next' code known target args before reads ih =>
    rw [attributed_append, after_stretch beginnings before legible.left]
    have called := (ih legible.left isOwner).step (.call target args)
      fun reg isRead _ => reads isRead
    have taken := called.step (.copy next' resultReg)
      fun reg isRead isGiven => absurd (List.mem_singleton.mp isRead) isGiven
    simp only [attributed, isOwner]
    rw [List.append_assoc] at taken
    exact taken.weaken (by simp [Instruction.written?])
  | @branch owner next next₁ next₂ next₃ test left right code first second known known₁ known₂
      otherwise past before isTest isOtherwise isPast one isLeft two isRight ih ihOne ihTwo =>
    have legibleHalves := legible.right.left.right
    obtain ⟨legibleOne, legibleTwo⟩ := legible_halves legibleHalves
    have backOne := after_stretch beginnings one legibleOne
    have backTwo := after_stretch beginnings two legibleTwo
    have unset : region.after starts [.unset [left, right]] = region := rfl
    rw [attributed_append, after_stretch beginnings before legible.left, attributed_append,
      attributed_append, after_append, unset,
      after_halves beginnings isOtherwise isPast legibleHalves backOne backTwo,
      attributed_halves beginnings isOtherwise legibleHalves backOne]
    simp only [attributed, isOwner]
    have tested := ((ih legible.left isOwner).skip (.unset [left, right]) rfl).step
      (.branchZero test (.label otherwise)) (by simp [Instruction.read, isTest])
    have chosen := ((tested.append (ihOne legibleOne isOwner)).skip
      (.jump (.label past)) rfl).append (ihTwo legibleTwo isOwner)
    have joined := chosen.step (.phi next₃ left right)
      (by simp [Instruction.read, isLeft, isRight])
    have sub : next₃ :: (known ++ (known₁ ++ known₂)) ⊆
        known ++ none.toList ++ known₁ ++ known₂ ++ (some next₃).toList := by
      intro reg member
      grind
    simpa using joined.weaken sub
  | @loop owner next next₁ next₂ test first second known₁ known₂ again past isAgain isPast one isTest
      two ihOne ihTwo =>
    obtain ⟨legibleOne, legibleTwo⟩ := legible_loop legible
    rw [attributed_loop beginnings isAgain legible (after_stretch beginnings one legibleOne)
      (after_stretch beginnings two legibleTwo), isOwner]
    have tested := (ihOne legibleOne isOwner).step
      (.branchZero test (.label past)) (by simp [Instruction.read, isTest])
    have whole := (tested.append (ihTwo legibleTwo isOwner)).skip
      (.jump (.label again)) rfl
    simpa [Instruction.written?] using whole
  | @function next' last slots inner known tag name params body type entry owner next isNode address
      isBody isLast ih =>
    have legibleBody := legible_inside tag.id legible
    rw [attributed_function beginnings isNode address
      (after_stretch beginnings isBody legibleBody), isOwner]
    have opened := ((Feeds.nil tag.id).skip (.reserve slots) rfl).skip
      (.save (List.range' (next + 1) (next' - (next + 1)))) rfl
    have closed := (((opened.append (ih legibleBody rfl)).step
      (.copy resultReg last) (by simp [Instruction.read, isLast])).skip
        (.restore (List.range' (next + 1) (next' - (next + 1)))) rfl).skip
          (.ret) rfl
    have around := ((Feeds.nil owner).step (.loadAddress next (.label entry))
      (by simp [Instruction.read])).skip (.jump (.label (entry ++ "_end"))) rfl
    have whole := around.append (closed.forget owner)
    simpa [functionPart, Instruction.written?] using whole

end Attributed

/-! ### Results, and the values of branches -/

/-- How an instruction that has to do with results or with branches stands in its surroundings. -/
structure InPlace (before : List Instruction) (instruction : Instruction)
    (after : List Instruction) : Prop where
  /-- A result is written where a function is about to restore what it saved. -/
  result : instruction.written? = some resultReg →
    (∃ src, instruction = .copy resultReg src) ∧ ∃ regs, after.head? = some (.restore regs)
  restore : ∀ regs, instruction = .restore regs →
    ∃ src, before.getLast? = some (.copy resultReg src)
  /-- A result is read where a call has just come back. -/
  taken : resultReg ∈ instruction.read → (∃ dst, instruction = .copy dst resultReg) ∧
    ∃ target args, before.getLast? = some (.call target args)
  call : ∀ target args, instruction = .call target args →
    ∃ dst, after.head? = some (.copy dst resultReg)
  /-- What is unset before a branch are the two registers that meet after it. -/
  unset : ∀ regs, instruction = .unset regs → ∃ dst left right test otherwise past first second rest,
    regs = [left, right] ∧ left ≠ right ∧
    after = halvesCode test otherwise past first second ++ .phi dst left right :: rest
  phi : ∀ dst left right, instruction = .phi dst left right → left ≠ right ∧
    ∃ front test otherwise past first second,
      before = front ++ .unset [left, right] :: halvesCode test otherwise past first second

namespace InPlace

variable {before after : List Instruction} {instruction : Instruction}

/-- Surroundings may grow where something stands already. -/
theorem widen (inPlace : InPlace before instruction after) (front back : List Instruction) :
    InPlace (front ++ before) instruction (after ++ back) where
  result writes := by
    obtain ⟨isCopy, regs, next⟩ := inPlace.result writes
    exact ⟨isCopy, regs, by simp [List.head?_append, next]⟩
  restore regs same := by
    obtain ⟨src, previous⟩ := inPlace.restore regs same
    exact ⟨src, by simp [List.getLast?_append, previous]⟩
  taken reads := by
    obtain ⟨isCopy, target, args, previous⟩ := inPlace.taken reads
    exact ⟨isCopy, target, args, by simp [List.getLast?_append, previous]⟩
  call target args same := by
    obtain ⟨dst, next⟩ := inPlace.call target args same
    exact ⟨dst, by simp [List.head?_append, next]⟩
  unset regs same := by
    obtain ⟨dst, left, right, test, otherwise, past, first, second, rest, isPair, apart, isAfter⟩ :=
      inPlace.unset regs same
    exact ⟨dst, left, right, test, otherwise, past, first, second, rest ++ back, isPair, apart,
      by simp [isAfter]⟩
  phi dst left right same := by
    obtain ⟨apart, front', test, otherwise, past, first, second, isBefore⟩ :=
      inPlace.phi dst left right same
    exact ⟨apart, front ++ front', test, otherwise, past, first, second, by simp [isBefore]⟩

/-- Nothing is expected of an instruction that leaves results alone and has to do with no branch. -/
theorem of_unpaired (unpaired : instruction.isPaired = false)
    (writes : instruction.written? ≠ some resultReg) (reads : resultReg ∉ instruction.read)
    (before after : List Instruction) : InPlace before instruction after where
  result same := absurd same writes
  restore regs same := by rw [same] at unpaired; cases unpaired
  taken member := absurd member reads
  call target args same := by rw [same] at unpaired; cases unpaired
  unset regs same := by rw [same] at unpaired; cases unpaired
  phi dst left right same := by rw [same] at unpaired; cases unpaired

theorem of_call {target : Target} {args : List Nat} (dst : Nat) (notArgs : resultReg ∉ args) :
    InPlace before (.call target args) (.copy dst resultReg :: after) where
  result same := by cases same
  restore _ same := by cases same
  taken member := absurd member notArgs
  call _ _ _ := ⟨dst, rfl⟩
  unset _ same := by cases same
  phi _ _ _ same := by cases same

theorem of_taken {target : Target} {args : List Nat} {dst : Nat} (given : dst ≠ resultReg) :
    InPlace (before ++ [.call target args]) (.copy dst resultReg) after where
  result writes := absurd (Option.some.inj writes) given
  restore _ same := by cases same
  taken _ := ⟨⟨dst, rfl⟩, target, args, List.getLast?_concat⟩
  call _ _ same := by cases same
  unset _ same := by cases same
  phi _ _ _ same := by cases same

theorem of_result {src : Nat} (saved : List Nat) (given : src ≠ resultReg) :
    InPlace before (.copy resultReg src) (.restore saved :: after) where
  result _ := ⟨⟨src, rfl⟩, saved, rfl⟩
  restore _ same := by cases same
  taken member := absurd (List.mem_singleton.mp member).symm given
  call _ _ same := by cases same
  unset _ same := by cases same
  phi _ _ _ same := by cases same

theorem of_restore {src : Nat} {saved : List Nat} :
    InPlace (before ++ [.copy resultReg src]) (.restore saved) after where
  result same := by cases same
  restore _ _ := ⟨src, List.getLast?_concat⟩
  taken member := by cases member
  call _ _ same := by cases same
  unset _ same := by cases same
  phi _ _ _ same := by cases same

section Branch

variable {test dst left right : Nat} {otherwise past : String} {first second : List Instruction}

theorem of_unset (apart : left ≠ right) : InPlace before (.unset [left, right])
    (halvesCode test otherwise past first second ++ .phi dst left right :: after) where
  result same := by cases same
  restore _ same := by cases same
  taken member := by cases member
  call _ _ same := by cases same
  unset _ same := by
    cases same
    exact ⟨dst, left, right, test, otherwise, past, first, second, after, rfl, apart, rfl⟩
  phi _ _ _ same := by cases same

theorem of_phi (isDst : dst ≠ resultReg) (isLeft : left ≠ resultReg) (isRight : right ≠ resultReg)
    (apart : left ≠ right) :
    InPlace (before ++ .unset [left, right] :: halvesCode test otherwise past first second)
      (.phi dst left right) after where
  result writes := absurd (Option.some.inj writes) isDst
  restore _ same := by cases same
  taken member := by simp [Instruction.read, isLeft.symm, isRight.symm] at member
  call _ _ same := by cases same
  unset _ same := by cases same
  phi _ _ _ same := by
    cases same
    exact ⟨apart, before, test, otherwise, past, first, second, rfl⟩

end Branch

end InPlace

/-- Code in which all that has to do with results and with branches is in place. -/
def Settled (code : List Instruction) : Prop :=
  Everywhere InPlace [] code []

namespace Settled

variable {first second : List Instruction}

theorem nil : Settled [] := Everywhere.nil

theorem append (one : Settled first) (two : Settled second) : Settled (first ++ second) := by
  refine Everywhere.append ?_ ?_
  · simpa using Everywhere.widen one [] second
      fun before item after inPlace => inPlace.widen [] second
  · simpa using Everywhere.widen two first []
      fun before item after inPlace => inPlace.widen first []

theorem single {instruction : Instruction} (unpaired : instruction.isPaired = false)
    (writes : instruction.written? ≠ some resultReg) (reads : resultReg ∉ instruction.read) :
    Settled [instruction] :=
  .cons (.of_unpaired unpaired writes reads _ _) .nil

/-- An instruction that neither reads nor writes. -/
theorem quiet {instruction : Instruction} (unpaired : instruction.isPaired = false)
    (writes : instruction.written? = none) (reads : instruction.read = []) : Settled [instruction] :=
  single unpaired (by simp [writes]) (by simp [reads])

theorem test {reg : Nat} (target : Target) (given : reg ≠ resultReg) :
    Settled [.branchZero reg target] :=
  single rfl (by simp [Instruction.written?]) (by simpa [Instruction.read] using given.symm)

/-- A call, and what it leaves. -/
theorem call {target : Target} {args : List Nat} {dst : Nat} (notArgs : resultReg ∉ args)
    (given : dst ≠ resultReg) : Settled [.call target args, .copy dst resultReg] :=
  .cons (.of_call dst notArgs) (.cons (.of_taken given) .nil)

/-- What a function does in the end. -/
theorem leave {src : Nat} (saved : List Nat) (given : src ≠ resultReg) :
    Settled [.copy resultReg src, .restore saved] :=
  .cons (.of_result saved given) (.cons .of_restore .nil)

theorem halves {test : Nat} {otherwise past : String} (one : Settled first) (two : Settled second)
    (isTest : test ≠ resultReg) : Settled (halvesCode test otherwise past first second) := by
  have jump : Settled [.jump (.label past)] := quiet rfl rfl rfl
  have label (name : String) : Settled [.label name] := quiet rfl rfl rfl
  exact ((((Settled.test _ isTest).append one).append (jump.append (label otherwise))).append
    two).append (label past)

/-- A branch, from what is unset before it to where its values meet. -/
theorem branch {test dst left right : Nat} {otherwise past : String} (one : Settled first)
    (two : Settled second) (isTest : test ≠ resultReg) (isDst : dst ≠ resultReg)
    (isLeft : left ≠ resultReg) (isRight : right ≠ resultReg) (apart : left ≠ right) :
    Settled ([.unset [left, right]] ++ halvesCode test otherwise past first second ++
      [.phi dst left right]) := by
  have between : Everywhere InPlace [.unset [left, right]]
      (halvesCode test otherwise past first second) [.phi dst left right] :=
    Everywhere.widen (halves one two isTest) [.unset [left, right]] [.phi dst left right]
      fun before item after inPlace => inPlace.widen _ _
  have join : InPlace ([] ++ .unset [left, right] :: halvesCode test otherwise past first second)
      (.phi dst left right) [] := .of_phi isDst isLeft isRight apart
  have rest : Everywhere InPlace [.unset [left, right]]
      (halvesCode test otherwise past first second ++ [.phi dst left right]) [] :=
    .append between (.cons join .nil)
  refine .cons ?_ rest
  rw [List.append_nil]
  exact .of_unset apart

end Settled

theorem unpaired_of_ordinary {instruction : Instruction}
    (ordinary : instruction.isOrdinary = true) : instruction.isPaired = false := by
  cases instruction <;> first | rfl | cases ordinary

/-- In a stretch all that has to do with results and with branches is in place. Registers are given
out above the one of results, so none of those that lowering reads is that one, but for the copy
after a call. -/
theorem Stretch.settled (stretch : Stretch nodes annotations owner next code next' known)
    (isGiven : resultReg < next) : Settled code := by
  induction stretch with
  | nil => exact .nil
  | append first second ihFirst ihSecond =>
    have one := first.numbered isGiven
    exact (ihFirst isGiven).append (ihSecond (Nat.lt_of_lt_of_le isGiven one.le))
  | write before instruction ordinary reads writes ih =>
    have numbered := before.numbered isGiven
    refine (ih isGiven).append (.single (unpaired_of_ordinary ordinary) ?_ ?_)
    · rw [writes]
      have := numbered.le
      simp
      omega
    · exact fun isRead => numbered.not_result isGiven (reads isRead) rfl
  | use before instruction ordinary reads writes ih =>
    have numbered := before.numbered isGiven
    refine (ih isGiven).append (.single (unpaired_of_ordinary ordinary) ?_ ?_)
    · simp [writes]
    · exact fun isRead => numbered.not_result isGiven (reads isRead) rfl
  | call before reads ih =>
    have numbered := before.numbered isGiven
    have isNew := Nat.lt_of_lt_of_le isGiven numbered.le
    exact (ih isGiven).append (.call (fun isArg => numbered.not_result isGiven (reads isArg) rfl)
      (Nat.ne_of_gt isNew))
  | branch before isTest isOtherwise isPast one isLeft two isRight ih ihOne ihTwo =>
    have inTest := before.numbered isGiven
    have given₁ := Nat.lt_of_lt_of_le isGiven inTest.le
    have inFirst := one.numbered given₁
    have given₂ := Nat.lt_of_lt_of_le given₁ inFirst.le
    have inSecond := two.numbered given₂
    have given₃ := Nat.lt_of_lt_of_le given₂ inSecond.le
    exact (ih isGiven).append (.branch (ihOne given₁) (ihTwo given₂)
      (inTest.not_result isGiven isTest) (Nat.ne_of_gt given₃) (inFirst.not_result given₁ isLeft)
      (inSecond.not_result given₂ isRight) (inFirst.ne inSecond isLeft isRight))
  | @loop owner next next₁ next₂ test first second known₁ known₂ again past isAgain isPast one isTest
      two ihOne ihTwo =>
    have inFirst := one.numbered isGiven
    have test := Settled.test (.label past) (inFirst.not_result isGiven isTest)
    have label (name : String) : Settled [.label name] := .quiet rfl rfl rfl
    have jump : Settled [.jump (.label again)] := .quiet rfl rfl rfl
    exact ((((label again).append (ihOne isGiven)).append test).append
      (ihTwo (Nat.lt_of_lt_of_le isGiven inFirst.le))).append (jump.append (label past))
  | @function next' last slots inner known tag name params body type entry owner next isNode address
      isBody isLast ih =>
    have given₁ := Nat.lt_succ_of_lt isGiven
    have load : Settled [.loadAddress next (.label entry)] :=
      .single rfl (by simpa [Instruction.written?] using Nat.ne_of_gt isGiven) List.not_mem_nil
    have jump : Settled [.jump (.label (entry ++ "_end"))] := .quiet rfl rfl rfl
    have label (name : String) : Settled [.label name] := .quiet rfl rfl rfl
    have reserve : Settled [.reserve slots] := .quiet rfl rfl rfl
    have save : Settled [.save (List.range' (next + 1) (next' - (next + 1)))] :=
      .quiet rfl rfl rfl
    have leave := Settled.leave (List.range' (next + 1) (next' - (next + 1)))
      ((isBody.numbered given₁).not_result given₁ isLast)
    have ret : Settled [.ret] := .quiet rfl rfl rfl
    have whole := load.append (jump.append ((label entry).append (reserve.append (save.append
      ((ih given₁).append (leave.append (ret.append (label (entry ++ "_end")))))))))
    simpa [functionCode] using whole

/-! ### Functions -/

/-- What stands between the label of a function and the one past it. The function saves and restores
the registers that are written there, each of them once. -/
def SavesWritten (code : List Instruction) : Prop :=
  ∃ slots given inner last,
    code = [.reserve slots, .save given] ++ inner ++ [.copy resultReg last, .restore given, .ret] ∧
    given.Nodup ∧
    ∀ reg, reg ∈ given ↔
      reg ≠ resultReg ∧ ∃ instruction ∈ code, instruction.written? = some reg

theorem Numbered.savesWritten {next next' : Nat} {inner : List Instruction} {known : List Nat}
    (numbered : Numbered next inner next' known) (isGiven : resultReg < next) (slots last : Nat) :
    SavesWritten ([.reserve slots, .save (List.range' next (next' - next))] ++ inner ++
      [.copy resultReg last, .restore (List.range' next (next' - next)), .ret]) := by
  refine ⟨slots, _, inner, last, rfl, List.nodup_range', fun reg => ?_⟩
  constructor
  · intro member
    have given : reg ≠ resultReg := by
      have := (List.mem_range'_1.mp member).1
      omega
    rw [← numbered.order, mem_written given] at member
    obtain ⟨instruction, inInner, writes⟩ := member
    exact ⟨given, instruction, by simp [inInner], writes⟩
  · rintro ⟨given, instruction, member, writes⟩
    rw [← numbered.order, mem_written given]
    refine ⟨instruction, ?_, writes⟩
    simp only [List.mem_append, List.mem_cons, List.not_mem_nil, or_false] at member
    rcases member with ((rfl | rfl) | inInner) | rfl | rfl | rfl
    · cases writes
    · cases writes
    · exact inInner
    · exact absurd (Option.some.inj writes).symm given
    · cases writes
    · cases writes

/-- The code of a function saves what is written in it. -/
theorem savesWritten_visit {env : Env} {s s' : Supply} {tag : Tag} {name : String}
    {params : List (Node Tag)} {body : Node Tag} {type : Option String} {reg : Nat}
    {code : List Instruction}
    (inside : (Node.define tag name params body type).preorder ⊆ env.nodes)
    (isGiven : resultReg < s.register)
    (success : visit env (.define tag name params body type) s = .ok reg code s') :
    ∃ entry between, (env.annotations.get tag.id).address = some entry ∧
      code = [.loadAddress reg (.label entry), .jump (.label (entry ++ "_end"))] ++
        .label entry :: (between ++ [.label (entry ++ "_end")]) ∧ SavesWritten between := by
  obtain ⟨entry, locals, last, inner, address, _, rfl, lowered, rfl⟩ := visit_define_ok success
  have isChild : body ∈ (Node.define tag name params body type).children := by
    simp [Node.children]
  obtain ⟨known, isBody, _⟩ :
      Holds { env with owner := tag.id, stem := entry } s.withoutRegister inner s' [last] :=
    holds_visit (List.Subset.trans (Node.preorder_subset_of_child isChild) inside) lowered
  have isGiven' : resultReg < s.withoutRegister.register := Nat.lt_succ_of_lt isGiven
  have saves := (isBody.numbered isGiven').savesWritten isGiven' locals.size last
  exact ⟨entry, _, address, by simp [functionCode], saves⟩

end Lowering

open Lowering (Everywhere Fed Settled SavesWritten)

/-- Code in which every register is written once, before it is read, and in which functions save just
what they write. -/
structure Document.KeepsRegisters (document : Document) (code : List Instruction) (n : Nat) :
    Prop where
  once : ∀ reg, 1 ≤ reg → reg ≤ n →
    code.countP (fun instruction => instruction.written? == some reg) = 1
  /-- No other register is written but the one that carries results. -/
  only : ∀ instruction ∈ code, ∀ reg, instruction.written? = some reg → reg ≤ n
  fed : Everywhere Fed [] (document.attributed code) []
  settled : Settled code
  /-- The code of a function stands at its label, which is placed once. -/
  distinct : (Assembly.placedLabels code).Nodup
  functions : ∀ tag name params body type, .define tag name params body type ∈ document.root.preorder →
    ∃ entry before between after, (document.annotations.get tag.id).address = some entry ∧
      code = before ++ .label entry :: (between ++ .label (entry ++ "_end") :: after) ∧
      SavesWritten between

/-- What lowering a document gives keeps registers. -/
theorem Document.keepsRegisters_of_compile {document document' : Document} {compiled : Compiled}
    (plain : Lowering.PlainParams document.root)
    (success : document.compile = .ok (document', compiled)) :
    ∃ n, document.registerCount? = some n ∧ document'.KeepsRegisters compiled.code n := by
  have distinct : (Assembly.placedLabels compiled.code).Nodup :=
    .of_map _ (orderly_of_compile plain success).distinct
  obtain ⟨n, known, count, stretch⟩ := stretch_of_compile success
  obtain ⟨tag, name, statements, annotations, names, locals, code, s', root, given, _, lowered,
    isCode, rfl⟩ := Document.compile_ok success
  have isWritten : Lowering.written compiled.code = List.range' 1 n := by
    simpa [resultReg] using (stretch.numbered (Nat.lt_succ_self _)).order
  refine ⟨n, count, ?_, ?_, ?_, stretch.settled (Nat.lt_succ_self _), distinct, ?_⟩
  · intro reg isFirst isLast
    have isGiven : reg ≠ resultReg := Nat.ne_of_gt isFirst
    rw [← Lowering.count_written _ isGiven, isWritten]
    exact List.count_eq_one_of_mem List.nodup_range' (List.mem_range'_1.mpr ⟨isFirst, by omega⟩)
  · intro instruction member reg writes
    by_cases isGiven : reg = resultReg
    · rw [isGiven]
      exact Nat.zero_le _
    · have isMember := (Lowering.mem_written isGiven).mpr ⟨instruction, member, writes⟩
      rw [isWritten] at isMember
      have := (List.mem_range'_1.mp isMember).2
      omega
  · have beginnings := @beginnings_of_giveAddresses { document with annotations } _ _ given rfl
    exact (Lowering.feeds_stretch beginnings stretch (.outermost _ distinct) rfl).reads
  · intro tag' name' params body type isNode
    obtain ⟨env, s₁, reg, part, s₂, before, after, nodes, sameNotes, shrinks, loweredPart, rfl⟩ :=
      Lowering.contains_function lowered plain isNode
    have isGiven : resultReg < s₁.register := shrinks.registers
    obtain ⟨entry, between, address, rfl, saves⟩ := Lowering.savesWritten_visit
      (by rw [nodes]; exact Node.preorder_subset isNode) isGiven loweredPart
    rw [sameNotes] at address
    exact ⟨entry, (if 0 < locals.size then [.reserve locals.size] else []) ++ before ++
        [.loadAddress reg (.label entry), .jump (.label (entry ++ "_end"))], between,
      after ++ [.halt], address, by simp [isCode], saves⟩

namespace Program

variable {typeCheck : Bool} {anonymous source : String}
  {parsed analysed collected document : Document} {pool : Pool} {compiled : Compiled}

/-- The code of a text keeps registers. Lowering gives out the registers from the first one on. Each of
them is written by one instruction of the code and no other is, save the one that carries results,
which is written before a function restores what it saved and read after a call. Whatever else an
instruction reads was written before by an instruction of the same function. A function saves and
restores the registers that are written between its labels, each once. Where a branch begins, the two
registers are unset that meet where it ends, and they are not the same. -/
theorem keeps_registers (parse : Document.parse anonymous source = .ok parsed)
    (analyse : Program.analyse typeCheck parsed = .ok analysed)
    (collect : analysed.collectConstants = .ok (collected, pool))
    (compile : collected.compile = .ok (document, compiled)) :
    (document.attributed compiled.code).map Prod.snd =
        compiled.code.filter (fun instruction => instruction.labelName?.isNone) ∧
      ∃ n, collected.registerCount? = some n ∧ document.KeepsRegisters compiled.code n :=
  ⟨Assembly.map_snd_attributed _, Document.keepsRegisters_of_compile
    (plainParams_of_analyse parse analyse collect) compile⟩

/-- A function inside another one, which branches and calls itself in one half. -/
theorem keeps_registers_of_nested :
    ∃ parsed analysed collected pool document compiled,
      Document.parse "main"
        "def f(a) \x7b def g(b) \x7b if b \x7b g(b - 1) \x7d else \x7b 2 \x7d \x7d; g(a) \x7d; f(1)" =
        .ok parsed ∧
      Program.analyse false parsed = .ok analysed ∧
      analysed.collectConstants = .ok (collected, pool) ∧
      collected.compile = .ok (document, compiled) ∧
      collected.registerCount? = some 15 ∧ document.KeepsRegisters compiled.code 15 := by
  have lowers : ((Document.parse "main"
      "def f(a) \x7b def g(b) \x7b if b \x7b g(b - 1) \x7d else \x7b 2 \x7d \x7d; g(a) \x7d; f(1)").toOption.bind
        fun parsed => (Program.analyse false parsed).toOption.bind fun analysed =>
          analysed.collectConstants.toOption.bind fun collected =>
            collected.1.compile.toOption.map fun _ => collected.1.registerCount?) =
        some (some 15) := by
    decide +kernel
  obtain ⟨parsed, parse, lowers⟩ := Option.bind_eq_some_iff.mp lowers
  obtain ⟨analysed, analyse, lowers⟩ := Option.bind_eq_some_iff.mp lowers
  obtain ⟨⟨collected, pool⟩, collect, lowers⟩ := Option.bind_eq_some_iff.mp lowers
  obtain ⟨⟨document, compiled⟩, compile, count⟩ := Option.map_eq_some_iff.mp lowers
  have parse := ok_of_toOption parse
  have analysed' := ok_of_toOption analyse
  have collected' := ok_of_toOption collect
  have compiled' := ok_of_toOption compile
  obtain ⟨_, n, count', keeps⟩ := keeps_registers parse analysed' collected' compiled'
  cases count'.symm.trans count
  exact ⟨parsed, analysed, collected, pool, document, compiled, parse, analysed', collected',
    compiled', count, keeps⟩

end Program

end ScriptVM
