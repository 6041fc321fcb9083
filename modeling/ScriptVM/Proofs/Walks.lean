import ScriptVM.Document.Error

/-!
Walks over a document: computations with a state that may refuse, and notes that are written once.

A walk that succeeds is the walks it is made of, each from the state the one before it left. Notes
are never overwritten, so what is noted before a walk is noted after it, and writing one tells that
it was not there before.
-/
namespace ScriptVM

theorem ok_of_toOption {ε α : Type} {x : Except ε α} {a : α} (found : x.toOption = some a) :
    x = .ok a := by
  cases x with
  | error e => cases found
  | ok b =>
    cases found
    rfl

namespace Walks

variable {σ ε α β : Type} {s s' : σ}

theorem bind_ok {x : StateT σ (Except ε) α} {f : α → StateT σ (Except ε) β} {b : β} :
    (x >>= f) s = .ok (b, s') ↔ ∃ a s₁, x s = .ok (a, s₁) ∧ f a s₁ = .ok (b, s') := by
  show StateT.bind x f s = _ ↔ _
  unfold StateT.bind
  cases first : x s with
  | error e => simp [bind, Except.bind]
  | ok result =>
    obtain ⟨a, s₁⟩ := result
    constructor
    · intro success
      exact ⟨a, s₁, rfl, success⟩
    · rintro ⟨_, _, same, success⟩
      cases same
      exact success

theorem bind_error {x : StateT σ (Except ε) α} {f : α → StateT σ (Except ε) β} {e : ε} :
    (x >>= f) s = .error e ↔
      x s = .error e ∨ ∃ a s₁, x s = .ok (a, s₁) ∧ f a s₁ = .error e := by
  show StateT.bind x f s = _ ↔ _
  unfold StateT.bind
  cases first : x s with
  | error e' => simp [bind, Except.bind]
  | ok result =>
    obtain ⟨a, s₁⟩ := result
    constructor
    · intro refused
      exact .inr ⟨a, s₁, rfl, refused⟩
    · rintro (impossible | ⟨_, _, same, refused⟩)
      · cases impossible
      · cases same
        exact refused

theorem then_ok {x : StateT σ (Except ε) Unit} {f : Unit → StateT σ (Except ε) β} {b : β} :
    (x >>= f) s = .ok (b, s') ↔ ∃ s₁, x s = .ok ((), s₁) ∧ f () s₁ = .ok (b, s') := by
  rw [bind_ok]
  constructor
  · rintro ⟨_, s₁, first, second⟩
    exact ⟨s₁, first, second⟩
  · rintro ⟨s₁, first, second⟩
    exact ⟨(), s₁, first, second⟩

theorem pure_ok {a b : α} :
    (pure a : StateT σ (Except ε) α) s = .ok (b, s') ↔ b = a ∧ s' = s := by
  constructor
  · intro success
    cases success
    exact ⟨rfl, rfl⟩
  · rintro ⟨rfl, rfl⟩
    rfl

theorem get_bind {f : σ → StateT σ (Except ε) α} :
    ((get : StateT σ (Except ε) σ) >>= f) s = f s s := rfl

theorem set_bind {f : PUnit → StateT σ (Except ε) α} (s₁ : σ) :
    ((set s₁ : StateT σ (Except ε) PUnit) >>= f) s = f ⟨⟩ s₁ := rfl

theorem set_ok {s₁ : σ} {u : PUnit} :
    (set s₁ : StateT σ (Except ε) PUnit) s = .ok (u, s') ↔ s' = s₁ := by
  constructor
  · intro success
    cases success
    rfl
  · rintro rfl
    rfl

theorem throw_ok {e : ε} {a : α} : ¬ (throw e : StateT σ (Except ε) α) s = .ok (a, s') := by
  intro success
  cases success

/-- A part that does not change the state. -/
theorem lift_bind_ok {x : Except ε α} {f : α → StateT σ (Except ε) β} {b : β} :
    ((liftM x : StateT σ (Except ε) α) >>= f) s = .ok (b, s') ↔
      ∃ a, x = .ok a ∧ f a s = .ok (b, s') := by
  rw [bind_ok]
  cases x with
  | error e =>
    constructor
    · rintro ⟨_, _, impossible, _⟩
      cases impossible
    · rintro ⟨_, impossible, _⟩
      cases impossible
  | ok a =>
    constructor
    · rintro ⟨_, _, same, success⟩
      cases same
      exact ⟨a, rfl, success⟩
    · rintro ⟨_, same, success⟩
      cases same
      exact ⟨a, s, rfl, success⟩

theorem except_bind_ok {x : Except ε α} {f : α → Except ε β} {b : β} :
    (x >>= f) = .ok b ↔ ∃ a, x = .ok a ∧ f a = .ok b := by
  cases x with
  | error e =>
    constructor
    · intro success
      cases success
    · rintro ⟨_, impossible, _⟩
      cases impossible
  | ok a =>
    constructor
    · intro success
      exact ⟨a, rfl, success⟩
    · rintro ⟨_, same, success⟩
      cases same
      exact success

theorem ok_of_mapError {ε' : Type} {x : Except ε α} {f : ε → ε'} {a : α}
    (success : x.mapError f = .ok a) : x = .ok a := by
  cases x with
  | error e => cases success
  | ok b =>
    cases success
    rfl

section TwoRuns

/-- Two computations refuse for the same reason, or give results that go together. -/
inductive Agree (agree : α → β → Prop) : Except ε α → Except ε β → Prop
  | ok {a : α} {b : β} (values : agree a b) : Agree agree (.ok a) (.ok b)
  | error (e : ε) : Agree agree (.error e) (.error e)

theorem Agree.bind {α' β' : Type} {agree : α → β → Prop} {agree' : α' → β' → Prop} {x : Except ε α}
    {y : Except ε β} {f : α → Except ε α'} {g : β → Except ε β'} (first : Agree agree x y)
    (rest : ∀ a b, agree a b → Agree agree' (f a) (g b)) : Agree agree' (x >>= f) (y >>= g) := by
  cases first with
  | error e => exact .error e
  | ok values => exact rest _ _ values

theorem Agree.refl (x : Except ε α) : Agree Eq x x := by
  cases x with
  | error e => exact .error e
  | ok a => exact .ok rfl

theorem Agree.eq {x y : Except ε α} (same : Agree Eq x y) : x = y := by
  cases same with
  | error e => rfl
  | ok values => rw [values]

theorem Agree.map {α' β' : Type} {agree : α → β → Prop} {agree' : α' → β' → Prop} {x : Except ε α}
    {y : Except ε β} {f : α → α'} {g : β → β'} (first : Agree agree x y)
    (rest : ∀ a b, agree a b → agree' (f a) (g b)) : Agree agree' (f <$> x) (g <$> y) := by
  cases first with
  | error e => exact .error e
  | ok values => exact .ok (rest _ _ values)

theorem Agree.mapError {ε' : Type} {agree : α → β → Prop} {x : Except ε α} {y : Except ε β}
    (first : Agree agree x y) (f : ε → ε') : Agree agree (x.mapError f) (y.mapError f) := by
  cases first with
  | error e => exact .error (f e)
  | ok values => exact .ok values

/-- What the results of two computations that agree are results of. -/
theorem Agree.results {agree : α → β → Prop} {x : Except ε α} {y : Except ε β}
    (first : Agree agree x y) :
    Agree (fun a b => agree a b ∧ x = .ok a ∧ y = .ok b) x y := by
  cases first with
  | error e => exact .error e
  | ok values => exact .ok ⟨values, rfl, rfl⟩

theorem Agree.weaken {agree agree' : α → β → Prop} {x : Except ε α} {y : Except ε β}
    (first : Agree agree x y) (implies : ∀ a b, agree a b → agree' a b) : Agree agree' x y := by
  cases first with
  | error e => exact .error e
  | ok values => exact .ok (implies _ _ values)

/-- Walks from states that go together agree and leave states that go together. -/
def Related (before after : σ → σ → Prop) (agree : α → α → Prop)
    (x y : StateT σ (Except ε) α) : Prop :=
  ∀ s₁ s₂, before s₁ s₂ →
    Agree (fun one two => agree one.1 two.1 ∧ after one.2 two.2) (x s₁) (y s₂)

namespace Related

variable {before middle after : σ → σ → Prop} {agree : α → α → Prop} {agree' : β → β → Prop}

theorem pure {a b : α} (values : agree a b) :
    Related before before agree (Pure.pure a : StateT σ (Except ε) α) (Pure.pure b) :=
  fun _ _ states => .ok ⟨values, states⟩

theorem throw (e : ε) :
    Related before after agree (MonadExcept.throw e : StateT σ (Except ε) α)
      (MonadExcept.throw e) :=
  fun _ _ _ => .error e

theorem bind {x y : StateT σ (Except ε) α} {f g : α → StateT σ (Except ε) β}
    (first : Related before middle agree x y)
    (rest : ∀ a b, agree a b → Related middle after agree' (f a) (g b)) :
    Related before after agree' (x >>= f) (y >>= g) := by
  intro s₁ s₂ states
  refine (first s₁ s₂ states).bind ?_
  rintro ⟨a, s₁'⟩ ⟨b, s₂'⟩ ⟨values, states'⟩
  exact rest a b values s₁' s₂' states'

/-- The same result on both sides. -/
theorem then_same {x y : StateT σ (Except ε) α} {f g : α → StateT σ (Except ε) β}
    (first : Related before middle Eq x y) (rest : ∀ a, Related middle after agree' (f a) (g a)) :
    Related before after agree' (x >>= f) (y >>= g) := by
  refine first.bind ?_
  rintro a _ rfl
  exact rest a

/-- A walk and itself, from the same state. -/
theorem same (x : StateT σ (Except ε) α) : Related Eq Eq Eq x x := by
  rintro s _ rfl
  cases x s with
  | error e => exact .error e
  | ok result => exact .ok ⟨rfl, rfl⟩

theorem strengthen {before' : σ → σ → Prop} {x y : StateT σ (Except ε) α}
    (related : Related before after agree x y) (implies : ∀ s₁ s₂, before' s₁ s₂ → before s₁ s₂) :
    Related before' after agree x y :=
  fun s₁ s₂ states => related s₁ s₂ (implies s₁ s₂ states)

end Related

end TwoRuns

end Walks

namespace Notes

variable {notes : Notes}

theorem binding_of_get? {declaration : Nat}
    (noted : notes.get? .binding = some (.binding declaration)) :
    notes.binding = some declaration := by
  simpa [get?] using noted

theorem locals_of_get? {locals : Locals} (noted : notes.get? .locals = some (.locals locals)) :
    notes.locals = some locals := by
  simpa [get?] using noted

theorem index_of_get? {slot : Nat} (noted : notes.get? .index = some (.index slot)) :
    notes.index = some slot := by
  simpa [get?] using noted

theorem address_of_get? {label : String} (noted : notes.get? .address = some (.address label)) :
    notes.address = some label := by
  simpa [get?] using noted

theorem constant_of_get? {index : Nat} (noted : notes.get? .constant = some (.constant index)) :
    notes.constant = some index := by
  simpa [get?] using noted

end Notes

namespace Annotations

variable {before after : Annotations} {id : Nat} {note : Note}

/-- Whatever is noted stays noted. -/
def Extends (before after : Annotations) : Prop :=
  ∀ id key note, (before.get id).get? key = some note → (after.get id).get? key = some note

theorem Extends.refl (annotations : Annotations) : annotations.Extends annotations :=
  fun _ _ _ found => found

theorem Extends.trans {middle : Annotations} (first : before.Extends middle)
    (second : middle.Extends after) : before.Extends after :=
  fun id key note found => second id key note (first id key note found)

/-- What is not noted afterwards was not noted before. -/
theorem Extends.none_of_none (extended : before.Extends after) {key : Note.Key}
    (absent : (after.get id).get? key = none) : (before.get id).get? key = none := by
  cases found : (before.get id).get? key with
  | none => rfl
  | some note =>
    rw [extended id key note found] at absent
    cases absent

theorem get?_of_set (success : before.set id note = .ok after) (other : Nat) (key : Note.Key) :
    (after.get other).get? key =
      if other = id ∧ key = note.key then some note else (before.get other).get? key := by
  unfold set at success
  split at success
  next notes written =>
    cases success
    unfold Notes.set at written
    split at written
    next => cases written
    next =>
      cases written
      rw [get_replace]
      by_cases same : id = other
      · subst same
        by_cases sameKey : key = note.key
        · simp [sameKey, Notes.get?_put_self]
        · simp [sameKey, Notes.get?_put_other _ _ _ sameKey]
      · simp [same, Ne.symm same]
  next => cases success

theorem none_of_set (success : before.set id note = .ok after) :
    (before.get id).get? note.key = none := by
  unfold set at success
  split at success
  next notes written =>
    unfold Notes.set at written
    split at written
    next => cases written
    next absent => exact absent
  next => cases success

theorem some_of_set (success : before.set id note = .ok after) :
    (after.get id).get? note.key = some note := by
  rw [get?_of_set success, if_pos ⟨rfl, rfl⟩]

theorem extends_of_set (success : before.set id note = .ok after) : before.Extends after := by
  intro other key found present
  rw [get?_of_set success]
  split
  next same =>
    obtain ⟨rfl, rfl⟩ := same
    rw [none_of_set success] at present
    cases present
  next => exact present

theorem write_ok {node : Nat} :
    before.write node note = .ok after ↔ before.set node note = .ok after := by
  unfold write
  split
  next found => simp [found]
  next found => simp [found]

end Annotations

end ScriptVM
