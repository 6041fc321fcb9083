import ScriptVM.Proofs.Trees
import ScriptVM.Proofs.Walks

/-!
Walks that refuse a document only for what its source says.

A refusal is internal if it says that notes are missing or written twice, or that the tree has a
shape that no source has. A discipline says when a walk may come to some nodes and what it leaves
when it has been to them. A walk under a discipline never refuses internally, and walks one after
the other, over nodes that are all different, make a walk over all of them.
-/
namespace ScriptVM

/-- A refusal that no source text should cause. -/
def PassError.isInternal : PassError → Bool
  | .note _ | .missing .. | .shape .. => true
  | .name _ | .type .. => false

namespace Annotations

variable {before middle after : Annotations} {keys : List Note.Key} {ids ids' : List Nat}

/-- Notes were written of these kinds only, and about these nodes only. -/
def Confined (keys : List Note.Key) (ids : List Nat) (before after : Annotations) : Prop :=
  ∀ id key, key ∉ keys ∨ id ∉ ids → (after.get id).get? key = (before.get id).get? key

theorem Confined.refl (keys : List Note.Key) (ids : List Nat) (annotations : Annotations) :
    Confined keys ids annotations annotations :=
  fun _ _ _ => rfl

theorem Confined.widen (confined : Confined keys ids before after) (sub : ids ⊆ ids') :
    Confined keys ids' before after :=
  fun id key outside => confined id key (outside.imp_right fun notIn member => notIn (sub member))

theorem Confined.trans (first : Confined keys ids before middle)
    (second : Confined keys ids middle after) : Confined keys ids before after :=
  fun id key outside => (second id key outside).trans (first id key outside)

theorem Confined.append (first : Confined keys ids before middle)
    (second : Confined keys ids' middle after) : Confined keys (ids ++ ids') before after :=
  (first.widen (List.subset_append_left _ _)).trans (second.widen (List.subset_append_right _ _))

theorem confined_of_set {id : Nat} {note : Note} (isKey : note.key ∈ keys) (isNode : id ∈ ids)
    (success : before.set id note = .ok after) : Confined keys ids before after := by
  intro other key outside
  rw [get?_of_set success, if_neg]
  rintro ⟨rfl, rfl⟩
  exact outside.elim (fun notKey => notKey isKey) fun notNode => notNode isNode

/-- Only these kinds of note have been written. -/
def Only (keys : List Note.Key) (annotations : Annotations) : Prop :=
  ∀ id key, key ∉ keys → (annotations.get id).get? key = none

theorem Confined.only {keys' : List Note.Key} (confined : Confined keys ids before after)
    (only : before.Only keys') : after.Only (keys ++ keys') := by
  intro id key outside
  rw [List.mem_append, not_or] at outside
  rw [confined id key (.inl outside.1), only id key outside.2]

theorem ne_none_of_set {id : Nat} {note : Note} (success : before.set id note = .ok after) :
    (after.get id).get? note.key ≠ none := by
  rw [some_of_set success]
  nofun

/-- A note of a kind that is not there can be written. -/
theorem exists_set {id : Nat} {note : Note} (absent : (before.get id).get? note.key = none) :
    ∃ after, before.set id note = .ok after := by
  unfold set Notes.set
  rw [absent]
  exact ⟨_, rfl⟩

end Annotations

namespace Walks

variable {σ ε α β : Type} {internal : ε → Bool}

/-- A computation gives a result of which something holds, or does not refuse internally. -/
def Proper (internal : ε → Bool) (post : α → Prop) : Except ε α → Prop
  | .ok a => post a
  | .error e => internal e = false

theorem Proper.bind {post : α → Prop} {post' : β → Prop} {x : Except ε α} {f : α → Except ε β}
    (first : Proper internal post x) (rest : ∀ a, post a → Proper internal post' (f a)) :
    Proper internal post' (x >>= f) := by
  cases x with
  | error e => exact first
  | ok a => exact rest a first

theorem Proper.weaken {post post' : α → Prop} {x : Except ε α} (proper : Proper internal post x)
    (implies : ∀ a, post a → post' a) : Proper internal post' x := by
  cases x with
  | error e => exact proper
  | ok a => exact implies a proper

/-- The result of which something holds is the result of the computation. -/
theorem Proper.results {post : α → Prop} {x : Except ε α} (proper : Proper internal post x) :
    Proper internal (fun a => post a ∧ x = .ok a) x := by
  cases x with
  | error e => exact proper
  | ok a => exact ⟨proper, rfl⟩

/-- When a walk may come to some nodes, and what it leaves when it has been to them. -/
structure Discipline (σ : Type) where
  Ready : List (Node Tag) → σ → Prop
  Done : List (Node Tag) → σ → σ → Prop
  nothing : ∀ {st}, Ready [] st → Done [] st st
  first : ∀ {nodes nodes' st}, Ready (nodes ++ nodes') st → Ready nodes st
  second : ∀ {nodes nodes' st st'}, Ready (nodes ++ nodes') st → Done nodes st st' →
    Ready nodes' st'
  both : ∀ {nodes nodes' st st' st''}, Done nodes st st' → Done nodes' st' st'' →
    Done (nodes ++ nodes') st st''
  readyPerm : ∀ {nodes nodes' st}, nodes.Perm nodes' → Ready nodes st → Ready nodes' st
  donePerm : ∀ {nodes nodes' st st'}, nodes.Perm nodes' → Done nodes st st' → Done nodes' st st'

namespace Discipline

variable (d : Discipline σ) {nodes nodes' : List (Node Tag)} {post : α → Prop} {post' : β → Prop}

/-- A walk over some nodes under a discipline, with a result of which something holds. -/
def Checked (nodes : List (Node Tag)) (post : α → Prop) (x : StateT σ (Except PassError) α) :
    Prop :=
  ∀ st, d.Ready nodes st →
    Proper PassError.isInternal (fun result => post result.1 ∧ d.Done nodes st result.2) (x st)

variable {d}

theorem Checked.pure {a : α} (holds : post a) :
    d.Checked [] post (Pure.pure a : StateT σ (Except PassError) α) :=
  fun _ ready => ⟨holds, d.nothing ready⟩

theorem Checked.throw {e : PassError} (proper : e.isInternal = false) :
    d.Checked nodes post (MonadExcept.throw e : StateT σ (Except PassError) α) :=
  fun _ _ => proper

theorem Checked.bind {x : StateT σ (Except PassError) α} {f : α → StateT σ (Except PassError) β}
    (one : d.Checked nodes post x) (two : ∀ a, post a → d.Checked nodes' post' (f a)) :
    d.Checked (nodes ++ nodes') post' (x >>= f) := by
  intro st ready
  refine (one st (d.first ready)).bind ?_
  rintro ⟨a, st'⟩ ⟨holds, done⟩
  refine (two a holds st' (d.second ready done)).weaken ?_
  rintro ⟨b, st''⟩ ⟨holds', done'⟩
  exact ⟨holds', d.both done done'⟩

theorem Checked.perm {x : StateT σ (Except PassError) α} (checked : d.Checked nodes post x)
    (perm : nodes.Perm nodes') : d.Checked nodes' post x := by
  intro st ready
  refine (checked st (d.readyPerm perm.symm ready)).weaken ?_
  rintro ⟨a, st'⟩ ⟨holds, done⟩
  exact ⟨holds, d.donePerm perm done⟩

/-- A walk over no nodes, and then one over some. -/
theorem Checked.before {x : StateT σ (Except PassError) α} {f : α → StateT σ (Except PassError) β}
    (one : d.Checked [] post x) (two : ∀ a, post a → d.Checked nodes post' (f a)) :
    d.Checked nodes post' (x >>= f) :=
  one.bind two

/-- A walk over some nodes, and then one over no more. -/
theorem Checked.after {x : StateT σ (Except PassError) α} {f : α → StateT σ (Except PassError) β}
    (one : d.Checked nodes post x) (two : ∀ a, post a → d.Checked [] post' (f a)) :
    d.Checked nodes post' (x >>= f) := by
  have both := one.bind two
  rwa [List.append_nil] at both

/-- A walk over some nodes and then over the one that they stand below. -/
theorem Checked.above {x : StateT σ (Except PassError) α} {f : α → StateT σ (Except PassError) β}
    (node : Node Tag) (one : d.Checked nodes post x)
    (two : ∀ a, post a → d.Checked [node] post' (f a)) :
    d.Checked (node :: nodes) post' (x >>= f) :=
  (one.bind two).perm (List.perm_append_singleton node nodes)

/-- A walk over some nodes, then over others and the one that all of them stand below. -/
theorem Checked.aside {x : StateT σ (Except PassError) α} {f : α → StateT σ (Except PassError) β}
    {node : Node Tag} (one : d.Checked nodes post x)
    (two : ∀ a, post a → d.Checked (node :: nodes') post' (f a)) :
    d.Checked (node :: (nodes ++ nodes')) post' (x >>= f) :=
  (one.bind two).perm List.perm_middle

theorem Checked.ite {condition : Prop} [Decidable condition] {x y : StateT σ (Except PassError) α}
    (yes : d.Checked nodes post x) (no : d.Checked nodes post y) :
    d.Checked nodes post (if condition then x else y) := by
  split
  · exact yes
  · exact no

end Discipline

end Walks

end ScriptVM
