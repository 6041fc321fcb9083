import ScriptVM.Proofs.Labels
import ScriptVM.Proofs.Wrapped

/-!
No two nodes of a document share an identity.

That is true of a new document, whose nodes are numbered in preorder. Attaching alternatives moves
subtrees from one place to another, drops what they replace and adds nodes with new identities, and
wrapping a program adds four. So an identity occurs no more often than it did, unless it was given
out in between, and then it occurs once.
-/
namespace ScriptVM

open Node (preorder preorderAll)

/-- The nodes of a document form a tree: each is reached once. -/
def Document.IsTree (document : Document) : Prop :=
  (document.root.preorder.map Node.id).Nodup

namespace Alternatives

variable {body node closed : Node Tag} {before after : List (Node Tag)}

/-- A closed chain has its nodes and those of the last alternative, but for the one replaced. -/
theorem idCount_close (found : close body node = some closed) (id : Nat) :
    idCount id [closed] ≤ idCount id [node] + idCount id [body] := by
  fun_induction close body node generalizing closed with
  | case1 tag pred yes =>
    cases found
    rw [idCount_branch, idCount_branch]
    omega
  | case2 tag pred yes tag' pred' yes' no' ih =>
    obtain ⟨rest, closes, rfl⟩ := Option.map_eq_some_iff.mp found
    have := ih closes
    rw [idCount_branch, idCount_branch id tag pred yes]
    omega
  | case3 => cases found

theorem idCount_closeNearest (found : closeNearest body before = some after) (id : Nat) :
    idCount id after ≤ idCount id before + idCount id [body] := by
  induction before generalizing after with
  | nil => cases found
  | cons node rest ih =>
    rw [closeNearest] at found
    split at found
    next =>
      obtain ⟨closed, closes, rfl⟩ := Option.map_eq_some_iff.mp found
      have := ih closes
      rw [idCount_cons id node closed, idCount_cons id node rest]
      omega
    next =>
      obtain ⟨closed, closes, rfl⟩ := Option.map_eq_some_iff.mp found
      have := idCount_close closes id
      rw [idCount_cons id closed rest, idCount_cons id node rest]
      omega

/-- Nodes were moved about, some dropped, and some added with identities given out in between. -/
structure Moved (before after : List (Node Tag)) (next next' : Nat) : Prop where
  le : next ≤ next'
  count : ∀ id, idCount id after ≤ idCount id before + taken next next' id

namespace Moved

variable {first first' second second' : List (Node Tag)} {next middle next' : Nat}

theorem refl (nodes : List (Node Tag)) (next : Nat) : Moved nodes nodes next next :=
  ⟨Nat.le_refl _, fun _ => Nat.le_add_right _ _⟩

theorem append (one : Moved first first' next middle) (two : Moved second second' middle next') :
    Moved (first ++ second) (first' ++ second') next next' := by
  refine ⟨Nat.le_trans one.le two.le, fun id => ?_⟩
  have := one.count id
  have := two.count id
  rw [idCount_append, idCount_append, taken_add one.le two.le]
  omega

theorem cons {node node' : Node Tag} (one : Moved [node] [node'] next middle)
    (two : Moved second second' middle next') :
    Moved (node :: second) (node' :: second') next next' :=
  one.append two

theorem trans (one : Moved first second next middle) (two : Moved second second' middle next') :
    Moved first second' next next' := by
  refine ⟨Nat.le_trans one.le two.le, fun id => ?_⟩
  have := one.count id
  have := two.count id
  rw [taken_add one.le two.le]
  omega

/-- What happens below a node, seen from above. -/
theorem below {node node' : Node Tag} (same : node'.tag = node.tag)
    (children : Moved node.children node'.children next next') :
    Moved [node] [node'] next next' := by
  refine ⟨children.le, fun id => ?_⟩
  have := children.count id
  rw [idCount_node, idCount_node id node]
  simp only [idCountHere, Node.id, same]
  omega

end Moved

/-- Joining statements, with those before them latest first, only moves them: no identity occurs more
often than before, but for those that are dealt. -/
theorem moved_joinAfter (before after : List (Node Tag)) (next : Nat) :
    Moved (before ++ after) (joinAfter before after next).1 next (joinAfter before after next).2 := by
  induction after generalizing before next with
  | nil =>
    refine ⟨Nat.le_refl _, fun id => ?_⟩
    show idCount id before.reverse ≤ _
    rw [idCount_reverse, List.append_nil]
    exact Nat.le_add_right _ _
  | cons node rest ih =>
    have moveOver : Moved (before ++ node :: rest) (node :: before ++ rest) next next := by
      refine ⟨Nat.le_refl _, fun id => ?_⟩
      rw [idCount_append, idCount_append, idCount_cons id node rest, idCount_cons id node before]
      omega
    cases node with
    | orElse tag body =>
      rw [joinAfter]
      cases found : closeNearest body before with
      | none => exact moveOver.trans (ih _ next)
      | some closed =>
        have attach : Moved (before ++ .orElse tag body :: rest)
            (.leaf ⟨next, tag.span⟩ .noop :: closed ++ rest) next (next + 1) := by
          refine ⟨Nat.le_succ _, fun id => ?_⟩
          have closes := idCount_closeNearest found id
          rw [idCount_append, idCount_append, idCount_cons id _ rest, idCount_cons id _ closed,
            idCount_node id (.leaf _ _), idCount_node id (.orElse _ _), taken_one]
          simp only [Node.children, idCountHere, Node.id, Node.tag, List.count_singleton, beq_iff_eq,
            idCount_nil]
          omega
        exact attach.trans (ih _ (next + 1))
    | _ =>
      rw [joinAfter]
      · exact moveOver.trans (ih _ next)
      · intro _ _ impossible
        cases impossible

mutual

theorem moved_join : ∀ (node : Node Tag) (next : Nat),
    Moved [node] [(join node next).1] next (join node next).2
  | .leaf .., next | .param .., next => .refl _ next
  | .program _ _ body, next | .block _ body, next =>
    .below rfl ((moved_joinAll body next).trans (moved_joinAfter [] _ _))
  | .define _ _ params body _, next =>
    .below rfl ((moved_joinAll params next).append (moved_join body _))
  | .declare _ _ _ _ value, next | .assign _ _ value, next | .orElse _ value, next =>
    .below rfl (moved_join value next)
  | .branch _ pred yes no, next =>
    .below rfl ((moved_join pred next).cons ((moved_join yes _).cons (moved_join no _)))
  | .loop _ left right, next | .binary _ _ left right, next =>
    .below rfl ((moved_join left next).cons (moved_join right _))
  | .call _ callee args none, next =>
    .below rfl ((moved_join callee next).cons ((moved_joinAll args _).append (.refl [] _)))
  | .call _ callee args (some trailing), next =>
    .below rfl ((moved_join callee next).cons
      ((moved_joinAll args _).append (moved_join trailing _)))
  | .aggregate _ _ elements, next => .below rfl (moved_joinAll elements next)

theorem moved_joinAll : ∀ (nodes : List (Node Tag)) (next : Nat),
    Moved nodes (joinAll nodes next).1 next (joinAll nodes next).2
  | [], next => .refl _ next
  | node :: rest, next => (moved_join node next).cons (moved_joinAll rest _)

end

end Alternatives

namespace Document

/-- Every identity of a document is less than the next one, and none occurs twice. -/
def Numbered (document : Document) : Prop :=
  ∀ id, idCount id [document.root] ≤ taken 0 document.next id

theorem Numbered.isTree {document : Document} (numbered : document.Numbered) : document.IsTree := by
  refine List.nodup_iff_count.mpr fun id => ?_
  have once := Nat.le_trans (numbered id) (taken_le_one 0 document.next id)
  simpa [idCount, preorderAll] using once

theorem Numbered.lt {document : Document} (numbered : document.Numbered) {node : Node Tag}
    (member : node ∈ document.root.preorder) : node.id < document.next := by
  have occurs : 0 < idCount node.id [document.root] := by
    simpa [idCount, preorderAll, List.count_pos_iff] using ⟨node, member, rfl⟩
  have room : 0 < taken 0 document.next node.id := Nat.lt_of_lt_of_le occurs (numbered node.id)
  simp only [taken] at room
  split at room <;> omega

/-- The nodes of a text are dealt their numbers one by one when they are made. -/
theorem numbered_parse {anonymous source : String} {document : Document}
    (parsed : Document.parse anonymous source = .ok document) : document.Numbered := by
  obtain ⟨_, fresh, _, _⟩ := parse_ok parsed
  intro id
  have := fresh.counted id
  rw [taken_add (Nat.zero_le 1) fresh.le]
  omega

theorem numbered_joinAlternatives {document : Document} (numbered : document.Numbered) :
    document.joinAlternatives.Numbered := by
  have moved := Alternatives.moved_join document.root document.next
  intro id
  have := moved.count id
  have := numbered id
  show idCount id [(Alternatives.join document.root document.next).1] ≤
    taken 0 (Alternatives.join document.root document.next).2 id
  rw [taken_add (Nat.zero_le _) moved.le]
  omega

theorem numbered_wrapProgram {document wrapped : Document} (numbered : document.Numbered)
    (success : document.wrapProgram = .ok wrapped) : wrapped.Numbered := by
  unfold wrapProgram at success
  split at success
  next tag name body isRoot =>
    cases success
    intro id
    have bound := numbered id
    rw [isRoot, idCount_node] at bound
    rw [taken_add (Nat.zero_le _) (Nat.le_add_right document.next 4), idCount_node, Node.children,
      idCount_cons, idCount_node id (.define ..), idCount_node id (.call ..)]
    simp only [Node.children, List.nil_append, Option.toList_none, List.append_nil]
    rw [idCount_node id (.block ..), idCount_node id (.leaf ..)]
    simp only [idCountHere, Node.children, Node.id, Node.tag, List.count_singleton, beq_iff_eq,
      idCount_nil, taken] at bound ⊢
    grind
  next => cases success

end Document

end ScriptVM
