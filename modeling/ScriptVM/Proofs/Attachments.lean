import Mathlib.Data.Multiset.Bind
import Mathlib.Tactic.Abel
import ScriptVM.Proofs.Trees

/-!
What attaching alternatives is to do, apart from how it is done.

A statement list is scanned from left to right. An alternative becomes the last one of the nearest
statement before it that is not a noop, if that is a branch whose chain of alternatives ends in a
unit, and every other statement stays. Only then are the statements looked into, those that have
just been moved included. Each attachment costs a tree the alternative and the unit that it replaces,
and brings a noop; all the other nodes are there once more.
-/
namespace ScriptVM

namespace Node

variable {α : Type}

/-- The node without what is below it. -/
def alone : Node α → Node α
  | leaf tag kind => leaf tag kind
  | param tag name type => param tag name type
  | program tag name _ => program tag name []
  | block tag _ => block tag []
  | define tag name _ _ result => define tag name [] (leaf tag .unit) result
  | declare tag mutability name type _ => declare tag mutability name type (leaf tag .unit)
  | assign tag name _ => assign tag name (leaf tag .unit)
  | branch tag _ _ _ => branch tag (leaf tag .unit) (leaf tag .unit) (leaf tag .unit)
  | orElse tag _ => orElse tag (leaf tag .unit)
  | loop tag _ _ => loop tag (leaf tag .unit) (leaf tag .unit)
  | binary tag op _ _ => binary tag op (leaf tag .unit) (leaf tag .unit)
  | call tag _ _ trailing => call tag (leaf tag .unit) [] (trailing.map fun _ => leaf tag .unit)
  | aggregate tag kind _ => aggregate tag kind []

/-- Whether the children of the node are statements. -/
def hasStatements : Node α → Bool
  | program .. | block .. => true
  | _ => false

/-- A node is what is its own and what is below it. -/
theorem eq_of_alone {node node' : Node α} (own : node.alone = node'.alone)
    (below : node.children = node'.children) : node = node' := by
  cases node with
  | define tag name params body result =>
    cases node' <;> cases own
    obtain ⟨rfl, same⟩ := List.append_inj' below rfl
    cases same
    rfl
  | call tag callee args trailing =>
    cases node' with
    | call tag' callee' args' trailing' =>
      cases trailing <;> cases trailing' <;> simp_all [alone, children]
    | _ => cases own
  | _ =>
    cases node' <;> cases own
    cases below
    rfl

theorem isNoop_alone (node : Node α) : node.alone.isNoop = node.isNoop := by
  cases node <;> rfl

theorem hasStatements_alone (node : Node α) : node.alone.hasStatements = node.hasStatements := by
  cases node <;> rfl

end Node

open Node (preorder preorderAll preorder_eq preorderAll_append)

/-- The nodes of some trees, each without what is below it. -/
def ownParts (nodes : List (Node Tag)) : Multiset (Node Tag) :=
  ((preorderAll nodes).map Node.alone : List (Node Tag))

theorem ownParts_append (first second : List (Node Tag)) :
    ownParts (first ++ second) = ownParts first + ownParts second := by
  simp [ownParts, preorderAll_append]

theorem ownParts_cons (node : Node Tag) (rest : List (Node Tag)) :
    ownParts (node :: rest) = ownParts [node] + ownParts rest :=
  ownParts_append [node] rest

theorem ownParts_node (node : Node Tag) :
    ownParts [node] = {node.alone} + ownParts node.children := by
  simp [ownParts, preorderAll, preorder_eq node]

namespace Alternatives

/-- An alternative that was attached: the statement it stood in, the unit it replaces and the noop
that keeps its place. -/
structure Attachment where
  statement : Tag
  placeholder : Tag
  noop : Tag

namespace Attachment

/-- What the tree loses. -/
def lost (attachment : Attachment) : Multiset (Node Tag) :=
  {.orElse attachment.statement (.leaf attachment.statement .unit)} +
    {.leaf attachment.placeholder .unit}

/-- What the tree gains. -/
def gained (attachment : Attachment) : Node Tag :=
  .leaf attachment.noop .noop

end Attachment

/-- A last alternative in place of the unit that ends a chain. -/
inductive Closes (body : Node Tag) (placeholder : Tag) : Node Tag → Node Tag → Prop
  | here (tag : Tag) (pred yes : Node Tag) :
    Closes body placeholder (.branch tag pred yes (.leaf placeholder .unit))
      (.branch tag pred yes body)
  | deeper (tag : Tag) (pred yes : Node Tag) {no no' : Node Tag} :
    Closes body placeholder no no' →
      Closes body placeholder (.branch tag pred yes no) (.branch tag pred yes no')

/-- A last alternative for the nearest statement that is not a noop. -/
inductive Attaches (body : Node Tag) (placeholder : Tag) :
    List (Node Tag) → List (Node Tag) → Prop
  | intro (before noops : List (Node Tag)) (target target' : Node Tag) :
    target.isNoop = false → (∀ noop ∈ noops, noop.isNoop = true) →
    Closes body placeholder target target' →
      Attaches body placeholder (before ++ target :: noops) (before ++ target' :: noops)

/-- What becomes of statements from left to right. -/
inductive Scans : List (Node Tag) → List (Node Tag) → Multiset Attachment → Prop
  | nil : Scans [] [] 0
  | attach {statements done done' : List (Node Tag)} {attached : Multiset Attachment}
    {placeholder : Tag} {body : Node Tag} (tag : Tag) (id : Nat) :
    Scans statements done attached → Attaches body placeholder done done' →
      Scans (statements ++ [.orElse tag body]) (done' ++ [.leaf ⟨id, tag.span⟩ .noop])
        (attached + {⟨tag, placeholder, ⟨id, tag.span⟩⟩})
  | keep {statements done : List (Node Tag)} {attached : Multiset Attachment}
    {statement : Node Tag} :
    Scans statements done attached →
    (∀ tag body placeholder done', statement = .orElse tag body →
      ¬ Attaches body placeholder done done') →
      Scans (statements ++ [statement]) (done ++ [statement]) attached

mutual

/-- What becomes of a tree from the top down. -/
inductive Joined : Node Tag → Node Tag → Multiset Attachment → Prop
  /-- Statements are scanned before they are looked into. -/
  | statements {node node' : Node Tag} {scanned : List (Node Tag)}
    {attached below : Multiset Attachment} :
    node.hasStatements = true → node'.alone = node.alone →
    Scans node.children scanned attached → JoinedAll scanned node'.children below →
      Joined node node' (attached + below)
  | other {node node' : Node Tag} {below : Multiset Attachment} :
    node.hasStatements = false → node'.alone = node.alone →
    JoinedAll node.children node'.children below → Joined node node' below

/-- The same for several trees. -/
inductive JoinedAll : List (Node Tag) → List (Node Tag) → Multiset Attachment → Prop
  | nil : JoinedAll [] [] 0
  | cons {node node' : Node Tag} {rest rest' : List (Node Tag)}
    {attached more : Multiset Attachment} :
    Joined node node' attached → JoinedAll rest rest' more →
      JoinedAll (node :: rest) (node' :: rest') (attached + more)

end

/-- Statements among which there is nothing to attach. -/
def Settled (statements : List (Node Tag)) : Prop :=
  ∀ (before after : List (Node Tag)) (tag : Tag) (body : Node Tag),
    statements = before ++ .orElse tag body :: after →
      ∀ placeholder before', ¬ Attaches body placeholder before before'

variable {body node node' : Node Tag} {placeholder : Tag}
variable {statements scanned done done' nodes nodes' : List (Node Tag)}
variable {attached : Multiset Attachment}

section Accounting

/-! Nothing is lost but the alternative and the unit that it replaces. -/

theorem Closes.ownParts_eq (closes : Closes body placeholder node node') :
    ownParts [node'] + {.leaf placeholder .unit} = ownParts [node] + ownParts [body] := by
  induction closes with
  | here tag pred yes =>
    rw [ownParts_node, ownParts_node (.branch tag pred yes _)]
    simp only [Node.children, Node.alone]
    rw [ownParts_cons pred [yes, body], ownParts_cons yes [body],
      ownParts_cons pred [yes, .leaf placeholder .unit],
      ownParts_cons yes [.leaf placeholder .unit], ownParts_node (.leaf placeholder .unit)]
    simp only [Node.children, Node.alone, show ownParts [] = 0 from rfl]
    abel
  | @deeper tag pred yes no no' _ ih =>
    rw [ownParts_node, ownParts_node (.branch tag pred yes no)]
    simp only [Node.children, Node.alone]
    rw [ownParts_cons pred [yes, no'], ownParts_cons yes [no'], ownParts_cons pred [yes, no],
      ownParts_cons yes [no]]
    calc _ = {.branch tag (.leaf tag .unit) (.leaf tag .unit) (.leaf tag .unit)} +
          (ownParts [pred] + ownParts [yes] + (ownParts [no'] + {.leaf placeholder .unit})) := by
            abel
      _ = _ := by
        rw [ih]
        abel

theorem Attaches.ownParts_eq (attaches : Attaches body placeholder done done') :
    ownParts done' + {.leaf placeholder .unit} = ownParts done + ownParts [body] := by
  obtain ⟨before, noops, target, target', _, _, closes⟩ := attaches
  rw [ownParts_append, ownParts_append, ownParts_cons target', ownParts_cons target]
  calc ownParts before + (ownParts [target'] + ownParts noops) + {.leaf placeholder .unit}
      = ownParts before + ownParts noops + (ownParts [target'] + {.leaf placeholder .unit}) := by
        abel
    _ = _ := by
      rw [closes.ownParts_eq]
      abel

theorem Scans.ownParts_eq (scans : Scans statements scanned attached) :
    ownParts scanned + attached.bind Attachment.lost =
      ownParts statements + attached.map Attachment.gained := by
  induction scans with
  | nil => rfl
  | @attach statements done done' attached placeholder body tag id _ attaches ih =>
    rw [ownParts_append, ownParts_append, Multiset.add_bind, Multiset.map_add,
      ownParts_node (.leaf _ _), ownParts_node (.orElse tag body)]
    simp only [Node.children, Node.alone, Multiset.singleton_bind, Multiset.map_singleton,
      Attachment.lost, Attachment.gained, show ownParts [] = 0 from rfl]
    calc _ = (ownParts done' + {.leaf placeholder .unit}) + attached.bind Attachment.lost +
          ({.leaf ⟨id, tag.span⟩ .noop} + {.orElse tag (.leaf tag .unit)}) := by abel
      _ = (ownParts done + attached.bind Attachment.lost) + ownParts [body] +
          ({.leaf ⟨id, tag.span⟩ .noop} + {.orElse tag (.leaf tag .unit)}) := by
        rw [attaches.ownParts_eq]
        abel
      _ = _ := by
        rw [ih]
        abel
  | @keep statements done attached statement _ _ ih =>
    rw [ownParts_append, ownParts_append]
    calc _ = (ownParts done + attached.bind Attachment.lost) + ownParts [statement] := by abel
      _ = _ := by
        rw [ih]
        abel

mutual

theorem Joined.ownParts_eq : ∀ {node node' : Node Tag} {attached : Multiset Attachment},
    Joined node node' attached →
      ownParts [node'] + attached.bind Attachment.lost =
        ownParts [node] + attached.map Attachment.gained
  | _, _, _, @Joined.statements node node' scanned attached below _ own scans joined => by
    rw [ownParts_node node', ownParts_node node, own, Multiset.add_bind, Multiset.map_add]
    calc _ = {node.alone} + (ownParts node'.children + below.bind Attachment.lost) +
          attached.bind Attachment.lost := by abel
      _ = {node.alone} + (ownParts scanned + attached.bind Attachment.lost) +
          below.map Attachment.gained := by
        rw [joined.ownParts_eq]
        abel
      _ = _ := by
        rw [scans.ownParts_eq]
        abel
  | node, node', _, .other _ own joined => by
    rw [ownParts_node node', ownParts_node node, own, add_assoc, joined.ownParts_eq, add_assoc]

theorem JoinedAll.ownParts_eq : ∀ {nodes nodes' : List (Node Tag)} {attached : Multiset Attachment},
    JoinedAll nodes nodes' attached →
      ownParts nodes' + attached.bind Attachment.lost =
        ownParts nodes + attached.map Attachment.gained
  | _, _, _, .nil => rfl
  | _, _, _, @JoinedAll.cons node node' rest rest' attached more joined joinedRest => by
    rw [ownParts_cons node', ownParts_cons node, Multiset.add_bind, Multiset.map_add]
    calc _ = (ownParts [node'] + attached.bind Attachment.lost) +
          (ownParts rest' + more.bind Attachment.lost) := by abel
      _ = _ := by
        rw [joined.ownParts_eq, joinedRest.ownParts_eq]
        abel

end

end Accounting

section Lists

/-! Every statement list is still there, as long as it was. -/

theorem Attaches.length_eq (attaches : Attaches body placeholder done done') :
    done'.length = done.length := by
  obtain ⟨before, noops, target, target', _, _, _⟩ := attaches
  simp

theorem Scans.length_eq (scans : Scans statements scanned attached) :
    scanned.length = statements.length := by
  induction scans with
  | nil => rfl
  | attach _ _ _ attaches ih => simp [attaches.length_eq, ih]
  | keep _ _ ih => simp [ih]

theorem JoinedAll.length_eq : ∀ {nodes nodes' : List (Node Tag)} {attached : Multiset Attachment},
    JoinedAll nodes nodes' attached → nodes'.length = nodes.length
  | _, _, _, .nil => rfl
  | _, _, _, .cons _ joinedRest => congrArg (· + 1) joinedRest.length_eq

/-- A statement list among the nodes of some trees. -/
def IsList (nodes : List (Node Tag)) (list : Node Tag) : Prop :=
  list ∈ preorderAll nodes ∧ list.hasStatements = true

theorem isList_append {first second : List (Node Tag)} {list : Node Tag} :
    IsList (first ++ second) list ↔ IsList first list ∨ IsList second list := by
  simp [IsList, preorderAll_append, or_and_right]

theorem isList_cons (node : Node Tag) {rest : List (Node Tag)} {list : Node Tag} :
    IsList (node :: rest) list ↔ IsList [node] list ∨ IsList rest list := by
  rw [← List.singleton_append, isList_append]

theorem isList_node {list : Node Tag} :
    IsList [node] list ↔ list = node ∧ node.hasStatements = true ∨ IsList node.children list := by
  simp only [IsList, preorderAll, List.append_nil, preorder_eq node, List.mem_cons]
  constructor
  · rintro ⟨rfl | inside, isList⟩
    · exact .inl ⟨rfl, isList⟩
    · exact .inr ⟨inside, isList⟩
  · rintro (⟨rfl, isList⟩ | ⟨inside, isList⟩)
    · exact ⟨.inl rfl, isList⟩
    · exact ⟨.inr inside, isList⟩

theorem isList_branch {tag : Tag} {pred yes no list : Node Tag} :
    IsList [.branch tag pred yes no] list ↔
      IsList [pred] list ∨ IsList [yes] list ∨ IsList [no] list := by
  rw [isList_node, Node.children, isList_cons pred, isList_cons yes]
  simp [Node.hasStatements]

theorem not_isList_leaf {tag : Tag} {kind : Leaf} {list : Node Tag} :
    ¬ IsList [.leaf tag kind] list := by
  rw [isList_node]
  simp [Node.hasStatements, Node.children, IsList, preorderAll]

/-- Closing a chain moves statement lists and changes none of them. -/
theorem Closes.isList_iff (closes : Closes body placeholder node node') (list : Node Tag) :
    IsList [node'] list ↔ IsList [node] list ∨ IsList [body] list := by
  induction closes with
  | here tag pred yes =>
    simp only [isList_branch, not_isList_leaf, or_false, or_assoc]
  | deeper tag pred yes _ ih =>
    simp only [isList_branch, ih, or_assoc]

theorem Attaches.isList_iff (attaches : Attaches body placeholder done done') (list : Node Tag) :
    IsList done' list ↔ IsList done list ∨ IsList [body] list := by
  obtain ⟨before, noops, target, target', _, _, closes⟩ := attaches
  rw [isList_append, isList_append, isList_cons target', isList_cons target,
    closes.isList_iff]
  tauto

theorem isList_orElse {tag : Tag} {list : Node Tag} :
    IsList [.orElse tag body] list ↔ IsList [body] list := by
  rw [isList_node]
  simp [Node.hasStatements, Node.children]

theorem Scans.isList_iff (scans : Scans statements scanned attached) (list : Node Tag) :
    IsList scanned list ↔ IsList statements list := by
  induction scans with
  | nil => rfl
  | attach _ _ _ attaches ih =>
    simp only [isList_append, attaches.isList_iff, ih, not_isList_leaf, isList_orElse, or_false]
  | keep _ _ ih => simp only [isList_append, ih]

mutual

theorem Joined.isList : ∀ {node node' : Node Tag} {attached : Multiset Attachment},
    Joined node node' attached → ∀ list, IsList [node] list →
      ∃ list', IsList [node'] list' ∧ list'.alone = list.alone ∧
        list'.children.length = list.children.length
  | node, node', _, .statements isStatements own scans joined, list, isList => by
    have sameKind : node'.hasStatements = true := by
      rw [← Node.hasStatements_alone, own, Node.hasStatements_alone, isStatements]
    rcases isList_node.mp isList with ⟨rfl, _⟩ | below
    · exact ⟨node', isList_node.mpr (.inl ⟨rfl, sameKind⟩), own,
        joined.length_eq.trans scans.length_eq⟩
    · obtain ⟨list', isList', same⟩ := joined.isList list ((scans.isList_iff list).mpr below)
      exact ⟨list', isList_node.mpr (.inr isList'), same⟩
  | node, node', _, .other isStatements _ joined, list, isList => by
    rcases isList_node.mp isList with ⟨rfl, impossible⟩ | below
    · rw [isStatements] at impossible
      cases impossible
    · obtain ⟨list', isList', same⟩ := joined.isList list below
      exact ⟨list', isList_node.mpr (.inr isList'), same⟩

theorem JoinedAll.isList : ∀ {nodes nodes' : List (Node Tag)} {attached : Multiset Attachment},
    JoinedAll nodes nodes' attached → ∀ list, IsList nodes list →
      ∃ list', IsList nodes' list' ∧ list'.alone = list.alone ∧
        list'.children.length = list.children.length
  | _, _, _, .nil, list, isList => absurd isList.1 List.not_mem_nil
  | _, _, _, .cons joined joinedRest, list, isList => by
    rcases (isList_cons _).mp isList with first | later
    · obtain ⟨list', isList', same⟩ := joined.isList list first
      exact ⟨list', (isList_cons _).mpr (.inl isList'), same⟩
    · obtain ⟨list', isList', same⟩ := joinedRest.isList list later
      exact ⟨list', (isList_cons _).mpr (.inr isList'), same⟩

end

end Lists

section Settling

/-! What has been scanned is settled: no alternative in it has anywhere to go. -/

theorem settled_nil : Settled [] := by
  intro before after tag body split
  cases before <;> cases split

theorem Settled.concat {statement : Node Tag} (settled : Settled statements)
    (stays : ∀ tag body placeholder before', statement = .orElse tag body →
      ¬ Attaches body placeholder statements before') : Settled (statements ++ [statement]) := by
  intro before after tag body split placeholder before' attaches
  rcases List.append_eq_append_iff.mp split with ⟨more, rfl, same⟩ | ⟨more, rfl, same⟩
  · rcases more with _ | ⟨first, more⟩
    · cases same
      rw [List.append_nil] at attaches
      exact stays tag body placeholder before' rfl attaches
    · cases more <;> cases same
  · rcases more with _ | ⟨first, more⟩
    · cases same
      rw [List.append_nil] at stays
      exact stays tag body placeholder before' rfl attaches
    · cases same
      exact settled before more tag body rfl placeholder before' attaches

/-- What closes a chain is put below a branch, so no alternative comes to stand in the list. -/
theorem Attaches.settled (attaches : Attaches body placeholder done done')
    (settled : Settled done) : Settled done' := by
  obtain ⟨before, noops, target, target', _, areNoops, closes⟩ := attaches
  intro front after tag alternative split placeholder' front' found
  rcases List.append_eq_append_iff.mp split with ⟨more, rfl, same⟩ | ⟨more, rfl, same⟩
  · rcases more with _ | ⟨first, more⟩
    · cases same
      cases closes
    · obtain ⟨rfl, rfl⟩ := List.cons.inj same
      cases areNoops (.orElse tag alternative) (List.mem_append_right _ (.head _))
  · rcases more with _ | ⟨first, more⟩
    · cases same
      cases closes
    · obtain ⟨rfl, rfl⟩ := List.cons.inj same
      exact settled front (more ++ target :: noops) tag alternative (by simp) placeholder' front'
        found

theorem Scans.settled (scans : Scans statements scanned attached) : Settled scanned := by
  induction scans with
  | nil => exact settled_nil
  | attach _ _ _ attaches ih => exact (attaches.settled ih).concat nofun
  | keep _ stays ih => exact ih.concat stays

end Settling

end Alternatives

end ScriptVM
