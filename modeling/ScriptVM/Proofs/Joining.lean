import ScriptVM.Proofs.Attachments
import ScriptVM.Proofs.Identities

/-!
Attaching alternatives does what it is to do.

Subtrees are joined before the statements they stand in are scanned, while the description looks into
statements after the scan. Both come to the same, since joining a tree neither opens nor closes the
chain of alternatives at its top and makes no noop of it: what can be attached before the statements
have been joined can be attached afterwards, and the other way round.
-/
namespace ScriptVM

open Node (preorder preorderAll preorder_eq)

namespace Alternatives

variable {body body' node node' closed closed' : Node Tag} {tag placeholder : Tag}
variable {statements scanned nodes nodes' done done' before rest : List (Node Tag)}
variable {attached more : Multiset Attachment}

section Order

/-! Scanning joined statements, and joining scanned ones. -/

theorem Joined.alone_eq (joined : Joined node node' attached) : node'.alone = node.alone := by
  cases joined with
  | statements _ own => exact own
  | other _ own => exact own

theorem Joined.isNoop_eq (joined : Joined node node' attached) : node'.isNoop = node.isNoop := by
  rw [← Node.isNoop_alone, joined.alone_eq, Node.isNoop_alone]

/-- The parts of a joined branch. -/
theorem Joined.branch_iff {pred yes no : Node Tag} :
    Joined (.branch tag pred yes no) node' attached ↔
      ∃ pred' yes' no' ofPred ofYes ofNo, node' = .branch tag pred' yes' no' ∧
        attached = ofPred + (ofYes + ofNo) ∧ Joined pred pred' ofPred ∧ Joined yes yes' ofYes ∧
        Joined no no' ofNo := by
  constructor
  · intro joined
    obtain ⟨impossible, _⟩ | ⟨_, own, below⟩ := joined
    · cases impossible
    · cases node' <;> cases own
      obtain _ | ⟨joinedPred, _ | ⟨joinedYes, _ | ⟨joinedNo, _ | _⟩⟩⟩ := below
      exact ⟨_, _, _, _, _, _, rfl, by rw [add_zero], joinedPred, joinedYes, joinedNo⟩
  · rintro ⟨pred', yes', no', ofPred, ofYes, ofNo, rfl, rfl, joinedPred, joinedYes, joinedNo⟩
    refine .other rfl rfl ?_
    rw [← add_zero ofNo]
    exact .cons joinedPred (.cons joinedYes (.cons joinedNo .nil))

/-- A branch is joined to a branch only. -/
theorem Joined.of_branch {pred' yes' no' : Node Tag}
    (joined : Joined node (.branch tag pred' yes' no') attached) :
    ∃ pred yes no, node = .branch tag pred yes no := by
  have own := joined.alone_eq
  cases node <;> cases own
  exact ⟨_, _, _, rfl⟩

/-- A leaf is joined to itself. -/
theorem Joined.leaf_iff {kind : Leaf} :
    Joined (.leaf tag kind) node' attached ↔ node' = .leaf tag kind ∧ attached = 0 := by
  constructor
  · intro joined
    obtain ⟨impossible, _⟩ | ⟨_, own, below⟩ := joined
    · cases impossible
    · cases node' <;> cases own
      cases below
      exact ⟨rfl, rfl⟩
  · rintro ⟨rfl, rfl⟩
    exact .other rfl rfl .nil

theorem Joined.orElse_iff :
    Joined node (.orElse tag body') attached ↔
      ∃ body, node = .orElse tag body ∧ Joined body body' attached := by
  constructor
  · intro joined
    have own := joined.alone_eq
    obtain ⟨isStatements, _⟩ | ⟨_, _, below⟩ := joined
    · cases node <;> cases own
      cases isStatements
    · cases node <;> cases own
      obtain _ | ⟨joinedBody, _ | _⟩ := below
      rw [add_zero]
      exact ⟨_, rfl, joinedBody⟩
  · rintro ⟨body, rfl, joinedBody⟩
    refine .other rfl rfl ?_
    rw [← add_zero attached]
    exact .cons joinedBody .nil

/-- Joining closes no chain. -/
theorem Closes.join (closes : Closes body placeholder node closed)
    (joined : Joined node node' attached) (body' : Node Tag) :
    ∃ closed', Closes body' placeholder node' closed' := by
  induction closes generalizing node' attached with
  | here tag pred yes =>
    obtain ⟨pred', yes', no', _, _, _, rfl, _, _, _, joinedNo⟩ := Joined.branch_iff.mp joined
    obtain ⟨rfl, _⟩ := Joined.leaf_iff.mp joinedNo
    exact ⟨_, .here tag pred' yes'⟩
  | deeper tag pred yes _ ih =>
    obtain ⟨pred', yes', no', _, _, _, rfl, _, _, _, joinedNo⟩ := Joined.branch_iff.mp joined
    obtain ⟨closed', closes'⟩ := ih joinedNo
    exact ⟨_, .deeper tag pred' yes' closes'⟩

/-- Joining opens no chain. Closing a chain and joining come to the same in both orders. -/
theorem Closes.unjoin (closes : Closes body' placeholder node' closed')
    (joined : Joined node node' attached) (joinedBody : Joined body body' more) :
    ∃ closed, Closes body placeholder node closed ∧ Joined closed closed' (attached + more) := by
  induction closes generalizing node attached with
  | here tag pred' yes' =>
    obtain ⟨pred, yes, no, rfl⟩ := joined.of_branch
    obtain ⟨_, _, _, ofPred, ofYes, ofNo, same, rfl, joinedPred, joinedYes, joinedNo⟩ :=
      Joined.branch_iff.mp joined
    cases same
    have own := joinedNo.alone_eq
    cases no <;> cases own
    obtain ⟨_, rfl⟩ := Joined.leaf_iff.mp joinedNo
    refine ⟨_, .here tag pred yes, Joined.branch_iff.mpr
      ⟨pred', yes', body', ofPred, ofYes, more, rfl, ?_, joinedPred, joinedYes, joinedBody⟩⟩
    abel
  | @deeper tag pred' yes' no' closedNo' _ ih =>
    obtain ⟨pred, yes, no, rfl⟩ := joined.of_branch
    obtain ⟨_, _, _, ofPred, ofYes, ofNo, same, rfl, joinedPred, joinedYes, joinedNo⟩ :=
      Joined.branch_iff.mp joined
    cases same
    obtain ⟨closedNo, closes, joinedClosed⟩ := ih joinedNo
    refine ⟨_, .deeper tag pred yes closes, Joined.branch_iff.mpr
      ⟨pred', yes', closedNo', ofPred, ofYes, ofNo + more, rfl, ?_, joinedPred, joinedYes,
        joinedClosed⟩⟩
    abel

theorem JoinedAll.append {first first' second second' : List (Node Tag)}
    {attached more : Multiset Attachment} (joined : JoinedAll first first' attached)
    (joinedMore : JoinedAll second second' more) :
    JoinedAll (first ++ second) (first' ++ second') (attached + more) := by
  induction first generalizing first' attached with
  | nil =>
    cases joined
    rwa [zero_add]
  | cons node rest ih =>
    obtain _ | ⟨joinedNode, joinedRest⟩ := joined
    rw [add_assoc]
    exact .cons joinedNode (ih joinedRest)

/-- What is joined to two lists are two lists. -/
theorem JoinedAll.split {first' second' : List (Node Tag)}
    (joined : JoinedAll nodes (first' ++ second') attached) :
    ∃ first second ofFirst ofSecond, nodes = first ++ second ∧ attached = ofFirst + ofSecond ∧
      JoinedAll first first' ofFirst ∧ JoinedAll second second' ofSecond := by
  induction first' generalizing nodes attached with
  | nil => exact ⟨[], nodes, 0, attached, rfl, (zero_add _).symm, .nil, joined⟩
  | cons node' rest' ih =>
    obtain _ | ⟨joinedNode, joinedRest⟩ := joined
    obtain ⟨first, second, ofFirst, ofSecond, rfl, rfl, joinedFirst, joinedSecond⟩ := ih joinedRest
    exact ⟨_, second, _, ofSecond, rfl, (add_assoc ..).symm, .cons joinedNode joinedFirst,
      joinedSecond⟩

/-- What two lists are joined to are two lists. -/
theorem JoinedAll.split_left {first second : List (Node Tag)}
    (joined : JoinedAll (first ++ second) nodes' attached) :
    ∃ first' second' ofFirst ofSecond, nodes' = first' ++ second' ∧
      JoinedAll first first' ofFirst ∧ JoinedAll second second' ofSecond := by
  induction first generalizing nodes' attached with
  | nil => exact ⟨[], nodes', 0, attached, rfl, .nil, joined⟩
  | cons node rest ih =>
    obtain _ | ⟨joinedNode, joinedRest⟩ := joined
    obtain ⟨first', second', ofFirst, ofSecond, rfl, joinedFirst, joinedSecond⟩ := ih joinedRest
    exact ⟨_, second', _, ofSecond, rfl, .cons joinedNode joinedFirst, joinedSecond⟩

theorem JoinedAll.areNoops_iff (joined : JoinedAll nodes nodes' attached) :
    (∀ noop ∈ nodes', noop.isNoop = true) ↔ ∀ noop ∈ nodes, noop.isNoop = true := by
  induction nodes generalizing nodes' attached with
  | nil =>
    cases joined
    rfl
  | cons node rest ih =>
    obtain _ | ⟨joinedNode, joinedRest⟩ := joined
    simp only [List.forall_mem_cons, joinedNode.isNoop_eq, ih joinedRest]

theorem Attaches.join (attaches : Attaches body placeholder done done')
    (joined : JoinedAll done nodes attached) (body' : Node Tag) :
    ∃ nodes', Attaches body' placeholder nodes nodes' := by
  obtain ⟨before, noops, target, closed, notNoop, areNoops, closes⟩ := attaches
  obtain ⟨before', _, _, _, rfl, _, joinedLater⟩ := joined.split_left
  obtain _ | @⟨_, target', _, noops', _, _, joinedTarget, joinedNoops⟩ := joinedLater
  obtain ⟨closed', closes'⟩ := closes.join joinedTarget body'
  exact ⟨_, .intro before' noops' target' closed' (joinedTarget.isNoop_eq.trans notNoop)
    (joinedNoops.areNoops_iff.mpr areNoops) closes'⟩

theorem Attaches.unjoin (attaches : Attaches body' placeholder nodes nodes')
    (joined : JoinedAll done nodes attached) (joinedBody : Joined body body' more) :
    ∃ done', Attaches body placeholder done done' ∧ JoinedAll done' nodes' (attached + more) := by
  obtain ⟨before', noops', target', closed', notNoop, areNoops, closes'⟩ := attaches
  obtain ⟨before, _, ofBefore, _, rfl, rfl, joinedBefore, joinedLater⟩ := joined.split
  obtain _ | @⟨target, _, noops, _, ofTarget, ofNoops, joinedTarget, joinedNoops⟩ := joinedLater
  obtain ⟨closed, closes, joinedClosed⟩ := closes'.unjoin joinedTarget joinedBody
  refine ⟨_, .intro before noops target closed (joinedTarget.isNoop_eq.symm.trans notNoop)
    (joinedNoops.areNoops_iff.mp areNoops) closes, ?_⟩
  have whole := joinedBefore.append (.cons joinedClosed joinedNoops)
  rwa [show ofBefore + (ofTarget + more + ofNoops) = ofBefore + (ofTarget + ofNoops) + more by abel]
    at whole

/-- A scan of joined statements is a scan of the statements, joined. -/
theorem Scans.unjoin {here : Multiset Attachment} (scans : Scans nodes nodes' here)
    (joined : JoinedAll statements nodes attached) :
    ∃ scanned, Scans statements scanned here ∧ JoinedAll scanned nodes' attached := by
  induction scans generalizing statements attached with
  | nil =>
    cases joined
    exact ⟨[], .nil, .nil⟩
  | @attach nodes done done' here placeholder body' tag id _ attaches ih =>
    obtain ⟨first, _, ofFirst, _, rfl, rfl, joinedFirst, joinedLast⟩ := joined.split
    obtain _ | @⟨last, _, _, _, ofLast, _, joinedLast, _ | _⟩ := joinedLast
    obtain ⟨body, rfl, joinedBody⟩ := Joined.orElse_iff.mp joinedLast
    obtain ⟨scanned, scansFirst, joinedScanned⟩ := ih joinedFirst
    obtain ⟨scanned', attaches', joinedAttached⟩ := attaches.unjoin joinedScanned joinedBody
    refine ⟨_, scansFirst.attach tag id attaches', ?_⟩
    rw [← add_assoc]
    exact joinedAttached.append (.cons (Joined.leaf_iff.mpr ⟨rfl, rfl⟩) .nil)
  | @keep nodes done here node' _ stays ih =>
    obtain ⟨first, _, ofFirst, _, rfl, rfl, joinedFirst, joinedLast⟩ := joined.split
    obtain _ | @⟨last, _, _, _, ofLast, _, joinedLast, _ | _⟩ := joinedLast
    obtain ⟨scanned, scansFirst, joinedScanned⟩ := ih joinedFirst
    refine ⟨_, scansFirst.keep ?_, joinedScanned.append (.cons joinedLast .nil)⟩
    rintro tag body placeholder done' rfl attaches
    have own := joinedLast.alone_eq
    cases node' <;> cases own
    obtain ⟨nodes', attaches'⟩ := attaches.join joinedScanned _
    exact stays _ _ _ _ rfl attaches'

end Order

section Scanning

/-! A statement list is scanned as described. -/

theorem closes_of_close (found : close body node = some closed) :
    ∃ placeholder, Closes body placeholder node closed := by
  fun_induction close body node generalizing closed with
  | case1 tag pred yes placeholder =>
    cases found
    exact ⟨placeholder, .here tag pred yes⟩
  | case2 tag pred yes tag' pred' yes' no' ih =>
    obtain ⟨rest, inner, rfl⟩ := Option.map_eq_some_iff.mp found
    obtain ⟨placeholder, closes⟩ := ih inner
    exact ⟨placeholder, .deeper tag pred yes closes⟩
  | case3 => cases found

theorem close_of_closes (closes : Closes body placeholder node closed) :
    close body node = some closed := by
  induction closes with
  | here tag pred yes => rfl
  | deeper tag pred yes inner ih =>
    obtain ⟨tag', pred', yes'⟩ | ⟨tag', pred', yes', _⟩ := inner
    · rfl
    · rw [close, ih]
      rfl

/-- The statements stand latest first in the state, and in source order in the description. -/
theorem attaches_of_closeNearest (found : closeNearest body before = some done) :
    ∃ placeholder, Attaches body placeholder before.reverse done.reverse := by
  induction before generalizing done with
  | nil => cases found
  | cons node before ih =>
    rw [closeNearest] at found
    split at found
    next isNoop =>
      obtain ⟨rest, inner, rfl⟩ := Option.map_eq_some_iff.mp found
      obtain ⟨placeholder, attaches⟩ := ih inner
      refine ⟨placeholder, ?_⟩
      rw [List.reverse_cons, List.reverse_cons]
      generalize before.reverse = first, rest.reverse = first' at attaches
      obtain ⟨front, noops, target, target', notNoop, areNoops, closes⟩ := attaches
      rw [List.append_assoc, List.append_assoc]
      refine .intro front (noops ++ [node]) target target' notNoop ?_ closes
      simpa [or_imp, forall_and, isNoop] using areNoops
    next notNoop =>
      obtain ⟨node', inner, rfl⟩ := Option.map_eq_some_iff.mp found
      obtain ⟨placeholder, closes⟩ := closes_of_close inner
      refine ⟨placeholder, ?_⟩
      rw [List.reverse_cons, List.reverse_cons]
      exact .intro before.reverse [] node node' (Bool.not_eq_true _ ▸ notNoop)
        (List.forall_mem_nil _) closes

theorem closeNearest_append {noops : List (Node Tag)}
    (areNoops : ∀ noop ∈ noops, noop.isNoop = true) (notNoop : node.isNoop = false) :
    closeNearest body (noops ++ node :: before) =
      (close body node).map fun closed => noops ++ closed :: before := by
  induction noops with
  | nil => simp [closeNearest, notNoop]
  | cons noop noops ih =>
    rw [List.forall_mem_cons] at areNoops
    rw [List.cons_append, closeNearest, if_pos areNoops.1, ih areNoops.2, Option.map_map]
    rfl

theorem closeNearest_of_attaches (attaches : Attaches body placeholder before.reverse done) :
    closeNearest body before = some done.reverse := by
  generalize same : before.reverse = first at attaches
  obtain ⟨front, noops, target, target', notNoop, areNoops, closes⟩ := attaches
  obtain rfl : before = noops.reverse ++ target :: front.reverse := by
    rw [← List.reverse_reverse before, same]
    simp
  rw [closeNearest_append (by simpa using areNoops) notNoop, close_of_closes closes]
  simp

/-- What has been scanned is kept in reverse and grows by one statement at a time. A node made for
an attachment from here on is new, so its number is not below the next one. -/
theorem scans_joinAfter_of {here : Multiset Attachment} (rest : List (Node Tag)) (next : Nat)
    (scans : Scans statements before.reverse here) :
    ∃ more, Scans (statements ++ rest) (joinAfter before rest next).1 (here + more) ∧
      ∀ attachment ∈ more, next ≤ attachment.noop.id := by
  induction rest generalizing statements before here next with
  | nil =>
    rw [List.append_nil]
    exact ⟨0, by rwa [add_zero], by simp⟩
  | cons node rest ih =>
    rw [List.append_cons]
    have stay : (∀ tag body placeholder done, node = .orElse tag body →
        ¬ Attaches body placeholder before.reverse done) →
        ∃ more, Scans (statements ++ [node] ++ rest) (joinAfter (node :: before) rest next).1
          (here + more) ∧ ∀ attachment ∈ more, next ≤ attachment.noop.id := by
      intro stays
      refine ih next ?_
      rw [List.reverse_cons]
      exact scans.keep stays
    cases node with
    | orElse tag body =>
      rw [joinAfter]
      cases found : closeNearest body before with
      | none =>
        refine stay ?_
        rintro _ _ placeholder done ⟨⟩ attaches
        cases found.symm.trans (closeNearest_of_attaches attaches)
      | some closed =>
        obtain ⟨placeholder, attaches⟩ := attaches_of_closeNearest found
        have attached := scans.attach tag next attaches
        rw [← List.reverse_cons] at attached
        obtain ⟨more, finished, fresh⟩ := ih (next + 1) attached
        refine ⟨{⟨tag, placeholder, ⟨next, tag.span⟩⟩} + more, ?_, ?_⟩
        · rw [← add_assoc]
          exact finished
        · intro attachment member
          rcases Multiset.mem_add.mp member with same | inMore
          · obtain rfl := Multiset.mem_singleton.mp same
            exact Nat.le_refl next
          · exact Nat.le_of_succ_le (fresh attachment inMore)
    | _ =>
      rw [joinAfter]
      · refine stay ?_
        rintro _ _ _ _ ⟨⟩
      · rintro _ _ ⟨⟩

theorem scans_joinAfter (statements : List (Node Tag)) (next : Nat) :
    ∃ here, Scans statements (joinAfter [] statements next).1 here ∧
      ∀ attachment ∈ here, next ≤ attachment.noop.id := by
  have nothing : Scans [] ([] : List (Node Tag)).reverse 0 := .nil
  obtain ⟨here, scans, fresh⟩ := scans_joinAfter_of statements next nothing
  rw [zero_add] at scans
  exact ⟨here, scans, fresh⟩

end Scanning

section Trees

/-! A tree is joined as described. -/

theorem joinAll_append (first second : List (Node Tag)) (next : Nat) :
    joinAll (first ++ second) next =
      ((joinAll first next).1 ++ (joinAll second (joinAll first next).2).1,
        (joinAll second (joinAll first next).2).2) := by
  induction first generalizing next with
  | nil => rfl
  | cons node rest ih =>
    show (_ :: (joinAll (rest ++ second) _).1, (joinAll (rest ++ second) _).2) = _
    rw [ih]
    rfl

/-- What joining does to a node, by its children. -/
theorem join_by_children (node : Node Tag) (next : Nat) :
    (join node next).1.alone = node.alone ∧
      ((join node next).1.children, (join node next).2) =
        if node.hasStatements then
          joinAfter [] (joinAll node.children next).1 (joinAll node.children next).2
        else joinAll node.children next := by
  cases node with
  | define tag name params body result =>
    refine ⟨rfl, ?_⟩
    rw [Node.children, joinAll_append]
    rfl
  | call tag callee args trailing =>
    rw [Node.children, joinAll_append]
    cases trailing <;> exact ⟨rfl, rfl⟩
  | _ => exact ⟨rfl, rfl⟩

theorem children_join_of_statements (isStatements : node.hasStatements = true) (next : Nat) :
    (join node next).1.children =
      (joinAfter [] (joinAll node.children next).1 (joinAll node.children next).2).1 := by
  have children := (join_by_children node next).2
  rw [if_pos isStatements] at children
  exact congrArg Prod.fst children

theorem children_join_of_other (other : node.hasStatements = false) (next : Nat) :
    (join node next).1.children = (joinAll node.children next).1 := by
  have children := (join_by_children node next).2
  rw [other] at children
  exact congrArg Prod.fst children

theorem joined_joinAll {nodes : List (Node Tag)}
    (joins : ∀ node ∈ nodes, ∀ next, ∃ attached, Joined node (join node next).1 attached ∧
      ∀ attachment ∈ attached, next ≤ attachment.noop.id) (next : Nat) :
    ∃ attached, JoinedAll nodes (joinAll nodes next).1 attached ∧
      ∀ attachment ∈ attached, next ≤ attachment.noop.id := by
  induction nodes generalizing next with
  | nil => exact ⟨0, .nil, by simp⟩
  | cons node rest ih =>
    rw [List.forall_mem_cons] at joins
    obtain ⟨attached, joinedNode, fresh⟩ := joins.1 next
    obtain ⟨more, joinedRest, freshMore⟩ := ih joins.2 (join node next).2
    refine ⟨attached + more, .cons joinedNode joinedRest, ?_⟩
    intro attachment member
    rcases Multiset.mem_add.mp member with first | later
    · exact fresh attachment first
    · exact Nat.le_trans (moved_join node next).le (freshMore attachment later)

theorem joined_join (node : Node Tag) (next : Nat) :
    ∃ attached, Joined node (join node next).1 attached ∧
      ∀ attachment ∈ attached, next ≤ attachment.noop.id := by
  induction node using Node.childInduction generalizing next with
  | step node ih =>
    obtain ⟨below, joinedBelow, freshBelow⟩ := joined_joinAll ih next
    have own := (join_by_children node next).1
    cases kind : node.hasStatements with
    | false =>
      refine ⟨below, .other kind own ?_, freshBelow⟩
      rw [children_join_of_other kind]
      exact joinedBelow
    | true =>
      obtain ⟨here, scans, freshHere⟩ :=
        scans_joinAfter (joinAll node.children next).1 (joinAll node.children next).2
      obtain ⟨scanned, scansFirst, joinedScanned⟩ := scans.unjoin joinedBelow
      refine ⟨here + below, .statements kind own scansFirst ?_, ?_⟩
      · rw [children_join_of_statements kind]
        exact joinedScanned
      · intro attachment member
        rcases Multiset.mem_add.mp member with inHere | inBelow
        · exact Nat.le_trans (moved_joinAll node.children next).le (freshHere attachment inHere)
        · exact freshBelow attachment inBelow

end Trees

section Repetition

/-! Nothing is left to attach. -/

theorem settled_joinAll {nodes : List (Node Tag)}
    (joins : ∀ node ∈ nodes, ∀ next list, IsList [(join node next).1] list → Settled list.children)
    (next : Nat) : ∀ list, IsList (joinAll nodes next).1 list → Settled list.children := by
  induction nodes generalizing next with
  | nil => exact fun list isList => absurd isList.1 List.not_mem_nil
  | cons node rest ih =>
    intro list isList
    rw [List.forall_mem_cons] at joins
    rcases (isList_cons _).mp isList with first | later
    · exact joins.1 next list first
    · exact ih joins.2 _ list later

theorem settled_join (node : Node Tag) (next : Nat) :
    ∀ list, IsList [(join node next).1] list → Settled list.children := by
  induction node using Node.childInduction generalizing next with
  | step node ih =>
    intro list isList
    have below := settled_joinAll ih next
    have sameKind : (join node next).1.hasStatements = node.hasStatements := by
      rw [← Node.hasStatements_alone, (join_by_children node next).1, Node.hasStatements_alone]
    cases kind : node.hasStatements with
    | false =>
      rcases isList_node.mp isList with ⟨_, impossible⟩ | inside
      · rw [sameKind, kind] at impossible
        cases impossible
      · rw [children_join_of_other kind] at inside
        exact below list inside
    | true =>
      obtain ⟨here, scans, _⟩ :=
        scans_joinAfter (joinAll node.children next).1 (joinAll node.children next).2
      rw [← children_join_of_statements kind] at scans
      rcases isList_node.mp isList with ⟨rfl, _⟩ | inside
      · exact scans.settled
      · exact below list ((scans.isList_iff list).mp inside)

theorem joinAfter_of_settled (next : Nat) (settled : Settled (before.reverse ++ rest)) :
    joinAfter before rest next = (before.reverse ++ rest, next) := by
  induction rest generalizing before with
  | nil =>
    rw [List.append_nil]
    rfl
  | cons node rest ih =>
    have stay : joinAfter (node :: before) rest next = (before.reverse ++ node :: rest, next) := by
      have split : (node :: before).reverse ++ rest = before.reverse ++ node :: rest := by simp
      rw [ih (split ▸ settled), split]
    cases node with
    | orElse tag body =>
      rw [joinAfter]
      cases found : closeNearest body before with
      | none => exact stay
      | some closed =>
        obtain ⟨placeholder, attaches⟩ := attaches_of_closeNearest found
        exact absurd attaches (settled _ _ _ _ rfl _ _)
    | _ =>
      rw [joinAfter]
      · exact stay
      · rintro _ _ ⟨⟩

theorem joinAll_of_settled {nodes : List (Node Tag)}
    (joins : ∀ node ∈ nodes, ∀ next, join node next = (node, next)) (next : Nat) :
    joinAll nodes next = (nodes, next) := by
  induction nodes generalizing next with
  | nil => rfl
  | cons node rest ih =>
    rw [List.forall_mem_cons] at joins
    show ((join node next).1 :: (joinAll rest (join node next).2).1,
      (joinAll rest (join node next).2).2) = _
    rw [joins.1, ih joins.2]

theorem isList_of_child {child list : Node Tag} (member : child ∈ node.children)
    (isList : IsList [child] list) : IsList [node] list := by
  refine isList_node.mpr (.inr ⟨?_, isList.2⟩)
  have inside := isList.1
  rw [preorderAll, preorderAll, List.append_nil] at inside
  exact Node.mem_preorderAll.mpr ⟨child, member, inside⟩

/-- A tree whose statement lists are settled stays as it is. -/
theorem join_of_settled (next : Nat)
    (settled : ∀ list, IsList [node] list → Settled list.children) :
    join node next = (node, next) := by
  induction node using Node.childInduction generalizing next with
  | step node ih =>
    have below : joinAll node.children next = (node.children, next) :=
      joinAll_of_settled (fun child member next =>
        ih child member next fun list isList => settled list (isList_of_child member isList)) next
    obtain ⟨own, children⟩ := join_by_children node next
    have same : ((join node next).1.children, (join node next).2) = (node.children, next) := by
      rw [children, below]
      split
      next isStatements =>
        have here := settled node (isList_node.mpr (.inl ⟨rfl, isStatements⟩))
        exact joinAfter_of_settled next here
      next => rfl
    obtain ⟨sameChildren, sameNext⟩ := Prod.mk.inj same
    exact Prod.ext (Node.eq_of_alone own sameChildren) sameNext

end Repetition

end Alternatives

open Alternatives

/-- Where there is nothing to attach, attaching alternatives does nothing. -/
theorem Document.joinAlternatives_of_settled {document : Document}
    (settled : ∀ list, IsList [document.root] list → Settled list.children) :
    document.joinAlternatives = document := by
  show ({ document with
    root := (join document.root document.next).1
    next := (join document.root document.next).2 } : Document) = document
  rw [join_of_settled document.next settled]

/-- Attaching alternatives attaches every one that it can, and loses nothing. Every statement list
is scanned from left to right before the pass looks into its statements, those that it has just moved
included. Statement lists keep their lengths. The tree loses the attached alternatives and the units
that they replace, and gains a noop for each; every other node is reached exactly once, as before.
There is nothing left to attach in any statement list, so doing it again changes nothing. All it asks
of the document is that its nodes are numbered, as they are in the document of a text. -/
theorem Document.joins_alternatives {document : Document} (numbered : document.Numbered) :
    ∃ attached : Multiset Attachment,
      Joined document.root document.joinAlternatives.root attached ∧
      ownParts [document.joinAlternatives.root] + attached.bind Attachment.lost =
        ownParts [document.root] + attached.map Attachment.gained ∧
      (∀ attachment ∈ attached, document.next ≤ attachment.noop.id) ∧
      document.IsTree ∧ (∀ node ∈ document.root.preorder, node.id < document.next) ∧
      document.joinAlternatives.IsTree ∧
      (∀ list ∈ document.root.preorder, list.hasStatements = true →
        ∃ list' ∈ document.joinAlternatives.root.preorder, list'.alone = list.alone ∧
          list'.children.length = list.children.length) ∧
      (∀ list ∈ document.joinAlternatives.root.preorder, list.hasStatements = true →
        Settled list.children) ∧
      document.joinAlternatives.joinAlternatives = document.joinAlternatives := by
  obtain ⟨attached, joined, fresh⟩ := joined_join document.root document.next
  have settled := settled_join document.root document.next
  have inTree : ∀ {root node : Node Tag}, node ∈ root.preorder ↔ node ∈ preorderAll [root] := by
    simp [preorderAll]
  refine ⟨attached, joined, joined.ownParts_eq, fresh, numbered.isTree,
    fun _ member => numbered.lt member, (numbered_joinAlternatives numbered).isTree, ?_, ?_,
    joinAlternatives_of_settled settled⟩
  · intro list member isStatements
    obtain ⟨list', ⟨member', _⟩, same⟩ := joined.isList list ⟨inTree.mp member, isStatements⟩
    exact ⟨list', inTree.mpr member', same⟩
  · intro list member isStatements
    exact settled list ⟨inTree.mp member, isStatements⟩

/-- A chain of alternatives in a block that is itself an alternative. -/
theorem Document.joins_alternatives_of_nested :
    ∃ document attached,
      Document.parse "main" "if 1 \x7b 2 \x7d; else \x7b if 3 \x7b 4 \x7d; else if 5 \x7b 6 \x7d; else \x7b 7 \x7d \x7d" =
        .ok document ∧
      Joined document.root document.joinAlternatives.root attached ∧ attached.card = 3 ∧
      document.joinAlternatives ≠ document ∧
      document.joinAlternatives.joinAlternatives = document.joinAlternatives := by
  have computed : ((Document.parse "main"
      "if 1 \x7b 2 \x7d; else \x7b if 3 \x7b 4 \x7d; else if 5 \x7b 6 \x7d; else \x7b 7 \x7d \x7d").toOption.map
        fun document => (document.root.preorder.length,
          document.joinAlternatives.root.preorder.length)) = some (22, 19) := by
    decide +kernel
  obtain ⟨document, parse, sizes⟩ := Option.map_eq_some_iff.mp computed
  have parse := ok_of_toOption parse
  obtain ⟨attached, joined, balance, _, _, _, _, _, _, again⟩ :=
    joins_alternatives (numbered_parse parse)
  obtain ⟨before, after⟩ := Prod.mk.inj sizes
  have balance := congrArg Multiset.card balance
  simp only [Multiset.card_add, Multiset.card_bind, Multiset.card_map, ownParts, preorderAll,
    List.append_nil, Multiset.coe_card, List.length_map, before, after, Function.comp_def,
    Attachment.lost, Multiset.card_singleton, Multiset.map_const', Multiset.sum_replicate,
    Nat.nsmul_eq_mul] at balance
  refine ⟨document, attached, parse, joined, by omega, fun same => ?_, again⟩
  rw [same, before] at after
  omega

end ScriptVM
