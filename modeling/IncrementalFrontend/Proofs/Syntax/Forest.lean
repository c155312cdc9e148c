import Mathlib.Data.List.Nodup
import IncrementalFrontend.Syntax.Outline

/-!
Syntax trees as forests. If each node is referred to at most once, and by a later node only, then a
walk over the scopes ends and meets each of their members once.
-/
namespace IncrementalFrontend

namespace Node

def parts : Node → List NodeId
  | .enumElement _ init => init.toList
  | .functionDecl function => function.linkageName.toList ++ function.formals ++
      function.returnType.toList ++ function.condition.toList
  | .formal _ _ type init | .variableDecl _ _ _ type init => type.toList ++ init.toList
  | .call callee actuals => callee :: actuals
  | .field receiver _ => [receiver]
  | .operation _ operands => operands
  | .result value => value.toList
  | _ => []

def children (node : Node) : List NodeId :=
  node.parts ++ node.members

/-- Whether the node is recognised as an entry of a list: a comment, a declaration, an element of an
enumeration, a return, a block, or what stands for an entry that was not understood. -/
def isEntry : Node → Bool
  | .comment .. | .moduleDecl .. | .enumDecl .. | .enumElement .. | .functionDecl _
  | .variableDecl .. | .result _ | .block _ | .erroneous => true
  | _ => false

/-- Only entries have scopes. -/
theorem members_eq_nil {node : Node} (inner : node.isEntry = false) : node.members = [] := by
  cases node <;> first | rfl | cases inner

end Node

namespace SyntaxTree

def gathered (tree : SyntaxTree) (fields : Node → List NodeId) : List NodeId :=
  tree.topLevel ++ tree.nodes.toList.flatMap fun placed => fields placed.node

def mentions (tree : SyntaxTree) : List NodeId :=
  tree.gathered Node.children

/-- A tree whose nodes are mentioned at most once and by later nodes, and whose entries are members
of scopes. -/
structure IsForest (tree : SyntaxTree) : Prop where
  inRange (id : Nat) : id ∈ tree.mentions → id < tree.nodes.size
  distinct : tree.mentions.Nodup
  below (parent child : Nat) (node : Node) : tree.node? parent = some node →
    child ∈ node.children → child < parent
  kept (id : Nat) (node : Node) : tree.node? id = some node → node.isEntry →
    id ∈ tree.gathered Node.members

variable {tree : SyntaxTree}

theorem node?_eq_some {id : NodeId} {node : Node} :
    tree.node? id = some node ↔ ∃ placed, tree.nodes.toList[id]? = some placed ∧ placed.node = node := by
  simp [node?]

theorem mem_gathered {fields : Node → List NodeId} {id : NodeId} :
    id ∈ tree.gathered fields ↔
      id ∈ tree.topLevel ∨ ∃ parent node, tree.node? parent = some node ∧ id ∈ fields node := by
  rw [gathered, List.mem_append, List.mem_flatMap]
  refine or_congr_right ⟨?_, ?_⟩
  · rintro ⟨placed, member, inside⟩
    obtain ⟨parent, here⟩ := List.mem_iff_getElem?.mp member
    exact ⟨parent, placed.node, by simp_all [node?], inside⟩
  · rintro ⟨parent, node, here, inside⟩
    obtain ⟨placed, there, rfl⟩ := node?_eq_some.mp here
    exact ⟨placed, List.mem_iff_getElem?.mpr ⟨parent, there⟩, inside⟩

theorem node?_of_lt {id : Nat} (inside : id < tree.nodes.size) :
    ∃ node, tree.node? id = some node := by
  simp [node?, inside]

theorem lt_of_node? {id : Nat} {node : Node} (here : tree.node? id = some node) :
    id < tree.nodes.size := by
  simp only [node?, Option.map_eq_some_iff] at here
  obtain ⟨placed, here, -⟩ := here
  exact (Array.getElem?_eq_some_iff.mp here).1

theorem walkFrom_eq_cons {id : NodeId} {node : Node} (here : tree.node? id = some node)
    (levels depth : Nat) : tree.walkFrom (levels + 1) depth id =
      ⟨id, node, depth⟩ :: node.members.flatMap (tree.walkFrom levels (depth + 1)) := by
  simp [walkFrom, here]

theorem mem_children_of_mem_members {node : Node} {id : NodeId} (member : id ∈ node.members) :
    id ∈ node.children :=
  List.mem_append_right _ member

section

variable (forest : tree.IsForest)
include forest

theorem IsForest.member_lt {parent child : Nat} {node : Node}
    (here : tree.node? parent = some node) (member : child ∈ node.members) : child < parent :=
  forest.below parent child node here (mem_children_of_mem_members member)

theorem IsForest.member_inRange {parent child : Nat} {node : Node}
    (here : tree.node? parent = some node) (member : child ∈ node.members) :
    child < tree.nodes.size :=
  Nat.lt_trans (forest.member_lt here member) (lt_of_node? here)

/-- More levels than the id of a node are never needed. -/
theorem IsForest.walkFrom_eq {levels id : Nat} (inside : id < levels) (depth : Nat) :
    tree.walkFrom levels depth id = tree.walkFrom (id + 1) depth id := by
  induction levels using Nat.strongRecOn generalizing id depth with
  | _ levels ih =>
    obtain ⟨levels, rfl⟩ := Nat.exists_eq_add_one_of_ne_zero (Nat.ne_zero_of_lt inside)
    cases here : tree.node? id with
    | none => simp [walkFrom, here]
    | some node =>
      rw [walkFrom_eq_cons here, walkFrom_eq_cons here]
      congr 1
      refine List.flatMap_congr fun child member => ?_
      have smaller := forest.member_lt here member
      rw [ih levels (Nat.lt_succ_self _) (by omega), ← ih id inside smaller]

theorem IsForest.topLevel_lt {id : Nat} (member : id ∈ tree.topLevel) : id < tree.nodes.size :=
  forest.inRange id (List.mem_append_left _ member)

/-- The bound on the levels of a walk cuts nothing off. -/
theorem IsForest.walk_eq {levels : Nat} (enough : tree.nodes.size ≤ levels) :
    tree.topLevel.flatMap (tree.walkFrom levels 0) = tree.walk := by
  refine List.flatMap_congr fun id member => ?_
  have inside := forest.topLevel_lt member
  rw [forest.walkFrom_eq (Nat.lt_of_lt_of_le inside enough), forest.walkFrom_eq inside]

omit forest in
theorem count_visits (visits : NodeId → List Visit) (ids : List NodeId) (x : NodeId)
    (each : ∀ id ∈ ids, ((visits id).map (·.id)).count x =
      [id].count x + ((visits id).flatMap (·.node.members)).count x) :
    ((ids.flatMap visits).map (·.id)).count x =
      ids.count x + ((ids.flatMap visits).flatMap (·.node.members)).count x := by
  induction ids with
  | nil => rfl
  | cons id rest ih =>
    have first := each id List.mem_cons_self
    have others := ih fun other member => each other (List.mem_cons_of_mem _ member)
    have head : (id :: rest).count x = [id].count x + rest.count x := by
      simp [List.count_cons, Nat.add_comm]
    simp only [List.flatMap_cons, List.map_append, List.flatMap_append, List.count_append] at *
    omega

/-- A node is met for each time it starts a walk or is a member of a node that is met. -/
theorem IsForest.count_walkFrom {levels id : Nat} (inside : id < levels)
    (known : id < tree.nodes.size) (depth : Nat) (x : NodeId) :
    ((tree.walkFrom levels depth id).map (·.id)).count x =
      [id].count x + ((tree.walkFrom levels depth id).flatMap (·.node.members)).count x := by
  induction levels generalizing id depth with
  | zero => exact absurd inside (Nat.not_lt_zero id)
  | succ levels ih =>
    obtain ⟨node, here⟩ := node?_of_lt known
    have within := count_visits (tree.walkFrom levels (depth + 1)) node.members x
      fun child member => by
        have smaller := forest.member_lt here member
        exact ih (by omega) (forest.member_inRange here member) (depth + 1)
    rw [walkFrom_eq_cons here]
    simp only [List.map_cons, List.flatMap_cons, List.count_append, List.count_cons,
      List.count_nil] at *
    omega

theorem IsForest.count_walk (x : NodeId) : (tree.walk.map (·.id)).count x =
    tree.topLevel.count x + (tree.walk.flatMap (·.node.members)).count x := by
  refine count_visits _ _ x fun id member => ?_
  exact forest.count_walkFrom (forest.topLevel_lt member) (forest.topLevel_lt member) 0 x

omit forest in
theorem mem_walkFrom {levels depth : Nat} {id : NodeId} {visit : Visit}
    (member : visit ∈ tree.walkFrom levels depth id) : tree.node? visit.id = some visit.node := by
  induction levels generalizing id depth with
  | zero => simp [walkFrom] at member
  | succ levels ih =>
    cases here : tree.node? id with
    | none => simp [walkFrom, here] at member
    | some node =>
      rw [walkFrom_eq_cons here] at member
      rcases List.mem_cons.mp member with rfl | inner
      · exact here
      · obtain ⟨child, -, inner⟩ := List.mem_flatMap.mp inner
        exact ih inner

omit forest in
/-- What is met on a walk is a node of the tree. -/
theorem mem_walk {visit : Visit} (member : visit ∈ tree.walk) :
    tree.node? visit.id = some visit.node := by
  obtain ⟨id, -, inner⟩ := List.mem_flatMap.mp member
  exact mem_walkFrom inner

omit forest in
/-- If a node is the member of one other only, it is met as often as that one. -/
theorem count_members {x parent : NodeId} {node : Node} (here : tree.node? parent = some node)
    (once : node.members.count x = 1)
    (alone : ∀ other owner, tree.node? other = some owner → x ∈ owner.members → other = parent)
    (visits : List Visit) (known : ∀ visit ∈ visits, tree.node? visit.id = some visit.node) :
    (visits.flatMap (·.node.members)).count x = (visits.map (·.id)).count parent := by
  induction visits with
  | nil => rfl
  | cons visit rest ih =>
    have others := ih fun other member => known other (List.mem_cons_of_mem _ member)
    have first := known visit List.mem_cons_self
    simp only [List.flatMap_cons, List.count_append, List.map_cons, List.count_cons, others]
    by_cases same : visit.id = parent
    · have owner : visit.node = node := Option.some.inj (first.symm.trans (same ▸ here))
      simp [same, owner, once, Nat.add_comm]
    · have absent : x ∉ visit.node.members := fun member => same (alone _ _ first member)
      simp [same, List.count_eq_zero_of_not_mem absent]

omit forest in
theorem count_placed (nodes : List PlacedNode) (fields : Node → List NodeId) {parent : Nat}
    {placed : PlacedNode} (here : nodes[parent]? = some placed) (x : NodeId) :
    (fields placed.node).count x ≤ (nodes.flatMap fun placed => fields placed.node).count x := by
  have inside : placed ∈ nodes := List.mem_iff_getElem?.mpr ⟨parent, here⟩
  obtain ⟨front, back, rfl⟩ := List.append_of_mem inside
  simp only [List.flatMap_append, List.flatMap_cons, List.count_append]
  omega

omit forest in
/-- Two nodes at different places both count. -/
theorem count_placed_both (nodes : List PlacedNode) (fields : Node → List NodeId) {one two : Nat}
    {first second : PlacedNode} (apart : one < two) (here : nodes[one]? = some first)
    (there : nodes[two]? = some second) (x : NodeId) :
    (fields first.node).count x + (fields second.node).count x ≤
      (nodes.flatMap fun placed => fields placed.node).count x := by
  have front : (nodes.take two)[one]? = some first := by simp [apart, here]
  have back : (nodes.drop two)[0]? = some second := by simpa using there
  have split : nodes = nodes.take two ++ nodes.drop two := (List.take_append_drop two nodes).symm
  have inFront := count_placed (nodes.take two) fields front x
  have inBack := count_placed (nodes.drop two) fields back x
  rw [split, List.flatMap_append, List.count_append]
  omega

theorem IsForest.count_mentions_le (x : NodeId) : tree.mentions.count x ≤ 1 :=
  List.nodup_iff_count_le_one.mp forest.distinct x

/-- No two nodes refer to the same one. -/
theorem IsForest.parent_unique {x one two : Nat} {first second : Node}
    (here : tree.node? one = some first) (inFirst : x ∈ first.children)
    (there : tree.node? two = some second) (inSecond : x ∈ second.children) : one = two := by
  obtain ⟨placed, first_here, rfl⟩ := node?_eq_some.mp here
  obtain ⟨placed', second_here, rfl⟩ := node?_eq_some.mp there
  have once := forest.count_mentions_le x
  rw [mentions, gathered, List.count_append] at once
  have count := List.count_pos_iff.mpr inFirst
  have count' := List.count_pos_iff.mpr inSecond
  rcases Nat.lt_trichotomy one two with apart | same | apart
  · have both := count_placed_both _ Node.children apart first_here second_here x
    omega
  · exact same
  · have both := count_placed_both _ Node.children apart second_here first_here x
    omega

/-- What the top level or a scope lists is met once. -/
theorem IsForest.count_walk_eq_one {x : Nat} (listed : x ∈ tree.gathered Node.members) :
    (tree.walk.map (·.id)).count x = 1 := by
  -- a parent has the greater id, so the induction goes down from the last node
  induction left : tree.nodes.size - x using Nat.strongRecOn generalizing x with
  | _ left ih =>
    have once := forest.count_mentions_le x
    rw [mentions, gathered, List.count_append] at once
    rw [forest.count_walk]
    rcases mem_gathered.mp listed with top | ⟨parent, node, here, member⟩
    · have count := List.count_pos_iff.mpr top
      have absent : (tree.walk.flatMap (·.node.members)).count x = 0 := by
        refine List.count_eq_zero.mpr fun inside => ?_
        obtain ⟨visit, met, member⟩ := List.mem_flatMap.mp inside
        obtain ⟨placed, here, same⟩ := node?_eq_some.mp (mem_walk met)
        have counted := count_placed _ Node.children here x
        have positive := List.count_pos_iff.mpr (mem_children_of_mem_members member)
        rw [← same] at positive
        omega
      omega
    · have above := forest.member_lt here member
      have known := lt_of_node? here
      have entry : node.isEntry = true := by
        by_contra inner
        rw [Node.members_eq_nil (Bool.eq_false_iff.mpr inner)] at member
        cases member
      have met : (tree.walk.map (·.id)).count parent = 1 :=
        ih (tree.nodes.size - parent) (by omega) (forest.kept parent node here entry) rfl
      obtain ⟨placed, there, same⟩ := node?_eq_some.mp here
      have counted := count_placed _ Node.children there x
      have positive := List.count_pos_iff.mpr member
      have parts : node.children.count x = node.parts.count x + node.members.count x :=
        List.count_append
      rw [same] at counted
      have single : node.members.count x = 1 := by omega
      have alone (other : NodeId) (owner : Node) (there : tree.node? other = some owner)
          (inside : x ∈ owner.members) : other = parent :=
        forest.parent_unique there (mem_children_of_mem_members inside) here
          (mem_children_of_mem_members member)
      rw [count_members here single alone _ fun _ => mem_walk, met]
      omega

structure IsWalked (tree : SyntaxTree) : Prop where
  ends (levels : Nat) : tree.nodes.size ≤ levels →
    tree.topLevel.flatMap (tree.walkFrom levels 0) = tree.walk
  met (id : Nat) (node : Node) : tree.node? id = some node → node.isEntry →
    (tree.walk.map (·.id)).count id = 1
  printed (id : Nat) (node : Node) : tree.node? id = some node → node.isEntry →
    ∃ above visit below, tree.walk = above ++ visit :: below ∧ visit.id = id ∧ visit.node = node ∧
      id ∉ (above ++ below).map (·.id) ∧
      ∀ names, tree.outline names = String.join (above.map (Visit.line names)) ++
        visit.line names ++ String.join (below.map (Visit.line names))

theorem IsForest.isWalked : tree.IsWalked where
  ends _ enough := forest.walk_eq enough
  met id node here entry := forest.count_walk_eq_one (forest.kept id node here entry)
  printed id node here entry := by
    have once := forest.count_walk_eq_one (forest.kept id node here entry)
    have met : id ∈ tree.walk.map (·.id) := List.count_pos_iff.mp (by omega)
    obtain ⟨visit, inside, rfl⟩ := List.mem_map.mp met
    obtain ⟨above, below, walk⟩ := List.append_of_mem inside
    refine ⟨above, visit, below, walk, rfl, ?_, ?_, fun names => ?_⟩
    · exact Option.some.inj ((mem_walk inside).symm.trans here)
    · rw [walk] at once
      simp only [List.map_append, List.map_cons, List.count_append, List.count_cons_self] at once
      rw [List.map_append, List.mem_append, not_or, ← List.count_eq_zero, ← List.count_eq_zero]
      omega
    · rw [outline, walk]
      simp [String.join_append, String.append_assoc]

end

end SyntaxTree

end IncrementalFrontend
