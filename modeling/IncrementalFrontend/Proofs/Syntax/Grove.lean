import IncrementalFrontend.Proofs.Syntax.Forest
import IncrementalFrontend.Syntax.Builder

/-!
What a builder holds is a forest in the making: besides what the tree mentions there are nodes that a
parser has in hand. Each step of the builder is counted, so a step moves ids or makes a new one.
-/
namespace IncrementalFrontend

namespace Builder

def gathered (builder : Builder) (fields : Node → List NodeId) : List NodeId :=
  builder.topLevel.toList ++ builder.scopes.flatMap Array.toList ++
    builder.nodes.toList.flatMap fun placed => fields placed.node

/-- A forest in the making. Of the nodes in hand, the kept ones will be members of a scope, and the
loose ones are no entries, so that they may be lost. -/
structure Grove (builder : Builder) (loose kept : List NodeId) : Prop where
  once (x : Nat) : (builder.gathered Node.children).count x + loose.count x + kept.count x ≤
    if x < builder.nodes.size then 1 else 0
  below (parent child : Nat) (placed : PlacedNode) : builder.nodes[parent]? = some placed →
    child ∈ placed.node.children → child < parent
  entry (id : Nat) (placed : PlacedNode) : builder.nodes[id]? = some placed → placed.node.isEntry →
    0 < (builder.gathered Node.members).count id + kept.count id

variable {builder before after : Builder} {loose kept loose' kept' : List NodeId}

theorem count_cons_eq (x id : NodeId) (ids : List NodeId) :
    (id :: ids).count x = [id].count x + ids.count x := by
  rw [← List.count_append, List.singleton_append]

section

variable (builder : Builder) (fields : Node → List NodeId) (x : Nat)

@[simp] theorem count_gathered_attach (id : NodeId) : ((builder.attach id).gathered fields).count x =
    (builder.gathered fields).count x + [id].count x := by
  unfold attach gathered
  split
  · simp only [*, Array.toList_push, List.count_append]
    omega
  · simp only [*, Array.toList_push, List.flatMap_cons, List.count_append]
    omega

@[simp] theorem count_gathered_openScope :
    (builder.openScope.gathered fields).count x = (builder.gathered fields).count x := by
  simp [openScope, gathered]

theorem count_gathered_closeScope : (builder.closeScope.2.gathered fields).count x +
    builder.closeScope.1.count x = (builder.gathered fields).count x := by
  unfold closeScope gathered
  split
  · simp [*]
  · simp [*]
    omega

@[simp] theorem count_gathered_store (node : Node) (location : Location) :
    ((builder.store node location).2.gathered fields).count x =
      (builder.gathered fields).count x + (fields node).count x := by
  simp [store, gathered]
  omega

@[simp] theorem nodes_closeScope : builder.closeScope.2.nodes = builder.nodes := by
  unfold closeScope
  split <;> rfl

theorem gathered_foldl_attach (ids : List NodeId) : (ids.foldl attach builder).nodes = builder.nodes ∧
    ((ids.foldl attach builder).gathered fields).count x =
      (builder.gathered fields).count x + ids.count x := by
  induction ids generalizing builder with
  | nil => exact ⟨rfl, rfl⟩
  | cons id rest ih =>
    obtain ⟨nodes, count⟩ := ih (builder.attach id)
    rw [List.foldl_cons, nodes, count, nodes_attach, count_gathered_attach, count_cons_eq x id rest]
    exact ⟨rfl, Nat.add_assoc ..⟩

/-- A scope that is dissolved loses no member. -/
theorem gathered_dissolveScope : builder.dissolveScope.nodes = builder.nodes ∧
    (builder.dissolveScope.gathered fields).count x = (builder.gathered fields).count x := by
  obtain ⟨nodes, count⟩ :=
    gathered_foldl_attach builder.closeScope.2 fields x builder.closeScope.1
  rw [nodes_closeScope] at nodes
  rw [builder.count_gathered_closeScope] at count
  exact ⟨nodes, count⟩

theorem gathered_unwindTo (depth : Nat) : (builder.unwindTo depth).2.nodes = builder.nodes ∧
    ((builder.unwindTo depth).2.gathered fields).count x = (builder.gathered fields).count x := by
  have unwound (surplus : Nat) : (Nat.repeat dissolveScope surplus builder).nodes = builder.nodes ∧
      ((Nat.repeat dissolveScope surplus builder).gathered fields).count x =
        (builder.gathered fields).count x := by
    induction surplus with
    | zero => exact ⟨rfl, rfl⟩
    | succ surplus ih =>
      obtain ⟨nodes, count⟩ :=
        gathered_dissolveScope (Nat.repeat dissolveScope surplus builder) fields x
      exact ⟨nodes.trans ih.1, count.trans ih.2⟩
  exact unwound _

/-- The finished tree holds what the builder held. -/
theorem count_gathered_tree :
    (builder.tree.gathered fields).count x = (builder.gathered fields).count x := by
  have flat (scopes : List (Array NodeId)) (top : List NodeId) :
      (scopes.foldr (fun members kept => kept ++ members.toList) top).count x =
        top.count x + (scopes.flatMap Array.toList).count x := by
    induction scopes with
    | nil => rfl
    | cons members outer ih =>
      rw [List.foldr_cons, List.count_append, ih, List.flatMap_cons, List.count_append]
      omega
  rw [tree, SyntaxTree.gathered, gathered, List.count_append, flat]
  simp only [List.count_append]

end

/-- A step that makes no node may move ids, and may lose loose ones. -/
theorem Grove.move (grove : before.Grove loose kept) (nodes : after.nodes = before.nodes)
    (children : ∀ x, (after.gathered Node.children).count x + loose'.count x + kept'.count x ≤
      (before.gathered Node.children).count x + loose.count x + kept.count x)
    (members : ∀ x, (before.gathered Node.members).count x + kept.count x ≤
      (after.gathered Node.members).count x + kept'.count x) : after.Grove loose' kept' where
  once x := by
    rw [nodes]
    exact Nat.le_trans (children x) (grove.once x)
  below parent child placed here := grove.below parent child placed (nodes ▸ here)
  entry id placed here entry := by
    have held := grove.entry id placed (nodes ▸ here) entry
    have still := members id
    omega

/-- The order of the ids in hand does not matter, and loose ones may be lost. -/
theorem Grove.drop (grove : builder.Grove loose kept)
    (fewer : ∀ x, loose'.count x ≤ loose.count x) : builder.Grove loose' kept :=
  grove.move rfl (fun x => by have := fewer x; omega) fun _ => Nat.le_refl _

theorem Grove.attach {id : NodeId} (grove : builder.Grove (id :: loose) kept) :
    (builder.attach id).Grove loose kept := by
  refine grove.move (nodes_attach ..) (fun x => ?_) fun x => ?_
  · rw [count_gathered_attach, count_cons_eq x id loose]
    omega
  · rw [count_gathered_attach]
    omega

theorem Grove.openScope (grove : builder.Grove loose kept) : builder.openScope.Grove loose kept :=
  grove.move rfl (by simp) (by simp)

theorem Grove.closeScope (grove : builder.Grove loose kept) :
    builder.closeScope.2.Grove loose (builder.closeScope.1 ++ kept) := by
  refine grove.move (nodes_closeScope _) (fun x => ?_) fun x => ?_
  · have count := builder.count_gathered_closeScope Node.children x
    rw [List.count_append]
    omega
  · have count := builder.count_gathered_closeScope Node.members x
    rw [List.count_append]
    omega

theorem Grove.unwindTo (grove : builder.Grove loose kept) (depth : Nat) :
    (builder.unwindTo depth).2.Grove loose kept := by
  refine grove.move (builder.gathered_unwindTo Node.children 0 depth).1 (fun x => ?_) fun x => ?_
  · have same := (builder.gathered_unwindTo Node.children x depth).2
    omega
  · have same := (builder.gathered_unwindTo Node.members x depth).2
    omega

theorem Grove.report (grove : builder.Grove loose kept) (diagnostic : Diagnostic) :
    (builder.report diagnostic).Grove loose kept :=
  grove.move rfl (fun _ => Nat.le_refl _) fun _ => Nat.le_refl _

/-- The nodes with one more at the end. -/
theorem getElem?_store {node : Node} {location : Location} {id : Nat} {placed : PlacedNode}
    (here : (builder.store node location).2.nodes[id]? = some placed) :
    builder.nodes[id]? = some placed ∨ id = builder.nodes.size ∧ placed.node = node := by
  rw [store, Array.getElem?_push] at here
  split at here
  · cases here
    exact .inr ⟨‹_›, rfl⟩
  · exact .inl here

/-- A new node takes its children, and is in hand. -/
theorem Grove.make {node : Node} (grove : builder.Grove (node.parts ++ loose) (node.members ++ kept))
    (location : Location) :
    (builder.store node location).2.Grove loose (builder.nodes.size :: kept) where
  once x := by
    have once := grove.once x
    have size : (builder.store node location).2.nodes.size = builder.nodes.size + 1 :=
      Array.size_push _
    have fresh : [builder.nodes.size].count x = if x = builder.nodes.size then 1 else 0 := by
      by_cases same : x = builder.nodes.size
      · simp [same]
      · simp [same, Ne.symm same]
    rw [count_gathered_store, count_cons_eq x builder.nodes.size kept, fresh, size, Node.children]
    simp only [List.count_append] at once ⊢
    split at once <;> split <;> split <;> omega
  below parent child placed here inside := by
    rcases getElem?_store here with old | ⟨rfl, rfl⟩
    · exact grove.below parent child placed old inside
    · have once := grove.once child
      have positive := List.count_pos_iff.mpr inside
      rw [Node.children] at positive
      simp only [List.count_append] at once positive
      split at once <;> omega
  entry id placed here entry := by
    rw [count_gathered_store, count_cons_eq id builder.nodes.size kept]
    rcases getElem?_store here with old | ⟨rfl, -⟩
    · have held := grove.entry id placed old entry
      rw [List.count_append] at held
      omega
    · rw [List.count_singleton_self]
      omega

/-- A new node that is no entry may be lost. -/
theorem Grove.store {node : Node} (grove : builder.Grove (node.children ++ loose) kept)
    (inner : node.isEntry = false) (location : Location) :
    (builder.store node location).2.Grove (builder.nodes.size :: loose) kept := by
  have made : (builder.store node location).2.Grove loose (builder.nodes.size :: kept) := by
    refine Grove.make ?_ location
    rw [Node.children, Node.members_eq_nil inner, List.append_nil] at grove
    rwa [Node.members_eq_nil inner, List.nil_append]
  refine ⟨fun x => ?_, made.below, fun id placed here entry => ?_⟩
  · have once := made.once x
    rw [count_cons_eq x builder.nodes.size] at once ⊢
    omega
  · have held := made.entry id placed here entry
    have old : id ≠ builder.nodes.size := by
      rintro rfl
      rcases getElem?_store here with old | ⟨-, rfl⟩
      · simp at old
      · cases inner.symm.trans entry
    rwa [List.count_cons_of_ne old.symm] at held

/-- A new entry takes its children, and is listed. -/
theorem Grove.add {node : Node} (grove : builder.Grove (node.parts ++ loose) (node.members ++ kept))
    (location : Location) : (builder.add node location).2.Grove loose kept := by
  refine (grove.make location).move (nodes_attach ..) (fun x => ?_) fun x => ?_
  · rw [count_cons_eq x builder.nodes.size kept]
    simp only [Builder.add, count_gathered_attach, Builder.store]
    omega
  · rw [count_cons_eq x builder.nodes.size kept]
    simp only [Builder.add, count_gathered_attach, Builder.store]
    omega

theorem grove_ofUnit (unit : SourceUnit) (diagnostics : Array Diagnostic) :
    Grove { ofUnit unit with diagnostics } [] [] :=
  ⟨fun _ => Nat.zero_le _, by simp [ofUnit], by simp [ofUnit]⟩

/-- With nothing in hand, the finished tree is a forest. -/
theorem Grove.isForest (grove : builder.Grove [] []) : builder.tree.IsForest where
  inRange id member := by
    have once := grove.once id
    have positive := List.count_pos_iff.mpr member
    rw [SyntaxTree.mentions, count_gathered_tree] at positive
    split at once
    · assumption
    · simp at once
      omega
  distinct := by
    refine List.nodup_iff_count_le_one.mpr fun x => ?_
    have once := grove.once x
    rw [SyntaxTree.mentions, count_gathered_tree]
    split at once <;> simp at once <;> omega
  below parent child node here inside := by
    obtain ⟨placed, there, rfl⟩ := SyntaxTree.node?_eq_some.mp here
    exact grove.below parent child placed (by simpa [tree] using there) inside
  kept id node here entry := by
    obtain ⟨placed, there, rfl⟩ := SyntaxTree.node?_eq_some.mp here
    have held := grove.entry id placed (by simpa [tree] using there) entry
    refine List.count_pos_iff.mp ?_
    rwa [count_gathered_tree]

end Builder

end IncrementalFrontend
