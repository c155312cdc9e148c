import Mathlib.Data.List.Basic
import Mathlib.Data.List.Perm.Basic
import IncrementalFrontend.Syntax.Builder

/-!
What becomes of attached nodes. Through any events a node attached to a builder stays a member of
one list, and the lists keep the order in which their members were attached: the scopes split this
order among them, the outermost first, and unwinding only takes back some of the splits.
-/
namespace IncrementalFrontend

namespace Builder

inductive Event where
  | openScope
  | closeScope
  | store (node : Node) (location : Location)
  | add (node : Node) (location : Location)
  | comment (text : Name) (style : CommentStyle) (location : Location)
  | attach (id : NodeId)
  | unwindTo (depth : Nat)
  | report (diagnostic : Diagnostic)

/-- A builder and what its events did so far: the ids that were attached and the nodes that were
stored under an id, in the order of time, and the lists that closing scopes handed over. -/
structure Assembly where
  builder : Builder
  attached : List NodeId
  stored : List (NodeId × PlacedNode)
  returned : List (List NodeId)

namespace Assembly

def ofUnit (unit : SourceUnit) : Assembly :=
  ⟨.ofUnit unit, [], [], []⟩

def add (assembly : Assembly) (node : Node) (location : Location) : Assembly :=
  let (id, builder) := assembly.builder.add node location
  { assembly with
    builder
    attached := assembly.attached ++ [id]
    stored := assembly.stored ++ [(id, ⟨node, location⟩)] }

def step (assembly : Assembly) : Event → Assembly
  | .openScope => { assembly with builder := assembly.builder.openScope }
  | .closeScope =>
    let (members, builder) := assembly.builder.closeScope
    { assembly with builder, returned := assembly.returned ++ [members] }
  | .store node location =>
    let (id, builder) := assembly.builder.store node location
    { assembly with builder, stored := assembly.stored ++ [(id, ⟨node, location⟩)] }
  | .add node location => assembly.add node location
  | .comment text style location => assembly.add (.comment text style) location
  | .attach id =>
    { assembly with builder := assembly.builder.attach id, attached := assembly.attached ++ [id] }
  | .unwindTo depth => { assembly with builder := (assembly.builder.unwindTo depth).2 }
  | .report diagnostic => { assembly with builder := assembly.builder.report diagnostic }

def run (unit : SourceUnit) (events : List Event) : Assembly :=
  events.foldl step (ofUnit unit)

end Assembly

def memberLists (builder : Builder) : List (List NodeId) :=
  builder.scopes.map Array.toList ++ [builder.topLevel.toList]

def inwards {α : Type} (lists : List (List α)) : List α :=
  lists.reverse.flatten

def joinFirst {α : Type} : List (List α) → List (List α)
  | inner :: outer :: rest => (outer ++ inner) :: rest
  | lists => lists

section JoinFirst

variable {α β : Type}

theorem map_joinFirst (f : α → β) (lists : List (List α)) :
    (joinFirst lists).map (List.map f) = joinFirst (lists.map (List.map f)) := by
  unfold joinFirst
  rcases lists with _ | ⟨inner, _ | ⟨outer, rest⟩⟩ <;> simp

theorem inwards_cons (first : List α) (rest : List (List α)) :
    inwards (first :: rest) = inwards rest ++ first := by
  simp [inwards]

theorem inwards_joinFirst (lists : List (List α)) : inwards (joinFirst lists) = inwards lists := by
  rcases lists with _ | ⟨inner, _ | ⟨outer, rest⟩⟩ <;> simp [joinFirst, inwards]

theorem inwards_map (f : α → β) (lists : List (List α)) :
    inwards (lists.map (List.map f)) = (inwards lists).map f := by
  simp [inwards, List.map_flatten]

theorem repeat_joinFirst {count : Nat} {lists : List (List α)} (fits : count < lists.length) :
    Nat.repeat joinFirst count lists =
      inwards (lists.take (count + 1)) :: lists.drop (count + 1) := by
  induction count with
  | zero =>
    obtain ⟨inner, rest, rfl⟩ := List.exists_cons_of_length_pos fits
    simp [Nat.repeat, inwards]
  | succ count ih =>
    have next : lists.drop (count + 1) = lists[count + 1] :: lists.drop (count + 2) :=
      List.drop_eq_getElem_cons fits
    have taken : lists.take (count + 1 + 1) = lists.take (count + 1) ++ [lists[count + 1]] :=
      List.take_succ_eq_append_getElem fits
    rw [Nat.repeat, ih (by omega), next, joinFirst, taken, inwards, inwards, List.reverse_append]
    rfl

end JoinFirst

variable {builder : Builder}

theorem memberLists_openScope (builder : Builder) :
    builder.openScope.memberLists = [] :: builder.memberLists :=
  rfl

theorem memberLists_attach (builder : Builder) (id : NodeId) :
    (builder.attach id).memberLists = builder.memberLists.modifyHead (· ++ [id]) := by
  unfold attach memberLists
  cases same : builder.scopes <;> simp

/-- Closing hands over the innermost scope, or nothing if only the top level is left. -/
theorem memberLists_closeScope (builder : Builder) :
    builder.memberLists = builder.closeScope.1 :: builder.closeScope.2.memberLists ∨
      builder.closeScope = ([], builder) := by
  unfold closeScope memberLists
  cases same : builder.scopes <;> simp

theorem memberLists_dissolveScope (builder : Builder) :
    builder.dissolveScope.memberLists = joinFirst builder.memberLists := by
  have all (members : List NodeId) (builder : Builder) :
      (members.foldl attach builder).memberLists = builder.memberLists.modifyHead (· ++ members) := by
    induction members generalizing builder with
    | nil => cases lists : builder.memberLists <;> simp [lists]
    | cons id rest ih => simp [ih, memberLists_attach, Function.comp_def]
  rw [dissolveScope, all]
  unfold closeScope memberLists
  rcases same : builder.scopes with _ | ⟨inner, _ | ⟨outer, rest⟩⟩ <;> simp [joinFirst, same]

theorem length_memberLists (builder : Builder) : builder.memberLists.length = builder.depth + 1 := by
  simp [memberLists, depth]

theorem memberLists_repeat (count : Nat) (builder : Builder) :
    (Nat.repeat dissolveScope count builder).memberLists =
      Nat.repeat joinFirst count builder.memberLists := by
  induction count with
  | zero => rfl
  | succ count ih => rw [Nat.repeat, memberLists_dissolveScope, ih]; rfl

/-- Unwinding moves the members of the scopes it ends behind those of the scope around them, the
outermost first. -/
theorem memberLists_unwindTo (builder : Builder) (depth : Nat) :
    (builder.unwindTo depth).2.memberLists =
      inwards (builder.memberLists.take (builder.depth - depth + 1)) ::
        builder.memberLists.drop (builder.depth - depth + 1) := by
  rw [unwindTo, memberLists_repeat]
  exact repeat_joinFirst (by rw [length_memberLists]; omega)

/-- The finished tree lists what is in the lists from the outside inwards. -/
theorem tree_eq (builder : Builder) :
    builder.tree = ⟨builder.unit, builder.nodes, inwards builder.memberLists⟩ := by
  have kept (scopes : List (Array NodeId)) :
      scopes.foldr (fun members kept => kept ++ members.toList) builder.topLevel.toList =
        inwards (scopes.map Array.toList ++ [builder.topLevel.toList]) := by
    induction scopes with
    | nil => simp [inwards]
    | cons members outer ih => rw [List.foldr_cons, ih, List.map_cons, List.cons_append, inwards_cons]
  rw [tree, kept, memberLists]

/-- Dissolving scopes moves ids only. -/
theorem dissolveScope_keeps (builder : Builder) :
    builder.dissolveScope.unit = builder.unit ∧ builder.dissolveScope.nodes = builder.nodes := by
  have attached (builder : Builder) (id : NodeId) : (builder.attach id).unit = builder.unit := by
    unfold attach
    split <;> rfl
  have all (members : List NodeId) (builder : Builder) :
      (members.foldl attach builder).unit = builder.unit ∧
        (members.foldl attach builder).nodes = builder.nodes := by
    induction members generalizing builder with
    | nil => exact ⟨rfl, rfl⟩
    | cons id rest ih => simp [ih, attached]
  have closed : builder.closeScope.2.unit = builder.unit ∧
      builder.closeScope.2.nodes = builder.nodes := by
    unfold closeScope
    split <;> exact ⟨rfl, rfl⟩
  exact ⟨(all _ _).1.trans closed.1, (all _ _).2.trans closed.2⟩

theorem unwindTo_keeps (builder : Builder) (depth : Nat) :
    (builder.unwindTo depth).2.unit = builder.unit ∧
      (builder.unwindTo depth).2.nodes = builder.nodes := by
  have all (count : Nat) : (Nat.repeat dissolveScope count builder).unit = builder.unit ∧
      (Nat.repeat dissolveScope count builder).nodes = builder.nodes := by
    induction count with
    | zero => exact ⟨rfl, rfl⟩
    | succ count ih =>
      have once := dissolveScope_keeps (Nat.repeat dissolveScope count builder)
      exact ⟨once.1.trans ih.1, once.2.trans ih.2⟩
  exact all _

/-- Folding the scopes that are still open gives what unwinding all of them does. -/
theorem tree_unwindTo (builder : Builder) (depth : Nat) :
    (builder.unwindTo depth).2.tree = builder.tree := by
  have kept := builder.unwindTo_keeps depth
  rw [tree_eq, tree_eq, kept.1, kept.2, memberLists_unwindTo, inwards_cons, inwards, inwards,
    ← List.flatten_append, ← List.reverse_append, List.take_append_drop]
  rfl

namespace Assembly

/-- Ids with the times at which they were attached, listed as the builder and those who closed
scopes have them. All attachments are there, and times ascend in each list and from the outside
inwards. -/
structure IsOrdered (assembly : Assembly) (lists handed : List (List (NodeId × Nat))) : Prop where
  members : assembly.builder.memberLists = lists.map (List.map Prod.fst)
  returned : assembly.returned = handed.map (List.map Prod.fst)
  all : (inwards lists ++ handed.flatten).Perm assembly.attached.zipIdx
  ascending : (inwards lists).Pairwise (·.2 < ·.2)
  each (list : List (NodeId × Nat)) : list ∈ handed → list.Pairwise (·.2 < ·.2)

variable {before after : Assembly} {lists handed : List (List (NodeId × Nat))} {id : NodeId}

theorem IsOrdered.time_lt (ordered : before.IsOrdered lists handed) {entry : NodeId × Nat}
    (member : entry ∈ inwards lists) : entry.2 < before.attached.length := by
  have entry := List.mem_zipIdx (ordered.all.subset (List.mem_append_left _ member))
  omega

theorem IsOrdered.keep (ordered : before.IsOrdered lists handed)
    (members : after.builder.memberLists = before.builder.memberLists)
    (attached : after.attached = before.attached) (same : after.returned = before.returned) :
    after.IsOrdered lists handed where
  members := members.trans ordered.members
  returned := same.trans ordered.returned
  all := attached ▸ ordered.all
  ascending := ordered.ascending
  each := ordered.each

/-- An attached id is the last one in time, and goes behind all members of the innermost list. -/
theorem IsOrdered.attach (ordered : before.IsOrdered lists handed)
    (members : after.builder.memberLists = before.builder.memberLists.modifyHead (· ++ [id]))
    (attached : after.attached = before.attached ++ [id]) (same : after.returned = before.returned) :
    ∃ lists, after.IsOrdered lists handed := by
  cases lists with
  | nil => exact absurd ordered.members (by simp [memberLists])
  | cons inner outer =>
    have longer : inwards ((inner ++ [(id, before.attached.length)]) :: outer) =
        inwards (inner :: outer) ++ [(id, before.attached.length)] := by
      rw [inwards_cons, inwards_cons, List.append_assoc]
    refine ⟨(inner ++ [(id, before.attached.length)]) :: outer, ?_, same.trans ordered.returned,
      ?_, ?_, ordered.each⟩
    · rw [members, ordered.members]
      simp
    · have last : after.attached.zipIdx =
          before.attached.zipIdx ++ [(id, before.attached.length)] := by
        rw [attached, List.zipIdx_append]
        simp
      rw [longer, last, List.append_assoc]
      exact (List.perm_append_comm.append_left _).trans
        (List.append_assoc .. ▸ ordered.all.append_right _)
    · rw [longer, List.pairwise_append]
      refine ⟨ordered.ascending, List.pairwise_singleton _ _, fun entry member last here => ?_⟩
      rw [List.mem_singleton.mp here]
      exact ordered.time_lt member

/-- Unwinding keeps the order in which members stand from the outside inwards. -/
theorem IsOrdered.unwindTo (ordered : before.IsOrdered lists handed) (depth : Nat) :
    ∃ lists, (before.step (.unwindTo depth)).IsOrdered lists handed := by
  have joined (count : Nat) : ∃ lists', inwards lists' = inwards lists ∧
      (Nat.repeat dissolveScope count before.builder).memberLists = lists'.map (List.map Prod.fst) := by
    induction count with
    | zero => exact ⟨lists, rfl, ordered.members⟩
    | succ count ih =>
      obtain ⟨lists', same, members⟩ := ih
      refine ⟨joinFirst lists', (inwards_joinFirst _).trans same, ?_⟩
      rw [map_joinFirst, ← members]
      exact memberLists_dissolveScope _
  obtain ⟨lists', same, members⟩ := joined (before.builder.depth - depth)
  exact ⟨lists', members, ordered.returned, same ▸ ordered.all, same ▸ ordered.ascending, ordered.each⟩

/-- A scope that is closed is the innermost one, and its members are the last in time. -/
theorem IsOrdered.closeScope (ordered : before.IsOrdered lists handed) :
    ∃ lists handed, (before.step .closeScope).IsOrdered lists handed := by
  rcases memberLists_closeScope before.builder with split | none
  · cases lists with
    | nil => exact absurd ordered.members (by simp [memberLists])
    | cons inner outer =>
      rw [ordered.members, List.map_cons, List.cons.injEq] at split
      have ascending := ordered.ascending
      rw [inwards_cons, List.pairwise_append] at ascending
      refine ⟨outer, handed ++ [inner], split.2.symm, ?_, ?_, ascending.1, fun list member => ?_⟩
      · rw [List.map_append, ← ordered.returned, List.map_singleton, split.1]
        rfl
      · refine .trans ?_ ordered.all
        rw [inwards_cons, List.append_assoc, List.flatten_append, List.flatten_singleton]
        exact List.perm_append_comm.append_left _
      · rcases List.mem_append.mp member with older | new
        · exact ordered.each list older
        · exact List.mem_singleton.mp new ▸ ascending.2.1
  · refine ⟨lists, handed ++ [[]], ?_, ?_, ?_, ordered.ascending, fun list member => ?_⟩
    · simp [step, none, ordered.members]
    · simp [step, none, ordered.returned]
    · simpa [step] using ordered.all
    · rcases List.mem_append.mp member with older | new
      · exact ordered.each list older
      · exact List.mem_singleton.mp new ▸ .nil

theorem IsOrdered.step (ordered : before.IsOrdered lists handed) (event : Event) :
    ∃ lists handed, (before.step event).IsOrdered lists handed := by
  have kept {after : Assembly} (found : ∃ lists, after.IsOrdered lists handed) :
      ∃ lists handed, after.IsOrdered lists handed :=
    found.imp fun _ ordered => ⟨handed, ordered⟩
  cases event with
  | openScope =>
    refine ⟨[] :: lists, handed, ?_, ordered.returned, ?_, ?_, ordered.each⟩
    · exact (memberLists_openScope _).trans (congrArg _ ordered.members)
    · rw [inwards_cons, List.append_nil]
      exact ordered.all
    · rw [inwards_cons, List.append_nil]
      exact ordered.ascending
  | closeScope => exact ordered.closeScope
  | store | report => exact ⟨lists, handed, ordered.keep rfl rfl rfl⟩
  | add node location => exact kept (ordered.attach (memberLists_attach _ _) rfl rfl)
  | comment text style location => exact kept (ordered.attach (memberLists_attach _ _) rfl rfl)
  | attach id => exact kept (ordered.attach (memberLists_attach _ _) rfl rfl)
  | unwindTo depth => exact kept (ordered.unwindTo depth)

def IsStored (assembly : Assembly) : Prop :=
  assembly.stored = assembly.builder.nodes.toList.zipIdx.map Prod.swap

theorem IsStored.push {node : Node} {location : Location} (stored : before.IsStored)
    (nodes : after.builder.nodes = before.builder.nodes.push ⟨node, location⟩)
    (same : after.stored = before.stored ++ [(before.builder.nodes.size, ⟨node, location⟩)]) :
    after.IsStored := by
  rw [IsStored, same, stored, nodes]
  simp [List.zipIdx_append]

theorem IsStored.step (stored : before.IsStored) (event : Event) : (before.step event).IsStored := by
  have kept {after : Assembly} (nodes : after.builder.nodes = before.builder.nodes)
      (same : after.stored = before.stored) : after.IsStored := by
    rw [IsStored, same, stored, nodes]
  cases event with
  | openScope | report => exact kept rfl rfl
  | closeScope =>
    refine kept ?_ rfl
    simp only [Assembly.step, Builder.closeScope]
    split <;> rfl
  | store node location => exact stored.push rfl rfl
  | add node location => exact stored.push (nodes_attach _ _) rfl
  | comment text style location => exact stored.push (nodes_attach _ _) rfl
  | attach id => exact kept (nodes_attach _ _) rfl
  | unwindTo depth => exact kept (unwindTo_keeps _ depth).2 rfl

theorem isOrdered_ofUnit (unit : SourceUnit) : (ofUnit unit).IsOrdered [[]] [] :=
  ⟨rfl, rfl, .nil, .nil, fun _ member => absurd member List.not_mem_nil⟩

/-- Whatever happens to a builder, it ends with its lists in order and the nodes at their ids. -/
theorem run_spec (unit : SourceUnit) (events : List Event) :
    (∃ lists handed, (run unit events).IsOrdered lists handed) ∧ (run unit events).IsStored := by
  have steps (events : List Event) : ∀ before : Assembly,
      (∃ lists handed, before.IsOrdered lists handed) ∧ before.IsStored →
        (∃ lists handed, (events.foldl Assembly.step before).IsOrdered lists handed) ∧
          (events.foldl Assembly.step before).IsStored := by
    induction events with
    | nil => exact fun _ holds => holds
    | cons event rest ih =>
      rintro before ⟨⟨lists, handed, ordered⟩, stored⟩
      exact ih _ ⟨ordered.step event, stored.step event⟩
  exact steps events _ ⟨⟨_, _, isOrdered_ofUnit unit⟩, rfl⟩

/-- No attached id is lost or doubled. After any events the attached ids are, with multiplicity, those
in the lists and those handed over; tagged with their times they ascend in each list and from the
outside inwards; each scope that is unwound follows the members around it; nodes are stored at their
ids; and unwinding all scopes does not change the tree. -/
theorem attached_are_conserved (unit : SourceUnit) (events : List Event) :
    let assembly := run unit events
    let builder := assembly.builder
    (inwards builder.memberLists ++ assembly.returned.flatten).Perm assembly.attached ∧
    (∃ lists handed, assembly.IsOrdered lists handed) ∧
    (∀ depth, (builder.unwindTo depth).1 = builder.depth - depth ∧
      (builder.unwindTo depth).2.memberLists =
        inwards (builder.memberLists.take (builder.depth - depth + 1)) ::
          builder.memberLists.drop (builder.depth - depth + 1)) ∧
    (assembly.stored.map Prod.fst = List.range builder.tree.nodes.size ∧
      assembly.stored.map Prod.snd = builder.tree.nodes.toList) ∧
    (builder.unwindTo 0).2.tree = builder.tree := by
  intro assembly builder
  obtain ⟨⟨lists, handed, ordered⟩, stored⟩ := run_spec unit events
  refine ⟨?_, ⟨lists, handed, ordered⟩, fun depth => ⟨rfl, builder.memberLists_unwindTo depth⟩,
    ⟨?_, ?_⟩, builder.tree_unwindTo 0⟩
  · have all := ordered.all.map Prod.fst
    rwa [List.map_append, ← inwards_map, ← ordered.members, List.map_flatten, ← ordered.returned,
      List.zipIdx_map_fst] at all
  · rw [stored, List.map_map, List.range_eq_range', ← Array.length_toList]
    exact List.zipIdx_map_snd ..
  · rw [stored, List.map_map]
    exact List.zipIdx_map_fst ..

end Assembly

end Builder

end IncrementalFrontend
