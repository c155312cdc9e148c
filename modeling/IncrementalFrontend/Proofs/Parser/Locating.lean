import Mathlib.Data.List.Flatten
import IncrementalFrontend.Proofs.Parser.Commenting
import IncrementalFrontend.Proofs.Parser.Reporting

/-!
Locations in a tree. A node is located within each node that refers to it, and the comments in a list
stand in the order of the text. Where nothing is reported, so do the other entries, and comments are
located within the owner of their list.
-/
namespace IncrementalFrontend

def PlacedNode.StartsBefore (earlier later : PlacedNode) : Prop :=
  earlier.location.first.IsBefore later.location.first

namespace SyntaxTree

variable (tree : SyntaxTree)

def lists : List (List NodeId) :=
  tree.topLevel :: tree.nodes.toList.map (·.node.members)

def placed (list : List NodeId) : List PlacedNode :=
  list.filterMap (tree.nodes[·]?)

variable {tree}

theorem mem_lists {list : List NodeId} : list ∈ tree.lists ↔
    list = tree.topLevel ∨ ∃ placed ∈ tree.nodes, placed.node.members = list := by
  simp [lists]

/-- A list in the order in which its nodes were made keeps what holds of all nodes in that order. -/
theorem pairwise_placed {r : PlacedNode → PlacedNode → Prop} (pairs : tree.nodes.toList.Pairwise r)
    {list : List Nat} (ordered : list.Pairwise (· < ·)) : (tree.placed list).Pairwise r := by
  refine List.pairwise_filterMap.mpr (ordered.imp fun less earlier here later there => ?_)
  obtain ⟨inside, rfl⟩ := Array.getElem?_eq_some_iff.mp here
  obtain ⟨inside', rfl⟩ := Array.getElem?_eq_some_iff.mp there
  exact List.pairwise_iff_getElem.mp pairs _ _ inside inside' less

end SyntaxTree

namespace Parser

variable {source : Source} {start before inside mid stop after : State} {list : BraceList}
  {entries more : List NodeId} {earlier later : Nat} {log : List Event} {part : Part}
  {outcome : Except ParseError Unit}

/-- Unless one of the nodes is a comment, the first one stands on tokens in front of the other. -/
def State.StandsBefore (source : Source) (state : State) (earlier later : NodeId) : Prop :=
  ∀ first second, state.builder.nodes[earlier]? = some first →
    state.builder.nodes[later]? = some second →
    first.node.isComment = false → second.node.isComment = false →
    ∃ i j k l, i < k ∧ k < state.cursor.position ∧ first.location = state.place source i j ∧
      second.location = state.place source k l

theorem State.Extends.standsBefore (extends_ : before.Extends after)
    (old : earlier < before.builder.nodes.size) (old' : later < before.builder.nodes.size)
    (stands : before.StandsBefore source earlier later) : after.StandsBefore source earlier later := by
  intro first second here there plain plain'
  rw [extends_.getElem?_eq old] at here
  rw [extends_.getElem?_eq old'] at there
  obtain ⟨i, j, k, l, less, inside, location, location'⟩ := stands first second here there plain plain'
  rw [extends_.place_eq]
  exact ⟨i, j, k, l, less, Nat.lt_of_lt_of_le inside extends_.position, location, location'⟩

/-- What was made first stands in front of what was made then. -/
theorem State.Fits.standsBefore (first : before.Fits source mid) (second : mid.Fits source after)
    (new : before.builder.nodes.size ≤ earlier) (old : earlier < mid.builder.nodes.size)
    (new' : mid.builder.nodes.size ≤ later) : after.StandsBefore source earlier later := by
  intro a b here there plain plain'
  rw [second.getElem?_eq old] at here
  obtain ⟨i, j, -, le, most, covers⟩ := first.within earlier a new here plain
  obtain ⟨k, l, least, le', most', covers'⟩ := second.within later b new' there plain'
  exact ⟨i, j, k, l, by omega, by omega, (second.covers old covers).location, covers'.location⟩

structure State.Queues (source : Source) (before : State) (entries : List NodeId) (after : State) :
    Prop extends State.Grows source before entries after where
  queued : entries.Pairwise (after.StandsBefore source)

theorem State.Grows.queues (grows : before.Grows source entries after) (few : entries.length ≤ 1) :
    before.Queues source entries after :=
  ⟨grows, pairwise_of_length_le_one few⟩

theorem State.Notes.queues {comments : List Comment} (notes : before.Notes source comments after) :
    before.Queues source (List.range' before.builder.nodes.size comments.length) after := by
  refine ⟨notes.grows, notes.grows.ordered.imp_of_mem fun member _ _ first _ here _ plain => ?_⟩
  obtain ⟨comment, -, rfl⟩ := notes.exists_comment (notes.grows.made _ member).1 here
  cases plain

theorem State.Queues.trans (first : before.Queues source entries mid)
    (second : mid.Queues source more after) : before.Queues source (entries ++ more) after where
  toGrows := first.toGrows.trans second.toGrows
  queued := by
    refine List.pairwise_append.mpr ⟨?_, second.queued, fun earlier member later member' => ?_⟩
    · exact first.queued.imp_of_mem fun member member' => second.fits.toExtends.standsBefore
        (first.made _ member).2 (first.made _ member').2
    · obtain ⟨new, old⟩ := first.made earlier member
      exact first.fits.standsBefore second.fits new old (second.made later member').1

def Event.IsWell : Event → Prop
  | .began _ => True
  | .failed .. => False
  | .enclosed _ _ stop _ => stop.cursor.kind = .symbol .braceClose

theorem Runs.queues (runs : Runs source part before log outcome after)
    (well : ∀ event ∈ log, event.IsWell) : ∃ entries, before.Queues source entries after := by
  induction runs with
  | plain fresh bare ran =>
    obtain ⟨entries, few, grows⟩ := State.Grows.of_enters (enters_of_bare bare ran).2
    exact ⟨entries, grows.queues few⟩
  -- a failed statement would leave entries that start where its erroneous node starts
  | failed fresh bare ran recovers =>
    exact (well _ (List.mem_cons_of_mem _ (List.mem_singleton_self _))).elim
  | broken fresh comes members recovers ih =>
    exact (well _ (List.mem_append_right _ (List.mem_singleton_self _))).elim
  -- whatever is in the list, the statement around it is one entry
  | enclosed fresh comes members finishes ih =>
    exact ⟨_, (members.completes comes finishes).grows.queues (Nat.le_refl _)⟩
  | element fresh ran =>
    obtain ⟨last, -, enters, ended⟩ := enumElement_ran ran
    obtain ⟨entries, few, grows⟩ := State.Grows.of_enters enters
    rcases ended with rfl | rfl
    · exact ⟨entries, grows.queues few⟩
    · exact ⟨_, (grows.queues few).trans (notes_flush source last).queues⟩
  | @done before scope ends => exact ⟨_, (notes_flush source before).queues⟩
  | @more before mid after scope log rest outcome further first others ih ih' =>
    obtain ⟨well, well'⟩ := List.forall_mem_append.mp well
    obtain ⟨entries, queues⟩ := ih well
    obtain ⟨more, queues'⟩ := ih' well'
    exact ⟨_, ((notes_flush source before).queues.trans queues).trans queues'⟩
  | @stop before after scope log error further first ih =>
    obtain ⟨entries, queues⟩ := ih well
    exact ⟨_, (notes_flush source before).queues.trans queues⟩

/-- A list that began without entries queues those that were made since then. -/
theorem Runs.queues_innermost {scope : Scope}
    (runs : Runs source (.all scope) before log outcome after)
    (empty : before.builder.innermost = []) (well : ∀ event ∈ log, event.IsWell) :
    before.Queues source after.builder.innermost after := by
  obtain ⟨entries, queues⟩ := runs.queues well
  have inner : after.builder.innermost = entries := by rw [queues.lists.inner, empty, List.nil_append]
  rwa [inner]

/-- The closing brace of a list is the last token of its statement. -/
theorem State.Completes.position (complete : start.Completes source list stop after)
    (closed : stop.cursor.kind = .symbol .braceClose) :
    after.cursor.position = stop.cursor.position + 1 := by
  obtain ⟨cursor, diagnostics, same, -, there⟩ := start.complete_eq source list stop
  rw [State.close_of_closed closed] at there
  rw [complete.adds.cursor, same, there]
  exact Cursor.position_advance (Cursor.isAtEnd_eq_false closed nofun)

end Parser

namespace SourceUnit

open IncrementalFrontend.Parser

variable {unit : SourceUnit} {text : String} {names : Interner} {log : List Event} {last : State}

namespace HasCourse

variable (course : unit.HasCourse text names log last)
include course

/-- The entries of the top level are those of the list that was read last. -/
theorem topLevel_eq : (unit.parse text names).1.tree.topLevel = last.builder.innermost := by
  obtain ⟨entries, grows⟩ := course.runs.grows
  have closed : last.builder.scopes = [] := List.eq_nil_of_length_eq_zero grows.lists.depth_eq
  rw [course.parsed, Builder.innermost, Builder.stack, Builder.tree, closed]
  rfl

/-- Comments apart, a node reaches from one token of the text to another one and covers the nodes it
refers to. -/
theorem exists_covers {id : Nat} {placed : PlacedNode} (here : last.builder.nodes[id]? = some placed)
    (apart : placed.node.isComment = false) : ∃ first final, first ≤ final ∧
      final < last.cursor.position ∧ last.Covers (parserSource text names) first final id placed := by
  obtain ⟨entries, grows⟩ := course.runs.grows
  obtain ⟨first, final, -, le, most, covers⟩ := grows.fits.within id placed (Nat.zero_le _) here apart
  exact ⟨first, final, le, most, covers⟩

/-- A node is located where a span of the text is that ends with a token or a comment. -/
theorem exists_span {placed : PlacedNode} (member : placed ∈ last.builder.nodes) :
    ∃ span, placed.location = (LineIndex.ofText text).location unit.path span ∧
      span.start < span.stop ∧ ∃ final ∈ (TokenList.ofText text names).1.spans,
        span.stop = final.stop := by
  have tokens := TokenList.standsWithin_ofText text names
  cases kind : placed.node.isComment with
  | false =>
    obtain ⟨id, here⟩ := Array.mem_iff_getElem?.mp member
    obtain ⟨first, final, le, most, covers⟩ := course.exists_covers here kind
    have bound := course.position
    have inside : final + 1 < (TokenList.ofText text names).1.entries.length := by omega
    refine ⟨_, covers.location.trans (place_eq course.runs.extends_ first final), ?_,
      _, tokens.mem_spans_token inside, ?_⟩ <;> rw [tokens.areOrdered.extent_eq le inside]
    have := tokens.areOrdered.start_le le (by omega)
    have := tokens.areOrdered.filled final inside
    dsimp only
    omega
  | true =>
    have listed : placed ∈ last.comments := List.mem_filter.mpr ⟨member.val, kind⟩
    rw [course.comments_eq] at listed
    obtain ⟨index, -, inside⟩ := List.mem_flatMap.mp listed
    obtain ⟨comment, found, rfl⟩ := List.mem_map.mp inside
    obtain ⟨within, found⟩ := exists_of_mem_commentsAt found
    have spanned := tokens.mem_spans_comment (List.getElem_mem within) found
    exact ⟨comment.span, rfl, (tokens.filled _ spanned).1, comment.span, spanned, rfl⟩

/-- A node is located within each node that refers to it, unless it is a comment. -/
theorem exists_child {placed : PlacedNode} (member : placed ∈ last.builder.nodes) {child : Nat}
    (refers : child ∈ placed.node.children) : ∃ inner, last.builder.nodes[child]? = some inner ∧
      (inner.node.isComment = false → inner.location.IsWithin placed.location) := by
  obtain ⟨id, here⟩ := Array.mem_iff_getElem?.mp member
  have apart : placed.node.isComment = false := by
    cases same : placed.node with
    | comment text style => simp [same, Node.children, Node.parts, Node.members] at refers
    | _ => rfl
  obtain ⟨first, final, le, most, covers⟩ := course.exists_covers here apart
  obtain ⟨less, within⟩ := covers.children child refers
  have found := Array.getElem?_eq_getElem (Nat.lt_trans less (Array.getElem?_eq_some_iff.mp here).1)
  refine ⟨_, found, fun plain => ?_⟩
  obtain ⟨i, j, least, le', latest, location⟩ := within _ found plain
  have bound := course.position
  rw [location, covers.location, place_eq course.runs.extends_, place_eq course.runs.extends_]
  exact (TokenList.areOrdered_ofText text names).isWithin_extent _ _ least le' latest (by omega)

/-- Comments start in the order in which their nodes were made. -/
theorem pairwise_comments : last.comments.Pairwise PlacedNode.StartsBefore := by
  have every : (((List.range (TokenList.ofText text names).1.entries.length).flatMap
      (commentsAt (TokenList.ofText text names).1.entries)).map
        ((parserSource text names).note unit.path)).Pairwise PlacedNode.StartsBefore :=
    List.pairwise_map.mpr <| (TokenList.areOrdered_ofText text names).pairwise_comments.imp
      fun less => (LineIndex.ofText text).isBefore_location less
  rw [List.map_flatMap] at every
  rw [course.comments_eq]
  exact every.sublist (List.filter_sublist.flatMap _)

/-- An owner comes from the event of its list. -/
theorem exists_enclosed {placed : PlacedNode} (member : placed ∈ last.builder.nodes)
    (owns : placed.node.isOwner) : ∃ start list stop after, .enclosed start list stop after ∈ log ∧
      placed = ⟨list.node stop.builder.innermost,
        after.place (parserSource text names) start.cursor.position (after.cursor.position - 1)⟩ := by
  obtain ⟨id, here⟩ := Array.mem_iff_getElem?.mp member
  have listed : (placed, id) ∈ placedWhere Node.isOwner (unit.parse text names).1.tree.nodes := by
    rw [course.nodes_eq]
    refine List.mem_filter.mpr ⟨List.mk_mem_zipIdx_iff_getElem?.mpr ?_, owns⟩
    rwa [Array.getElem?_toList]
  rw [course.owners_eq] at listed
  obtain ⟨event, inside, owner⟩ := List.mem_filterMap.mp listed
  cases event with
  | began | failed => cases owner
  | enclosed start list stop after =>
    cases owner
    exact ⟨start, list, stop, after, inside, rfl⟩

/-- A list with entries is what a scope of the course leaves, the text itself or one in braces. -/
theorem exists_scope {list : List NodeId} (member : list ∈ (unit.parse text names).1.tree.lists) :
    list = [] ∨ ∃ scope before inner after, inner ⊆ log ∧ before.builder.innermost = [] ∧
      Runs (parserSource text names) (.all scope) before inner (.ok ()) after ∧
      after.Extends last ∧ list = after.builder.innermost := by
  rcases SyntaxTree.mem_lists.mp member with rfl | ⟨placed, inside, rfl⟩
  · exact .inr ⟨_, _, log, last, List.Subset.refl log, rfl, course.runs, .refl last, course.topLevel_eq⟩
  · rw [course.nodes_eq] at inside
    cases owns : placed.node.isOwner with
    | false => exact .inl (Node.members_eq_nil_of_not_isOwner owns)
    | true =>
      obtain ⟨start, list, stop, after, enclosed, rfl⟩ := course.exists_enclosed inside owns
      obtain ⟨-, -, behind, late⟩ := course.runs.isBetween _ enclosed
      obtain ⟨opened, inner, -, -, part, members, -⟩ := course.runs.exists_members enclosed
      exact .inr ⟨_, _, inner, stop, part, rfl, members, behind.trans late, list.members_node _⟩

/-- Lists are in the order in which their nodes were made. -/
theorem pairwise_list {list : List NodeId} (member : list ∈ (unit.parse text names).1.tree.lists) :
    list.Pairwise (· < ·) := by
  rcases course.exists_scope member with rfl | ⟨_, _, _, _, -, empty, runs, -, rfl⟩
  · exact .nil
  · exact (runs.grows_innermost empty).ordered

/-- If nothing is reported, then nothing is wrong. -/
theorem isWell (silent : (unit.parse text names).1.diagnostics = []) : ∀ event ∈ log, event.IsWell := by
  rw [course.diagnostics_eq, List.append_eq_nil_iff, List.map_eq_nil_iff,
    List.flatMap_eq_nil_iff] at silent
  obtain ⟨lexical, silent⟩ := silent
  intro event member
  have sound := course.runs.isSound (Nat.succ_pos _) event member
  have told := silent event member
  cases event with
  | began start => trivial
  | failed start error failure after =>
    obtain ⟨-, found, -⟩ := sound
    have invalid : failure.cursor.kind = .invalid := by
      by_contra other
      simp [Event.diagnostics, found, other] at told
    -- the lexer would have reported the token in the way
    obtain ⟨first, second, -⟩ := course.runs.isBetween _ member
    obtain ⟨wrong, inside, -⟩ := exists_error (first.trans second) invalid
    rw [lexical] at inside
    cases inside
  | enclosed start list stop after =>
    by_contra unclosed
    have missing : stop.cursor.kind ≠ .symbol .braceClose := unclosed
    simp [Event.diagnostics, missing] at told

/-- If nothing is wrong, then the comments in a list are located within its owner. -/
theorem isWithin_owner (well : ∀ event ∈ log, event.IsWell) {placed : PlacedNode}
    (member : placed ∈ last.builder.nodes) {id : Nat} (entry : id ∈ placed.node.members)
    {inner : PlacedNode} (here : last.builder.nodes[id]? = some inner)
    (isComment : inner.node.isComment) : inner.location.IsWithin placed.location := by
  cases owns : placed.node.isOwner with
  | false =>
    rw [Node.members_eq_nil_of_not_isOwner owns] at entry
    cases entry
  | true =>
    obtain ⟨start, list, stop, after, enclosed, rfl⟩ := course.exists_enclosed member owns
    rw [list.members_node] at entry
    obtain ⟨early, within, behind, late⟩ := course.runs.isBetween _ enclosed
    obtain ⟨inside, log', fresh, comes, part, members, complete⟩ := course.runs.exists_members enclosed
    have older := ((members.grows_innermost rfl).made id entry).2
    rw [(behind.trans late).getElem?_eq older] at here
    obtain ⟨index, least, most, listed⟩ := members.exists_index fresh comes entry here isComment
    rw [(early.trans within).notesAt_eq] at listed
    obtain ⟨comment, found, rfl⟩ := List.mem_map.mp listed
    -- the list ends at its brace, which is the last token of the owner
    have closed := complete.position (well _ enclosed)
    have further := late.position
    have bound := course.position
    have behind_header := start.position_past (parserSource text names)
    rw [place_eq ((early.trans within).trans behind)]
    exact (TokenList.areOrdered_ofText text names).isWithin_comment _ _ found (by omega) (by omega)
      (by omega)

/-- If nothing is wrong, then the entries of a list stand one behind the other, comments apart. -/
theorem pairwise_standsBefore (well : ∀ event ∈ log, event.IsWell) {list : List NodeId}
    (member : list ∈ (unit.parse text names).1.tree.lists) :
    list.Pairwise (last.StandsBefore (parserSource text names)) := by
  rcases course.exists_scope member with rfl | ⟨_, _, _, _, part, empty, runs, extends_, rfl⟩
  · exact .nil
  · have queues := runs.queues_innermost empty fun event here => well event (part here)
    exact queues.queued.imp_of_mem fun first second =>
      extends_.standsBefore (queues.made _ first).2 (queues.made _ second).2

/-- What stands on tokens further on starts later. -/
theorem startsBefore {earlier later : Nat} {first second : PlacedNode}
    (stands : last.StandsBefore (parserSource text names) earlier later)
    (here : last.builder.nodes[earlier]? = some first) (there : last.builder.nodes[later]? = some second)
    (plain : first.node.isComment = false) (plain' : second.node.isComment = false) :
    first.StartsBefore second := by
  obtain ⟨i, j, k, l, less, inside, location, location'⟩ := stands first second here there plain plain'
  have bound := course.position
  rw [PlacedNode.StartsBefore, location, location', place_eq course.runs.extends_,
    place_eq course.runs.extends_]
  exact (TokenList.areOrdered_ofText text names).isBefore_extent _ _ less (by omega)

end HasCourse

variable (unit text names)

/-- Locations nest, and comments start in the order of their lists. If nothing is reported, then also the
other entries do, and comments are located within the owners of their lists. -/
theorem locations_are_ordered :
    let parsed := (unit.parse text names).1
    let tree := parsed.tree
    (∀ placed ∈ tree.nodes, placed.location.first.isAtMost placed.location.last) ∧
    (∀ placed ∈ tree.nodes, ∀ child ∈ placed.node.children, ∃ inner, tree.nodes[child]? = some inner ∧
      (inner.node.isComment = false → inner.location.IsWithin placed.location)) ∧
    (∀ list ∈ tree.lists,
      ((tree.placed list).filter (·.node.isComment)).Pairwise PlacedNode.StartsBefore) ∧
    (parsed.diagnostics = [] →
      (∀ placed ∈ tree.nodes, ∀ id ∈ placed.node.members, ∀ inner, tree.nodes[id]? = some inner →
        inner.node.isComment → inner.location.IsWithin placed.location) ∧
      ∀ list ∈ tree.lists,
        ((tree.placed list).filter (!·.node.isComment)).Pairwise PlacedNode.StartsBefore) := by
  intro parsed tree
  obtain ⟨log, last, course⟩ := unit.exists_course text names
  have nodes : tree.nodes = last.builder.nodes := course.nodes_eq
  simp only [nodes]
  refine ⟨fun placed member => ?_, fun placed member child => course.exists_child member,
    fun list member => ?_, fun silent => ⟨?_, fun list member => ?_⟩⟩
  · obtain ⟨span, same, -⟩ := course.exists_span member
    rw [same]
    exact (LineIndex.ofText text).isAtMost_location unit.path span
  · have pairs := List.pairwise_filter.mp course.pairwise_comments
    rw [← nodes] at pairs
    exact List.pairwise_filter.mpr (SyntaxTree.pairwise_placed pairs (course.pairwise_list member))
  · exact fun placed member id entry inner here =>
      course.isWithin_owner (course.isWell silent) member entry here
  · have stands := course.pairwise_standsBefore (course.isWell silent) member
    refine List.pairwise_filter.mpr (List.pairwise_filterMap.mpr (stands.imp ?_))
    intro earlier later stands first here second there plain plain'
    rw [nodes] at here there
    exact course.startsBefore stands here there (by simpa using plain) (by simpa using plain')

end SourceUnit

end IncrementalFrontend
