import IncrementalFrontend.Proofs.Parser.Growth

/-!
Comments of a text. Each becomes one node, in the order of the text, except those in the header of a
function, which are dropped as soon as the header is read.
-/
namespace IncrementalFrontend

namespace Parser

variable {source : Source} {start before inside mid stop failure after last : State}
  {list : BraceList} {error : ParseError} {log rest : List Event} {part : Part}
  {outcome : Except ParseError Unit}

def Event.drops (source : Source) (index : Nat) : Event → Bool
  | .began start => (start.header? source).any fun header =>
    start.cursor.position < index && index ≤ header.cursor.position
  | _ => false

def isDropped (source : Source) (log : List Event) (index : Nat) : Bool :=
  log.any (·.drops source index)

def keptBetween (source : Source) (log : List Event) (first last : Nat) : List Nat :=
  (indicesBetween first last).filter fun index => !isDropped source log index

theorem isDropped_append (source : Source) (log rest : List Event) (index : Nat) :
    isDropped source (log ++ rest) index = (isDropped source log index || isDropped source rest index) :=
  List.any_append

namespace State

def comments (state : State) : List PlacedNode :=
  state.builder.nodes.toList.filter (·.node.isComment)

def notesAt (source : Source) (state : State) (index : Nat) : List PlacedNode :=
  (commentsAt state.cursor.entries index).map (source.note state.builder.path)

def delivered (source : Source) (state : State) : List PlacedNode :=
  state.comments ++ state.cursor.waiting.map (source.note state.builder.path)

/-- Between two states comments came into reach, and each was delivered or dropped. -/
structure Delivers (source : Source) (before : State) (log : List Event) (after : State) : Prop where
  extends_ : before.Extends after
  dropped : ∀ index, isDropped source log index →
    before.cursor.position < index ∧ index ≤ after.cursor.position
  delivered : after.delivered source = before.delivered source ++
    (keptBetween source log before.cursor.position after.cursor.position).flatMap (before.notesAt source)

theorem Extends.notesAt_eq (extends_ : before.Extends after) :
    after.notesAt source = before.notesAt source := by
  funext index
  rw [notesAt, notesAt, extends_.tokens, Builder.path, Builder.path, extends_.unit]

/-- No node of a comment was made. -/
theorem Extends.comments_eq (extends_ : before.Extends after)
    (others : ∀ (id : Nat) placed, before.builder.nodes.size ≤ id →
      after.builder.nodes[id]? = some placed → placed.node.isComment = false) :
    after.comments = before.comments := by
  obtain ⟨new, same⟩ := extends_.nodes
  rw [comments, ← same, List.filter_append, comments]
  refine (congrArg _ (List.filter_eq_nil_iff.mpr fun placed member => ?_)).trans (List.append_nil _)
  obtain ⟨place, inside, rfl⟩ := List.getElem_of_mem member
  have here : after.builder.nodes[before.builder.nodes.size + place]? = some new[place] := by
    rw [← Array.getElem?_toList, ← same, List.getElem?_append_right (by simp)]
    simp
  simp [others _ _ (Nat.le_add_right _ _) here]

theorem Delivers.trans (first : before.Delivers source log mid) (second : mid.Delivers source rest after) :
    before.Delivers source (log ++ rest) after where
  extends_ := first.extends_.trans second.extends_
  dropped index here := by
    have early := first.extends_.position
    have late := second.extends_.position
    rw [isDropped_append, Bool.or_eq_true] at here
    rcases here with here | here
    · have := first.dropped index here
      omega
    · have := second.dropped index here
      omega
  delivered := by
    have kept : keptBetween source (log ++ rest) before.cursor.position after.cursor.position =
        keptBetween source log before.cursor.position mid.cursor.position ++
          keptBetween source rest mid.cursor.position after.cursor.position := by
      rw [keptBetween, ← indicesBetween_append first.extends_.position second.extends_.position,
        List.filter_append]
      congr 1
      · refine List.filter_congr fun index member => ?_
        obtain ⟨-, most⟩ := mem_indicesBetween.mp member
        have other : isDropped source rest index = false :=
          Bool.eq_false_iff.mpr fun here => by
            have := (second.dropped index here).1
            omega
        rw [isDropped_append, other, Bool.or_false]
      · refine List.filter_congr fun index member => ?_
        obtain ⟨least, -⟩ := mem_indicesBetween.mp member
        have other : isDropped source log index = false :=
          Bool.eq_false_iff.mpr fun here => by
            have := (first.dropped index here).2
            omega
        rw [isDropped_append, other, Bool.false_or]
    rw [second.delivered, first.delivered, first.extends_.notesAt_eq, kept, List.flatMap_append,
      List.append_assoc]

/-- Only tokens were consumed, and other nodes than comments made. -/
theorem Delivers.of_walks (walks : before.cursor.Walks after.cursor) (extends_ : before.Extends after)
    (same : after.comments = before.comments) (none : ∀ index, isDropped source log index = false) :
    before.Delivers source log after where
  extends_ := extends_
  dropped index here := absurd here (Bool.eq_false_iff.mp (none index))
  delivered := by
    have kept : keptBetween source log before.cursor.position after.cursor.position =
        indicesBetween before.cursor.position after.cursor.position :=
      List.filter_eq_self.mpr fun index _ => by simp [none]
    have path : after.builder.path = before.builder.path := congrArg SourceUnit.path extends_.unit
    rw [State.delivered, same, walks.waiting_eq, kept, path, List.map_append, List.map_flatMap,
      State.delivered, List.append_assoc]
    rfl

theorem delivers_flush (source : Source) (before : State) :
    before.Delivers source [] (before.flush source) := by
  have notes := notes_flush source before
  refine ⟨notes.grows.fits.toExtends, nofun, ?_⟩
  have comments : (before.flush source).comments = before.delivered source := by
    rw [State.comments, notes.nodes, List.filter_append, delivered, State.comments]
    congr 1
    exact List.filter_eq_self.mpr fun placed member => by
      obtain ⟨comment, -, rfl⟩ := List.mem_map.mp member
      rfl
  have waiting : (before.flush source).cursor.waiting = [] := rfl
  have stays : (before.flush source).cursor.position = before.cursor.position := rfl
  rw [delivered, comments, waiting, stays, keptBetween, indicesBetween_self]
  rfl

end State

theorem drafts_headerBehind (visibility : Visibility) :
    Drafts (headerBehind visibility) fun function => (Node.functionDecl function).parts := by
  refine fun source base => .read onlyReads_kind fun kind => ?_
  split
  all_goals first
    | exact drafts_functionHeader visibility source base
    | exact .read onlyReads_current fun _ => .throw _

theorem walks_header {header : State} (here : start.header? source = some header) :
    start.cursor.Walks header.cursor := by
  obtain ⟨visibility, mid, read, walks, -, -⟩ := visibility_apply source start
  rw [State.header?, State.after?, Parser.header, bind_of_ok read] at here
  cases ran : headerBehind visibility source mid with
  | none => simp [ran] at here
  | some result =>
    obtain ⟨error | function, ended⟩ := result
    · simp [ran] at here
    · obtain rfl : ended = header := by simpa [ran] using here
      exact walks.trans ((drafts_headerBehind visibility).ran ran).1

theorem State.position_past (source : Source) (start : State) :
    start.cursor.position ≤ (start.past (start.header? source)).position := by
  cases here : start.header? source with
  | none => exact Nat.le_refl _
  | some header => exact (walks_header here).position_le

/-- A statement that began without comments that wait has come to another state. If its header was
read, then the comments in it were dropped. -/
theorem State.IsFresh.delivers (fresh : start.IsFresh)
    (walks : (start.past (start.header? source)).Walks after.cursor) (extends_ : start.Extends after)
    (same : after.comments = start.comments) : start.Delivers source [.began start] after := by
  have began (index : Nat) : isDropped source [.began start] index =
      (start.header? source).any fun header =>
        start.cursor.position < index && index ≤ header.cursor.position :=
    Bool.or_false _
  cases here : start.header? source with
  | none =>
    rw [here] at walks
    exact .of_walks walks extends_ same fun index => by rw [began, here]; rfl
  | some header =>
    rw [here] at walks
    have behind := walks_header here
    have drops (index : Nat) : isDropped source [.began start] index = true ↔
        start.cursor.position < index ∧ index ≤ header.cursor.position := by
      rw [began, here, Option.any_some, Bool.and_eq_true, decide_eq_true_iff, decide_eq_true_iff]
    have ahead : header.cursor.position ≤ after.cursor.position := walks.position_le
    have kept : keptBetween source [.began start] start.cursor.position after.cursor.position =
        indicesBetween header.cursor.position after.cursor.position := by
      rw [keptBetween, ← indicesBetween_append behind.position_le ahead, List.filter_append,
        List.filter_eq_nil_iff.mpr, List.filter_eq_self.mpr, List.nil_append]
      · intro index member
        have := mem_indicesBetween.mp member
        have apart : ¬ isDropped source [.began start] index = true := (drops index).not.mpr (by omega)
        simpa using apart
      · intro index member
        have inside : isDropped source [.began start] index = true :=
          (drops index).mpr (mem_indicesBetween.mp member)
        simp [inside]
    have path : after.builder.path = start.builder.path := congrArg SourceUnit.path extends_.unit
    have waiting : after.cursor.waiting =
        (indicesBetween header.cursor.position after.cursor.position).flatMap
          (commentsAt start.cursor.entries) := by
      have reached := walks.waiting_eq
      rw [← behind.entries_eq]
      exact reached
    refine ⟨extends_, fun index inside => ?_, ?_⟩
    · have := (drops index).mp inside
      omega
    · rw [State.delivered, same, waiting, kept, path, List.map_flatMap, State.delivered, fresh.waiting,
        List.map_nil, List.append_nil]
      rfl

theorem State.Enters.comments_eq (enters : before.Enters source after) :
    after.comments = before.comments :=
  enters.fits.comments_eq fun id placed new here =>
    (Node.apart_of_isPlain (enters.plain id placed new here)).2.2

/-- A statement that comes to a list has come to its opening brace. -/
theorem State.ComesTo.delivers (comes : before.ComesTo source list inside) (fresh : before.IsFresh) :
    before.Delivers source [.began before] inside.openScope := by
  have opened := comes.opened
  have fits := opened.holds.drafts.fits
  exact fresh.delivers opened.walks fits.toExtends.openScope <|
    fits.comments_eq fun id placed new here =>
      Node.isComment_eq_false (opened.holds.drafts.inner id placed new here)

theorem State.Recovered.delivers (recovered : start.Recovered source error failure after) :
    failure.Delivers source [.failed start error failure after] after := by
  refine .of_walks recovered.walks recovered.extends_ ?_ fun index => rfl
  rw [State.comments, recovered.nodes, Array.toList_push, List.filter_append, State.comments]
  exact List.append_nil _

theorem State.Completes.delivers (complete : start.Completes source list stop after) :
    stop.Delivers source [.enclosed start list stop after] after := by
  refine .of_walks complete.walks complete.extends_ ?_ fun index => rfl
  have owner : (list.node stop.builder.innermost).isComment = false :=
    Node.isComment_of_isOwner (list.isOwner_node _)
  rw [State.comments, complete.nodes, Array.toList_push, List.filter_append, State.comments]
  simp [owner]

theorem Runs.delivers (runs : Runs source part before log outcome after) :
    before.Delivers source log after := by
  induction runs with
  | plain fresh bare ran =>
    obtain ⟨walks, enters⟩ := enters_of_bare bare ran
    exact fresh.delivers walks enters.fits.toExtends enters.comments_eq
  -- comments of a header that was read stay dropped if the statement fails behind it
  | failed fresh bare ran recovers =>
    obtain ⟨walks, enters⟩ := enters_of_bare bare ran
    exact (fresh.delivers walks enters.fits.toExtends enters.comments_eq).trans
      (recovered_of_bare fresh bare ran recovers).delivers
  | enclosed fresh comes members finishes ih =>
    exact ((comes.delivers fresh).trans ih).trans (members.completes comes finishes).delivers
  | broken fresh comes members recovers ih =>
    exact ((comes.delivers fresh).trans ih).trans (members.recovered comes fresh recovers).delivers
  | element fresh ran =>
    obtain ⟨last, walks, enters, ended⟩ := enumElement_ran ran
    have delivers : State.Delivers source _ [] last :=
      .of_walks walks enters.fits.toExtends enters.comments_eq fun _ => rfl
    rcases ended with rfl | rfl
    · exact delivers
    · exact delivers.trans (State.delivers_flush source last)
  | done ends => exact State.delivers_flush source _
  | more further first others ih ih' =>
    exact ((State.delivers_flush source _).trans ih).trans ih'
  | stop further first ih => exact (State.delivers_flush source _).trans ih

/-- A node of a comment stands for a comment in front of a token behind a place, if all comments that
waited do. -/
theorem State.Delivers.exists_index (delivers : before.Delivers source log after) {place id : Nat}
    {placed : PlacedNode} (le : place ≤ before.cursor.position)
    (waits : ∀ comment ∈ before.cursor.waiting, ∃ index, place < index ∧
      index ≤ before.cursor.position ∧ comment ∈ commentsAt before.cursor.entries index)
    (new : before.builder.nodes.size ≤ id) (here : after.builder.nodes[id]? = some placed)
    (isComment : placed.node.isComment) :
    ∃ index, place < index ∧ index ≤ after.cursor.position ∧ placed ∈ before.notesAt source index := by
  have further := delivers.extends_.position
  obtain ⟨made, same⟩ := delivers.extends_.nodes
  have member : placed ∈ made.filter (·.node.isComment) := by
    rw [← Array.getElem?_toList, ← same, List.getElem?_append_right (by simpa using new)] at here
    exact List.mem_filter.mpr ⟨List.mem_of_getElem? here, isComment⟩
  have delivered := delivers.delivered
  rw [State.delivered, State.comments, ← same, List.filter_append, State.delivered, State.comments,
    List.append_assoc, List.append_assoc] at delivered
  rcases List.mem_append.mp
    (List.append_cancel_left delivered ▸ List.mem_append_left _ member) with waited | reached
  · obtain ⟨comment, inside, rfl⟩ := List.mem_map.mp waited
    obtain ⟨index, least, most, found⟩ := waits comment inside
    exact ⟨index, least, Nat.le_trans most further, List.mem_map_of_mem found⟩
  · obtain ⟨index, inside, found⟩ := List.mem_flatMap.mp reached
    obtain ⟨least, most⟩ := mem_indicesBetween.mp (List.mem_filter.mp inside).1
    exact ⟨index, Nat.lt_of_le_of_lt le least, most, found⟩

theorem State.IsFresh.waiting_past (fresh : start.IsFresh) (header? : Option State) :
    (start.past header?).waiting = [] := by
  cases header? with
  | none => exact fresh.waiting
  | some header => rfl

/-- Comments in the list of a statement stand behind its header, if it has one. -/
theorem Runs.exists_index
    (members : Runs source (.all (.braces list.member)) inside.openScope log (.ok ()) stop)
    (fresh : start.IsFresh) (comes : start.ComesTo source list inside) {id : Nat} {placed : PlacedNode}
    (member : id ∈ stop.builder.innermost) (here : stop.builder.nodes[id]? = some placed)
    (isComment : placed.node.isComment) :
    ∃ index, (start.past (start.header? source)).position < index ∧
      index ≤ stop.cursor.position ∧ placed ∈ stop.notesAt source index := by
  obtain ⟨least, -⟩ := (members.grows_innermost rfl).made id member
  have walks := comes.opened.walks
  have delivers := members.delivers
  rw [delivers.extends_.notesAt_eq]
  refine delivers.exists_index walks.position_le (fun comment waits => ?_) least here isComment
  have waiting := walks.waiting_eq
  rw [fresh.waiting_past, List.nil_append] at waiting
  obtain ⟨index, inside, found⟩ := List.mem_flatMap.mp (waiting ▸ waits)
  obtain ⟨least, most⟩ := mem_indicesBetween.mp inside
  exact ⟨index, least, most, walks.entries_eq ▸ found⟩

/-- No comment waits behind a list. -/
theorem Runs.waiting {scope : Scope} (runs : Runs source (.all scope) before log (.ok ()) after) :
    after.cursor.waiting = [] := by
  generalize whole : Part.all scope = part at runs
  generalize fine : (.ok () : Except ParseError Unit) = outcome at runs
  induction runs with
  | plain | failed | enclosed | broken | element => cases whole
  | done ends => rfl
  | more further first others ih ih' => exact ih' whole fine
  | stop further first ih => cases fine

end Parser

namespace SourceUnit

open IncrementalFrontend.Parser

variable {unit : SourceUnit} {text : String} {names : Interner} {log : List Event} {last : State}

/-- All comments of a text that are not dropped become nodes, in their order. -/
theorem HasCourse.comments_eq (course : unit.HasCourse text names log last) :
    last.comments = ((List.range (TokenList.ofText text names).1.entries.length).filter fun index =>
      !isDropped (parserSource text names) log index).flatMap fun index =>
        (commentsAt (TokenList.ofText text names).1.entries index).map
          ((parserSource text names).note unit.path) := by
  have delivers := course.runs.delivers
  have delivered := delivers.delivered
  have position : (unit.parserStart text names).cursor.position = 0 := rfl
  have first : (unit.parserStart text names).delivered (parserSource text names) =
      (unit.parserStart text names).notesAt (parserSource text names) 0 := by
    have head : (unit.parserStart text names).cursor.waiting =
        commentsAt (TokenList.ofText text names).1.entries 0 := by
      rw [commentsAt, ← List.head?_eq_getElem?]
      rfl
    rw [State.delivered, head]
    rfl
  have all : List.range (TokenList.ofText text names).1.entries.length =
      0 :: indicesBetween 0 last.cursor.position := by
    rw [← course.position, List.range_eq_range', List.range'_succ]
    rfl
  have kept : isDropped (parserSource text names) log 0 = false :=
    Bool.eq_false_iff.mpr fun dropped => Nat.lt_irrefl 0 (delivers.dropped 0 dropped).1
  rw [State.delivered, course.runs.waiting, List.map_nil, List.append_nil, position, first] at delivered
  rw [delivered, all, List.filter_cons_of_pos (by simp [kept]), List.flatMap_cons]
  rfl

variable (unit text names)

/-- Comments are conserved: each becomes one node, in the order of the text, unless it is dropped with
the header of a function. None from a header gets into the body. -/
theorem comments_are_conserved :
    let tokens := (TokenList.ofText text names).1
    let source := parserSource text names
    let nodes := (unit.parse text names).1.tree.nodes
    let notesAt (index : Nat) := (commentsAt tokens.entries index).map (source.note unit.path)
    ∃ log last, unit.HasCourse text names log last ∧
      nodes.toList.filter (·.node.isComment) =
        ((List.range tokens.entries.length).filter fun index =>
          !isDropped source log index).flatMap notesAt ∧
      ∀ start list stop after header, .enclosed start list stop after ∈ log →
        start.header? source = some header →
        (∃ location, nodes[stop.builder.nodes.size]? =
          some ⟨list.node stop.builder.innermost, location⟩) ∧
        ∀ id : Nat, id ∈ (list.node stop.builder.innermost).members → ∀ placed,
          nodes[id]? = some placed → placed.node.isComment →
            ∃ index, header.cursor.position < index ∧ placed ∈ notesAt index := by
  intro tokens source nodes notesAt
  obtain ⟨log, last, course⟩ := unit.exists_course text names
  have runs := course.runs
  have same : nodes = last.builder.nodes := course.nodes_eq
  refine ⟨log, last, course, ?_, ?_⟩
  · rw [same]
    exact course.comments_eq
  · intro start list stop after header member here
    obtain ⟨early, inside, behind, late⟩ := runs.isBetween _ member
    obtain ⟨opened, inner, fresh, comes, -, members, complete⟩ := runs.exists_members member
    refine ⟨⟨after.place source start.cursor.position (after.cursor.position - 1), ?_⟩,
      fun id entry placed found isComment => ?_⟩
    · have inside : stop.builder.nodes.size < after.builder.nodes.size := by
        rw [complete.nodes, Array.size_push]
        exact Nat.lt_succ_self _
      rw [same, late.getElem?_eq inside, complete.nodes, Array.getElem?_push_size]
    · rw [list.members_node] at entry
      have older := ((members.grows_innermost rfl).made id entry).2
      rw [same, (behind.trans late).getElem?_eq older] at found
      obtain ⟨index, least, -, reached⟩ := members.exists_index fresh comes entry found isComment
      rw [here] at least
      rw [(early.trans inside).notesAt_eq] at reached
      exact ⟨index, least, reached⟩

end SourceUnit

end IncrementalFrontend
