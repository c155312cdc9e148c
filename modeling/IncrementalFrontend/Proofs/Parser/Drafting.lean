import IncrementalFrontend.Proofs.Parser.Planting

/-!
Where parsers put their nodes. A node stands on the tokens that were consumed since its parser began,
and it refers to nodes that were made since then; so it covers them. The rules are those of the control
structures, so a production is followed line by line.
-/
namespace IncrementalFrontend

def Node.isComment : Node → Bool
  | .comment .. => true
  | _ => false

theorem Node.isComment_eq_false {node : Node} (inner : node.isEntry = false) :
    node.isComment = false := by
  cases node <;> first | rfl | cases inner

namespace Parser

variable {α β σ : Type} {source : Source} {base before mid now after : State}

/-- A loop keeps what each of its rounds keeps. -/
theorem loop_ran {start : σ} {round : σ → Parser (Round σ α)} {outcome : Except ParseError α}
    (invariant : σ → State → Prop) (post : Except ParseError α → State → Prop)
    (begins : invariant start before)
    (step : ∀ state before outcome after, invariant state before →
      round state source before = some (outcome, after) →
      match outcome with
      | .ok (.again state) => invariant state after
      | .ok (.done result) => post (.ok result) after
      | .error error => post (.error error) after)
    (ran : loop start round source before = some (outcome, after)) : post outcome after := by
  have within (count : Nat) (state : σ) (before : State) (holds : invariant state before)
      (ran : rounds round count state source before = some (outcome, after)) :
      post outcome after := by
    -- the budget bounds the rounds, and a loop that runs out of it does not end
    induction count generalizing state before with
    | zero => cases ran
    | succ count ih =>
      rw [rounds] at ran
      obtain ⟨error, failed, rfl⟩ | ⟨again | result, mid, first, rest⟩ := ran_of_bind ran
      · exact step state before (.error error) after holds failed
      · exact ih again mid (step state before (.ok (.again again)) mid holds first) rest
      · cases rest
        exact step state before (.ok (.done result)) after holds first
  exact within source.budget start before begins ran

def State.place (source : Source) (state : State) (first last : Nat) : Location :=
  source.lines.location state.builder.path (extent state.cursor.entries first last)

def State.IsWithin (source : Source) (state : State) (first last : Nat) (id : NodeId) : Prop :=
  ∀ placed, state.builder.nodes[id]? = some placed → placed.node.isComment = false →
    ∃ i j, first ≤ i ∧ i ≤ j ∧ j ≤ last ∧ placed.location = state.place source i j

structure State.Covers (source : Source) (state : State) (first last : Nat) (id : NodeId)
    (placed : PlacedNode) : Prop where
  location : placed.location = state.place source first last
  children : ∀ child ∈ placed.node.children, child < id ∧ state.IsWithin source first last child
  ordered : placed.node.members.Pairwise (· < ·)

structure State.Extends (before after : State) : Prop where
  tokens : after.cursor.entries = before.cursor.entries
  position : before.cursor.position ≤ after.cursor.position
  unit : after.builder.unit = before.builder.unit
  nodes : before.builder.nodes.toList <+: after.builder.nodes.toList

structure State.Fits (source : Source) (before after : State) : Prop
    extends State.Extends before after where
  within : ∀ (id : Nat) placed, before.builder.nodes.size ≤ id → after.builder.nodes[id]? = some placed →
    placed.node.isComment = false → ∃ first last, before.cursor.position ≤ first ∧ first ≤ last ∧
      last < after.cursor.position ∧ after.Covers source first last id placed

namespace State.Extends

variable {first last : Nat} {id : NodeId} {placed : PlacedNode}

theorem trans (first : before.Extends mid) (second : mid.Extends after) : before.Extends after where
  tokens := second.tokens.trans first.tokens
  position := Nat.le_trans first.position second.position
  unit := second.unit.trans first.unit
  nodes := first.nodes.trans second.nodes

theorem place_eq (extends_ : before.Extends after) : after.place source = before.place source := by
  funext first last
  rw [State.place, State.place, extends_.tokens, Builder.path, Builder.path, extends_.unit]

theorem size_le (extends_ : before.Extends after) :
    before.builder.nodes.size ≤ after.builder.nodes.size :=
  extends_.nodes.length_le

theorem getElem?_eq (extends_ : before.Extends after) (old : id < before.builder.nodes.size) :
    after.builder.nodes[id]? = before.builder.nodes[id]? := by
  obtain ⟨new, same⟩ := extends_.nodes
  rw [← Array.getElem?_toList, ← Array.getElem?_toList, ← same]
  exact List.getElem?_append_left (by simpa using old)

theorem isWithin (extends_ : before.Extends after) (old : id < before.builder.nodes.size)
    (within : before.IsWithin source first last id) : after.IsWithin source first last id := by
  intro placed here apart
  rw [extends_.place_eq]
  exact within placed (extends_.getElem?_eq old ▸ here) apart

theorem covers (extends_ : before.Extends after) (old : id < before.builder.nodes.size)
    (covers : before.Covers source first last id placed) :
    after.Covers source first last id placed where
  location := by rw [covers.location, extends_.place_eq]
  children child member := by
    obtain ⟨older, within⟩ := covers.children child member
    exact ⟨older, extends_.isWithin (Nat.lt_trans older old) within⟩
  ordered := covers.ordered

end State.Extends

namespace State.Fits

/-- No node was made. -/
theorem of_nodes (tokens : after.cursor.entries = before.cursor.entries)
    (position : before.cursor.position ≤ after.cursor.position)
    (unit : after.builder.unit = before.builder.unit)
    (nodes : after.builder.nodes = before.builder.nodes) : before.Fits source after where
  tokens := tokens
  position := position
  unit := unit
  nodes := nodes ▸ List.prefix_refl _
  within id placed new here _ := by
    rw [nodes] at here
    have old := (Array.getElem?_eq_some_iff.mp here).1
    omega

theorem refl (state : State) : state.Fits source state :=
  of_nodes rfl (Nat.le_refl _) rfl rfl

theorem trans (first : before.Fits source mid) (second : mid.Fits source after) :
    before.Fits source after where
  toExtends := first.toExtends.trans second.toExtends
  within id placed new here apart := by
    by_cases old : id < mid.builder.nodes.size
    · rw [second.getElem?_eq old] at here
      obtain ⟨i, j, least, le, most, covers⟩ := first.within id placed new here apart
      exact ⟨i, j, least, le, Nat.lt_of_lt_of_le most second.position, second.covers old covers⟩
    · obtain ⟨i, j, least, le, most, covers⟩ :=
        second.within id placed (Nat.le_of_not_lt old) here apart
      exact ⟨i, j, Nat.le_trans first.position least, le, most, covers⟩

/-- What was made since the beginning stands on what was consumed since then. -/
theorem isWithin_made (fits : before.Fits source now) {id : NodeId}
    (new : before.builder.nodes.size ≤ id) :
    now.IsWithin source before.cursor.position (now.cursor.position - 1) id := by
  intro placed here apart
  obtain ⟨i, j, least, le, most, covers⟩ := fits.within id placed new here apart
  exact ⟨i, j, least, le, by omega, covers.location⟩

/-- Another node stands on everything that was consumed. -/
theorem push {node : Node} {builder : Builder} (fits : before.Fits source now)
    (moved : before.cursor.position < now.cursor.position)
    (made : ∀ child : Nat, child ∈ node.children →
      before.builder.nodes.size ≤ child ∧ child < now.builder.nodes.size)
    (ordered : node.members.Pairwise (· < ·)) (unit : builder.unit = now.builder.unit)
    (nodes : builder.nodes = now.builder.nodes.push
      ⟨node, now.place source before.cursor.position (now.cursor.position - 1)⟩) :
    before.Fits source ⟨now.cursor, builder⟩ := by
  have later : now.Extends ⟨now.cursor, builder⟩ := by
    refine ⟨rfl, Nat.le_refl _, unit, ?_⟩
    rw [nodes, Array.toList_push]
    exact List.prefix_append ..
  refine ⟨fits.toExtends.trans later, fun id placed new here apart => ?_⟩
  by_cases old : id < now.builder.nodes.size
  · rw [later.getElem?_eq old] at here
    obtain ⟨i, j, least, le, most, covers⟩ := fits.within id placed new here apart
    exact ⟨i, j, least, le, most, later.covers old covers⟩
  · have here : (now.builder.nodes.push _)[id]? = some placed := nodes ▸ here
    have last : id = now.builder.nodes.size := by
      have bound := (Array.getElem?_eq_some_iff.mp here).1
      rw [Array.size_push] at bound
      omega
    subst last
    rw [Array.getElem?_push_size] at here
    obtain rfl := Option.some.inj here
    refine ⟨before.cursor.position, now.cursor.position - 1, Nat.le_refl _, by omega,
      Nat.sub_one_lt (by omega), later.place_eq ▸ rfl, fun child member => ?_, ordered⟩
    obtain ⟨first, older⟩ := made child member
    exact ⟨older, later.isWithin older (fits.isWithin_made first)⟩

end State.Fits

/-- Between two states no more was made than nodes that are not listed yet, none of them an entry. -/
structure State.Drafts (source : Source) (before after : State) : Prop where
  fits : before.Fits source after
  keeps : before.Keeps after
  inner : ∀ (id : Nat) placed, before.builder.nodes.size ≤ id → after.builder.nodes[id]? = some placed →
    placed.node.isEntry = false

theorem State.Drafts.of_builder (tokens : after.cursor.entries = before.cursor.entries)
    (position : before.cursor.position ≤ after.cursor.position)
    (same : after.builder = before.builder) : before.Drafts source after where
  fits := .of_nodes tokens position (by rw [same]) (by rw [same])
  keeps := by constructor <;> rw [same]
  inner id placed new here := by
    rw [same] at here
    have old := (Array.getElem?_eq_some_iff.mp here).1
    omega

theorem State.Drafts.of_walks (walks : before.cursor.Walks after.cursor)
    (same : after.builder = before.builder) : before.Drafts source after :=
  .of_builder walks.entries_eq walks.position_le same

theorem State.Drafts.refl (state : State) : state.Drafts source state :=
  .of_walks (.refl _) rfl

theorem State.Drafts.trans (first : before.Drafts source mid) (second : mid.Drafts source after) :
    before.Drafts source after where
  fits := first.fits.trans second.fits
  keeps := first.keeps.trans second.keeps
  inner id placed new here := by
    by_cases old : id < mid.builder.nodes.size
    · rw [second.fits.getElem?_eq old] at here
      exact first.inner id placed new here
    · exact second.inner id placed (Nat.le_of_not_lt old) here

structure State.Holds (source : Source) (base : State) (passed : Nat) (taken : List NodeId)
    (state : State) : Prop where
  drafts : base.Drafts source state
  moved : base.cursor.position + passed ≤ state.cursor.position
  made : ∀ id : Nat, id ∈ taken →
    base.builder.nodes.size ≤ id ∧ id < state.builder.nodes.size

theorem State.Holds.here (state : State) : state.Holds source 0 [] state :=
  ⟨.refl state, Nat.le_refl _, List.forall_mem_nil _⟩

/-- What is in hand stays in hand. -/
theorem State.Holds.andDrafts {passed : Nat} {taken : List NodeId}
    (holds : base.Holds source passed taken mid) (drafts : mid.Drafts source after) :
    base.Holds source passed taken after where
  drafts := holds.drafts.trans drafts
  moved := Nat.le_trans holds.moved drafts.fits.position
  made id member := by
    obtain ⟨least, most⟩ := holds.made id member
    exact ⟨least, Nat.lt_of_lt_of_le most drafts.fits.size_le⟩

def State.Gives (source : Source) (base : State) (passed : Nat) (given : α → List NodeId) :
    Except ParseError α → State → Prop
  | .ok value, after => base.Holds source passed (given value) after
  | .error _, after => base.Drafts source after

def DraftsFrom (source : Source) (base : State) (passed : Nat) (taken : List NodeId)
    (parser : Parser α) (given : α → List NodeId) : Prop :=
  ∀ before outcome after, base.Holds source passed taken before →
    parser source before = some (outcome, after) →
    before.cursor.Walks after.cursor ∧ base.Gives source passed given outcome after

def Drafts (parser : Parser α) (given : α → List NodeId) : Prop :=
  ∀ source base, DraftsFrom source base 0 [] parser given

theorem Drafts.ran {parser : Parser α} {given : α → List NodeId} {outcome : Except ParseError α}
    (drafts : Drafts parser given) (ran : parser source before = some (outcome, after)) :
    before.cursor.Walks after.cursor ∧ before.Drafts source after ∧
      ∀ value, outcome = .ok value → before.Holds source 0 (given value) after := by
  obtain ⟨walks, ended⟩ := drafts source before before outcome after (.here before) ran
  cases outcome with
  | error error => exact ⟨walks, ended, nofun⟩
  | ok value =>
    refine ⟨walks, ended.drafts, fun result same => ?_⟩
    cases same
    exact ended

namespace DraftsFrom

variable {passed : Nat} {taken : List NodeId} {parser : Parser α} {next : α → Parser β}
  {given : α → List NodeId} {result : β → List NodeId}

theorem pure {value : α} (same : ∀ id ∈ given value, id ∈ taken) :
    DraftsFrom source base passed taken (pure value) given := by
  intro before outcome after holds ran
  cases ran
  exact ⟨.refl _, holds.drafts, holds.moved, fun id member => holds.made id (same id member)⟩

theorem throw (error : ParseError) :
    DraftsFrom source base passed taken (throw error : Parser α) given := by
  intro before outcome after holds ran
  cases ran
  exact ⟨.refl _, holds.drafts⟩

theorem bind (first : DraftsFrom source base passed taken parser given)
    (second : ∀ value, DraftsFrom source base passed (given value) (next value) result) :
    DraftsFrom source base passed taken (parser >>= next) result := by
  intro before outcome after holds ran
  obtain ⟨_, failed, rfl⟩ | ⟨value, mid, start, rest⟩ := ran_of_bind ran
  · exact first before _ _ holds failed
  · obtain ⟨walks, holds⟩ := first before _ _ holds start
    obtain ⟨walks', ended⟩ := second value mid outcome after holds rest
    exact ⟨walks.trans walks', ended⟩

/-- Other nodes may be in hand meanwhile. -/
theorem beside (drafts : Drafts parser given) (taken : List NodeId) :
    DraftsFrom source base passed taken parser fun value => taken ++ given value := by
  intro before outcome after holds ran
  obtain ⟨walks, drafts, made⟩ := drafts.ran ran
  refine ⟨walks, ?_⟩
  have kept := holds.andDrafts drafts
  cases outcome with
  | error error => exact kept.drafts
  | ok value =>
    refine ⟨kept.drafts, kept.moved, fun id member => ?_⟩
    rcases List.mem_append.mp member with old | new
    · exact kept.made id old
    · obtain ⟨least, most⟩ := (made value rfl).made id new
      exact ⟨Nat.le_trans holds.drafts.fits.size_le least, most⟩

/-- What a first parser makes is taken by a second one, besides what is in hand. -/
theorem collect (first : Drafts parser given)
    (second : ∀ value, DraftsFrom source base passed (taken ++ given value) (next value) result) :
    DraftsFrom source base passed taken (parser >>= next) result :=
  (beside first taken).bind second

/-- A parser that only reads leaves what is in hand. -/
theorem of_onlyReads (reads : OnlyReads parser) (taken : List NodeId) :
    DraftsFrom source base passed taken parser fun _ => taken := by
  intro before outcome after holds ran
  obtain ⟨walks, same⟩ := reads source before outcome after ran
  have kept := holds.andDrafts (.of_walks walks same)
  refine ⟨walks, ?_⟩
  cases outcome with
  | error error => exact kept.drafts
  | ok value => exact kept

theorem read (reads : OnlyReads parser)
    (second : ∀ value, DraftsFrom source base passed taken (next value) result) :
    DraftsFrom source base passed taken (parser >>= next) result :=
  (of_onlyReads reads taken).bind second

theorem loop {start : σ} {round : σ → Parser (Round σ α)} (held : σ → List NodeId)
    (each : ∀ state, DraftsFrom source base passed (held state) (round state) fun
      | .again state => held state
      | .done value => given value) :
    DraftsFrom source base passed (held start) (loop start round) given := by
  have within (count : Nat) (state : σ) :
      DraftsFrom source base passed (held state) (rounds round count state) given := by
    induction count generalizing state with
    | zero =>
      intro before outcome after holds ran
      cases ran
    | succ count ih =>
      refine (each state).bind fun
        | .again state => ih state
        | .done value => .pure fun _ member => member
  intro before outcome after holds ran
  have same : Parser.loop start round source before =
    rounds round source.budget start source before := rfl
  exact within source.budget start before outcome after holds (same ▸ ran)

theorem mapError {change : ParseError → ParseError}
    (drafts : DraftsFrom source base passed taken parser given) :
    DraftsFrom source base passed taken (mapError change parser) given := by
  intro before outcome after holds ran
  rw [mapError_apply] at ran
  obtain ⟨⟨ended, after⟩, ran, ⟨⟩⟩ := Option.map_eq_some_iff.mp ran
  obtain ⟨walks, drafted⟩ := drafts before ended after holds ran
  cases ended <;> exact ⟨walks, drafted⟩

theorem map {change : α → β} (drafts : DraftsFrom source base passed taken parser given)
    (same : ∀ value, ∀ id ∈ result (change value), id ∈ given value) :
    DraftsFrom source base passed taken (change <$> parser) result := by
  rw [map_eq_pure_bind]
  exact drafts.bind fun value => .pure (same value)

theorem whileParsing (what : String) (name : Name)
    (drafts : DraftsFrom source base passed taken parser given) :
    DraftsFrom source base passed taken (whileParsing what name parser) given :=
  .read (onlyReads_lookup name) fun _ => drafts.mapError

end DraftsFrom

namespace Drafts

variable {parser : Parser α} {given : α → List NodeId}

/-- It is enough to look at what is made from the state on in which the parser begins. -/
theorem of_here (here : ∀ source base outcome after, parser source base = some (outcome, after) →
    base.cursor.Walks after.cursor ∧ base.Gives source 0 given outcome after) :
    Drafts parser given := by
  intro source base before outcome after holds ran
  obtain ⟨walks, ended⟩ := here source before outcome after ran
  refine ⟨walks, ?_⟩
  cases outcome with
  | error error => exact holds.drafts.trans ended
  | ok value =>
    refine ⟨holds.drafts.trans ended.drafts, ?_, fun id member => ?_⟩
    · exact Nat.le_trans holds.moved walks.position_le
    · have older := holds.drafts.fits.size_le
      obtain ⟨least, most⟩ := ended.made id member
      exact ⟨Nat.le_trans older least, most⟩

/-- The parser notes where it begins. -/
theorem anchored {rest : Span → Parser α}
    (drafts : ∀ source base, DraftsFrom source base 0 [] (rest base.cursor.current.span) given) :
    Drafts (currentSpan >>= rest) given := by
  refine of_here fun source base outcome after ran => ?_
  have looks : currentSpan source base = some (.ok base.cursor.current.span, base) := rfl
  rw [bind_of_ok looks] at ran
  exact drafts source base base outcome after (.here base) ran

theorem recursive {body : Parser α → Parser α}
    (step : ∀ parser, Drafts parser given → Drafts (body parser) given) :
    Drafts (recursive body) given := by
  have within (depth : Nat) : Drafts (unroll body depth) given := by
    induction depth with
    | zero =>
      intro source base before outcome after holds ran
      have absurd : none = some (outcome, after) := ran
      cases absurd
    | succ depth ih => exact fun source => step _ ih source
  exact fun source => within source.budget source

end Drafts

theorem State.Holds.moved_of_made {passed : Nat} {taken : List NodeId} {id : NodeId}
    (holds : base.Holds source passed taken now) (member : id ∈ taken) :
    base.cursor.position < now.cursor.position := by
  obtain ⟨new, old⟩ := holds.made id member
  obtain ⟨placed, here⟩ : ∃ placed, now.builder.nodes[id]? = some placed :=
    ⟨_, Array.getElem?_eq_getElem old⟩
  have apart := Node.isComment_eq_false (holds.drafts.inner id placed new here)
  obtain ⟨first, last, least, le, most, -⟩ := holds.drafts.fits.within id placed new here apart
  omega

/-- A node that reaches from the base to the last consumed token, and refers to nodes in hand. -/
theorem State.Holds.stored {passed : Nat} {taken : List NodeId} {node : Node} {location : Location}
    (holds : base.Holds source passed taken now) (inner : node.isEntry = false)
    (children : ∀ child ∈ node.children, child ∈ taken)
    (moved : base.cursor.position < now.cursor.position)
    (placed : location = now.place source base.cursor.position (now.cursor.position - 1)) :
    base.Holds source passed [now.builder.nodes.size]
      ⟨now.cursor, (now.builder.store node location).2⟩ := by
  subst placed
  have ordered : node.members.Pairwise (· < ·) := by
    rw [Node.members_eq_nil inner]
    exact .nil
  have made (child : Nat) (member : child ∈ node.children) := holds.made child (children child member)
  have fits : base.Fits source ⟨now.cursor, (now.builder.store node _).2⟩ :=
    holds.drafts.fits.push moved made ordered rfl rfl
  have size : (now.builder.store node
      (now.place source base.cursor.position (now.cursor.position - 1))).2.nodes.size =
        now.builder.nodes.size + 1 := Array.size_push ..
  refine ⟨⟨fits, ⟨holds.drafts.keeps.scopes, holds.drafts.keeps.topLevel,
    holds.drafts.keeps.diagnostics, holds.drafts.keeps.unit⟩, fun id placed new here => ?_⟩,
    holds.moved, fun id member => ?_⟩
  · have here : (now.builder.nodes.push _)[id]? = some placed := here
    rw [Array.getElem?_push] at here
    split at here
    · obtain rfl := Option.some.inj here
      exact inner
    · exact holds.drafts.inner id placed new here
  · obtain rfl := List.mem_singleton.mp member
    have older := holds.drafts.fits.size_le
    change _ ∧ _ < (now.builder.store node _).2.nodes.size
    omega

theorem place_of_spanFrom (extends_ : base.Extends now)
    (moved : base.cursor.position < now.cursor.position) :
    source.lines.location now.builder.path ⟨base.cursor.current.span.start,
      max now.cursor.previousSpan.stop base.cursor.current.span.stop⟩ =
        now.place source base.cursor.position (now.cursor.position - 1) := by
  rw [State.place, extent, spanAt, Cursor.previousSpan_eq (by omega), Cursor.current_eq,
    extends_.tokens]

theorem draftsFrom_store {passed : Nat} {taken : List NodeId} {node : Node}
    (inner : node.isEntry = false) (children : ∀ child ∈ node.children, child ∈ taken)
    (moved : 0 < passed ∨ taken ≠ []) :
    DraftsFrom source base passed taken (store node base.cursor.current.span) fun id => [id] := by
  intro before outcome after holds ran
  have further : base.cursor.position < before.cursor.position := by
    rcases moved with passes | filled
    · have := holds.moved
      omega
    · obtain ⟨id, others, rfl⟩ := List.exists_cons_of_ne_nil filled
      exact holds.moved_of_made List.mem_cons_self
  cases ran
  exact ⟨.refl _, holds.stored inner children further
    (place_of_spanFrom holds.drafts.fits.toExtends further)⟩

theorem draftsFrom_operation {passed : Nat} {operands : List NodeId} (operator : Operator)
    (filled : operands ≠ []) : DraftsFrom source base passed operands
      (storeOperation operator operands base.cursor.current.span) fun id => [id] :=
  draftsFrom_store rfl (by simp [Node.children, Node.parts, Node.members]) (.inr filled)

theorem drafts_listUntil (close : Symbol) {item : Parser NodeId}
    (drafts : Drafts item fun id => [id]) : Drafts (listUntil close item) id := by
  refine fun source base => .loop id fun items => .read (onlyReads_eat _) fun isClosed => ?_
  split
  · exact .pure fun _ member => member
  · refine .collect drafts fun last => .read (onlyReads_eat _) fun isComma => ?_
    split
    · exact .pure fun _ member => member
    · refine .read (onlyReads_expect _) fun _ => ?_
      exact .pure fun _ member => member

theorem drafts_afterSymbol (symbol : Symbol) {parser : Parser NodeId}
    (drafts : Drafts parser fun id => [id]) : Drafts (afterSymbol symbol parser) Option.toList := by
  refine fun source base => .read (onlyReads_eat _) fun isThere => ?_
  split
  · exact (drafts source base).bind fun id => .pure fun _ member => member
  · exact .pure fun _ member => member

/-- A single token becomes a node. -/
theorem draftsHere_leaf {node : Node} (inner : node.isEntry = false) (alone : node.children = [])
    (inside : base.cursor.kind ≠ .endOfFile) {outcome : Except ParseError NodeId}
    (ran : (do
      let _ ← advance
      let location ← locate base.cursor.current.span
      build (·.store node location)) source base = some (outcome, after)) :
    base.cursor.Walks after.cursor ∧ base.Gives source 0 (fun id => [id]) outcome after := by
  let now : State := { base with cursor := base.cursor.advance }
  have moved : now.cursor.position = base.cursor.position + 1 :=
    Cursor.position_advance (Cursor.isAtEnd_eq_false rfl inside)
  have holds : base.Holds source 0 [] now :=
    ⟨.of_walks (.advance _) rfl, by omega, List.forall_mem_nil _⟩
  have placed : source.lines.location now.builder.path base.cursor.current.span =
      now.place source base.cursor.position (now.cursor.position - 1) := by
    rw [moved, Nat.add_sub_cancel, State.place, extent, Nat.max_self,
      (Cursor.Walks.advance base.cursor).entries_eq, spanAt, ← Cursor.current_eq]
  cases ran
  exact ⟨.advance _, holds.stored inner (by simp [alone]) (by omega) placed⟩

section

variable {expression : Parser NodeId} (drafts : Drafts expression fun id => [id])
include drafts

theorem drafts_primary : Drafts (primary expression) fun id => [id] := by
  refine .of_here fun source base outcome after ran => ?_
  have looks : current source base = some (.ok base.cursor.current, base) := rfl
  rcases startsPrimary_cases base.cursor.kind with
    ⟨name, here⟩ | ⟨value, here⟩ | ⟨content, here⟩ | here | apart
  all_goals have shape : base.cursor.current.kind = base.cursor.kind := rfl
  · rw [primary, bind_of_ok looks] at ran
    simp only [shape, here] at ran
    exact draftsHere_leaf rfl rfl (by simp [here]) ran
  · rw [primary, bind_of_ok looks] at ran
    simp only [shape, here] at ran
    exact draftsHere_leaf rfl rfl (by simp [here]) ran
  · rw [primary, bind_of_ok looks] at ran
    simp only [shape, here] at ran
    exact draftsHere_leaf rfl rfl (by simp [here]) ran
  · rw [primary, bind_of_ok looks] at ran
    simp only [shape, here] at ran
    have grouped : DraftsFrom source base 0 [] (do
        let _ ← advance
        let inner ← expression
        let _ ← expectSymbol .parenClose
        return inner) fun id => [id] :=
      .read onlyReads_advance fun _ => (drafts source base).bind fun id =>
        .read (onlyReads_expect _) fun _ => .pure fun _ member => member
    exact grouped base outcome after (.here base) ran
  · cases (primary_error expression apart).symm.trans ran
    exact ⟨.refl _, .refl base⟩

theorem drafts_suffixed : Drafts (suffixed expression) fun id => [id] := by
  refine .anchored fun source base => (drafts_primary drafts source base).bind fun head => ?_
  refine .loop (fun id => [id]) fun node => .read (onlyReads_eat _) fun isCall => ?_
  split
  · refine .collect (drafts_listUntil _ drafts) fun actuals => ?_
    refine .bind (draftsFrom_store rfl ?_ (.inr (by simp))) fun id => .pure fun _ member => member
    simp [Node.children, Node.parts, Node.members]
  · refine .read (onlyReads_eat _) fun isField => ?_
    split
    · refine .read onlyReads_expectIdentifier fun name => ?_
      refine .bind (draftsFrom_store rfl ?_ (.inr (by simp))) fun id => .pure fun _ member => member
      simp [Node.children, Node.parts, Node.members]
    · exact .pure fun _ member => member

end

theorem drafts_leftAssociative (operators : List Operator) {operand : Parser NodeId}
    (drafts : Drafts operand fun id => [id]) :
    Drafts (leftAssociative operators operand) fun id => [id] := by
  refine .anchored fun source base => (drafts source base).bind fun first => ?_
  refine .loop (fun id => [id]) fun left => .read onlyReads_kind fun kind => ?_
  split
  · exact .pure fun _ member => member
  · refine .read onlyReads_advance fun _ => .collect drafts fun right => ?_
    exact (draftsFrom_operation _ (by simp)).bind fun id => .pure fun _ member => member

inductive State.Signed (base : State) : List (Operator × Span) → State → Prop where
  | none : Signed base [] base
  | another {signs : List (Operator × Span)} {state : State} (signed : Signed base signs state)
      (operator : Operator) : Signed base ((operator, state.cursor.current.span) :: signs)
        { state with cursor := state.cursor.advance }

theorem State.Signed.walks {signs : List (Operator × Span)} (signed : base.Signed signs now) :
    base.cursor.Walks now.cursor ∧ now.builder = base.builder := by
  induction signed with
  | none => exact ⟨.refl _, rfl⟩
  | another _ _ ih => exact ⟨ih.1.trans (.advance _), ih.2⟩

theorem signs_ran {outcome : Except ParseError (List (Operator × Span))}
    (ran : signs source base = some (outcome, after)) :
    ∃ signs, outcome = .ok signs ∧ base.Signed signs after := by
  refine loop_ran (fun signs state => base.Signed signs state)
    (fun outcome state => ∃ signs, outcome = .ok signs ∧ base.Signed signs state) .none ?_ ran
  intro signs before outcome after signed ran
  have peeks : Parser.kind source before = some (.ok before.cursor.kind, before) := rfl
  rw [bind_of_ok peeks] at ran
  generalize before.cursor.kind.operatorAmong? Operator.unary = found at ran
  cases found with
  | none =>
    cases ran
    exact ⟨signs, rfl, signed⟩
  | some operator =>
    cases ran
    exact .another signed operator

theorem State.Holds.from_earlier {passed : Nat} {taken : List NodeId}
    (drafts : base.Drafts source mid) (holds : mid.Holds source passed taken now) :
    base.Holds source 0 taken now := by
  refine ⟨drafts.trans holds.drafts, ?_, fun id member => ?_⟩
  · have := drafts.fits.position
    have := holds.moved
    omega
  · obtain ⟨least, most⟩ := holds.made id member
    exact ⟨Nat.le_trans drafts.fits.size_le least, most⟩

/-- Each sign makes an operation that reaches from the sign to the end of the operand. -/
theorem State.Signed.draftsFrom {signs : List (Operator × Span)} {state : State}
    (signed : base.Signed signs state) {operand : NodeId} {outcome : Except ParseError NodeId}
    (holds : state.Holds source 0 [operand] now)
    (ran : applySigns operand signs source now = some (outcome, after)) :
    now.cursor.Walks after.cursor ∧ base.Gives source 0 (fun id => [id]) outcome after := by
  induction signed generalizing operand now with
  | none =>
    cases ran
    exact ⟨.refl _, holds⟩
  | @another signs state signed operator ih =>
    rw [applySigns, List.foldlM_cons] at ran
    have advanced : state.Drafts source { state with cursor := state.cursor.advance } :=
      .of_walks (.advance _) rfl
    have earlier : state.Holds source 0 [operand] now := .from_earlier advanced holds
    obtain ⟨_, ⟨⟩, -⟩ | ⟨id, mid, stored, rest⟩ := ran_of_bind ran
    obtain ⟨walks, made⟩ := draftsFrom_operation operator (by simp) now (.ok id) mid earlier stored
    obtain ⟨walks', done⟩ := ih made rest
    exact ⟨walks.trans walks', done⟩

theorem drafts_signed {expression : Parser NodeId} (drafts : Drafts expression fun id => [id]) :
    Drafts (signed expression) fun id => [id] := by
  rw [signed_eq]
  refine .of_here fun source base outcome after ran => ?_
  obtain ⟨_, failed, -⟩ | ⟨_, mid, first, ran⟩ := ran_of_bind ran
  · obtain ⟨_, ⟨⟩, -⟩ := signs_ran failed
  · obtain ⟨_, ⟨⟩, signed⟩ := signs_ran first
    obtain ⟨walks, same⟩ := signed.walks
    obtain ⟨_, failed, rfl⟩ | ⟨operand, now, second, ran⟩ := ran_of_bind ran
    · obtain ⟨walks', drafted, -⟩ := (drafts_suffixed drafts).ran failed
      exact ⟨walks.trans walks', (State.Drafts.of_walks walks same).trans drafted⟩
    · obtain ⟨walks', -, made⟩ := (drafts_suffixed drafts).ran second
      obtain ⟨walks'', ended⟩ := signed.draftsFrom (made operand rfl) ran
      exact ⟨(walks.trans walks').trans walks'', ended⟩

theorem drafts_expression : Drafts expression fun id => [id] := by
  refine .recursive fun expression drafts => .anchored fun source base => ?_
  have binary : Drafts (binary expression) fun id => [id] := by
    unfold Parser.binary
    generalize Operator.binaryLevels = levels
    induction levels with
    | nil => exact drafts_signed drafts
    | cons operators rest ih => exact drafts_leftAssociative operators ih
  refine (binary source base).bind fun target => .read (onlyReads_eat _) fun isAssigned => ?_
  split
  · exact .collect drafts fun value => draftsFrom_operation _ (by simp)
  · exact .pure fun _ member => member

theorem drafts_typeExpression : Drafts typeExpression fun id => [id] :=
  fun source base => (drafts_suffixed drafts_expression source base).mapError

/-- A name is a token that was consumed. -/
theorem State.Holds.identifier {passed : Nat} {taken : List NodeId} {outcome : Except ParseError Name}
    (holds : base.Holds source passed taken now)
    (ran : expectIdentifier source now = some (outcome, after)) :
    now.cursor.Walks after.cursor ∧ base.Gives source (passed + 1) (fun _ => taken) outcome after := by
  have same := @expectIdentifier_apply source now
  split at same
  · rename_i name here
    cases same.symm.trans ran
    have walks : now.cursor.Walks now.cursor.advance := .advance _
    have further : now.cursor.advance.position = now.cursor.position + 1 :=
      Cursor.position_advance (Cursor.isAtEnd_eq_false here nofun)
    have moved := holds.moved
    exact ⟨walks, holds.drafts.trans (.of_walks walks rfl), by dsimp only; omega, holds.made⟩
  · cases same.symm.trans ran
    exact ⟨.refl _, holds.drafts⟩

theorem DraftsFrom.identifier {passed : Nat} {taken : List NodeId} {next : Name → Parser α}
    {given : α → List NodeId}
    (second : ∀ name, DraftsFrom source base (passed + 1) taken (next name) given) :
    DraftsFrom source base passed taken (expectIdentifier >>= next) given := by
  intro before outcome after holds ran
  obtain ⟨_, failed, rfl⟩ | ⟨name, mid, start, rest⟩ := ran_of_bind ran
  · exact holds.identifier failed
  · obtain ⟨walks, gives⟩ := holds.identifier start
    obtain ⟨walks', ended⟩ := second name mid outcome after gives rest
    refine ⟨walks.trans walks', ?_⟩
    cases outcome with
    | error error => exact ended
    | ok value => exact ⟨ended.drafts, Nat.le_of_succ_le ended.moved, ended.made⟩

theorem drafts_formal : Drafts formal fun id => [id] := by
  refine .anchored fun source base => .read onlyReads_intent fun intent => .identifier fun name => ?_
  refine .collect (drafts_afterSymbol _ drafts_typeExpression) fun type => ?_
  refine .collect (drafts_afterSymbol _ drafts_expression) fun init => ?_
  exact draftsFrom_store rfl (by simp [Node.children, Node.parts, Node.members]) (.inl Nat.one_pos)

theorem drafts_formals : Drafts formals id :=
  fun source base => .read (onlyReads_expect _) fun _ =>
    drafts_listUntil .parenClose drafts_formal source base

theorem drafts_linkageName (linkage : Linkage) : Drafts (linkageName linkage) Option.toList := by
  refine fun source base => .read onlyReads_kind fun kind => ?_
  split
  · split
    · exact .pure fun _ member => member
    · exact (drafts_primary drafts_expression source base).map fun _ _ member => member
  · exact .pure fun _ member => member

end Parser

end IncrementalFrontend
