import IncrementalFrontend.Proofs.Frontend.Tracing
import IncrementalFrontend.Proofs.Incremental.Resting

/-!
Blanks behind the text of a file. In a session, a text and the text with blanks behind it are parsed
to equal trees. When the text becomes the other one, the tree is parsed again but does not change,
and nothing is computed again that depends on the tree alone.
-/
namespace IncrementalFrontend

open Frontend (Query World rules signature)

namespace Context

variable {S : Signature} {rules : Rules S} {context : Context S} {slot : Nat} {query : S.Query}
  {entry : Entry S query}

/-- Memos of the last revision are there when a new one begins. -/
theorem memo?_collected_of_isCurrent (here : context.cache.memo? slot = some ⟨query, entry⟩)
    (current : entry.IsCurrent context.revision) :
    (context.collected rules).cache.memo? slot = some ⟨query, entry⟩ := by
  unfold collected
  split
  · refine (Cache.memo?_evict_of_not_mem fun member => ?_).trans here
    obtain ⟨other, known, there, -, stale⟩ := derived_of_mem_collectable member
    cases here.symm.trans there
    exact stale current
  · exact here

end Context

/-- The linkage of a declaration is read off the tree of its file. -/
theorem Frontend.firstQueries_linkage {declaration : DeclarationKey}
    {replies : (request : signature.Request) → signature.Reply request → Prop}
    {readings : List (Reading signature)} {reports : List Diagnostic} {linkage : Linkage}
    (takes : Computation.Takes (S := signature) replies (rules.compute (.linkage declaration))
      readings reports (.ok linkage)) :
    Reading.firstQueries readings = [Query.parseFile declaration.file] := by
  change Computation.Takes (S := signature) replies (.read (Query.parseFile declaration.file) _)
    readings reports _ at takes
  cases takes with
  | @read _ _ outcome _ _ _ takes =>
    cases outcome with
    | error error => cases takes
    | ok tree =>
      cases takes
      rfl

namespace Session

variable {session before edited after later : Session} {key : FileKey} {slot : Nat} {path : Name}
  {contents : FileContents}

theorem Regular.accounted (regular : session.Regular) :
    Cache.Accounted (S := signature) (.plain rules) session.revision session.cache :=
  (Context.Reachable.sound_plain regular.reachable).accounted

/-- What can happen to a session within a revision, if nothing is set and nothing collected. -/
inductive Use : Session → Session → Prop
  | intern (session : Session) (text : String) : Use session (session.intern text).2
  | request (session : Session) (query : Query) : query.IsKnown session.names →
      Use session (session.request query).2
  | hold (session : Session) (handles : List Nat) : Use session { session with handles }
  | report (session : Session) (diagnostic : Diagnostic) :
      Use session (Context.report (S := signature) session diagnostic)
  | takeDiagnostics (session : Session) :
      Use session (Context.takeDiagnostics (S := signature) session).2
  | world (session : Session) (change : World → World) :
      (change session.world).names = session.names → Use session (session.updateWorld change)

theorem Use.step (use : session.Use after) : session.Step after := by
  cases use with
  | intern text => exact .intern session text
  | request query known => exact .request session query known
  | hold handles => exact .hold session handles
  | report diagnostic => exact .report session diagnostic
  | takeDiagnostics => exact .takeDiagnostics session
  | world change same => exact .world session change same

structure Advances (before after : Session) : Prop where
  changes : Cache.Changes (S := signature) (.plain rules) before.revision [] before.cache
    before.nextIdentity after.cache after.nextIdentity
  revision : after.revision = before.revision

theorem Advances.refl (session : Session) : Advances session session :=
  ⟨.refl, rfl⟩

theorem Advances.trans (first : before.Advances edited) (second : edited.Advances after) :
    before.Advances after where
  changes := first.changes.trans (first.revision ▸ second.changes)
  revision := second.revision.trans first.revision

theorem Advances.memo?_of_isCurrent (advances : before.Advances after) (regular : before.Regular)
    {query : Query} {entry : Entry signature query}
    (here : before.cache.memo? slot = some ⟨query, entry⟩) (current : entry.IsCurrent before.revision) :
    after.cache.memo? slot = some ⟨query, entry⟩ :=
  (advances.changes.grows regular.accounted).memo?_of_isCurrent here current

theorem Regular.advances (regular : session.Regular) {query : Query}
    {outcome : Except QueryError (Shared query.Value)}
    (requested : session.request query = (outcome, after)) : session.Advances after := by
  obtain ran | ⟨-, rfl⟩ := run_of_request requested
  · have answered := (Context.meets_request (S := signature)
      (Context.Reachable.sound_plain regular.reachable) trivial).2 _ _ ran
    exact ⟨answered.changes.within List.nil_suffix, answered.revision⟩
  · exact .refl after

theorem Use.advances (use : session.Use after) (regular : session.Regular) :
    session.Advances after := by
  cases use with
  | intern => exact ⟨.refl, rfl⟩
  | request query known => exact regular.advances rfl
  | hold => exact ⟨.refl, rfl⟩
  | report diagnostic =>
    unfold Context.report
    split
    · exact ⟨.refl, rfl⟩
    · exact ⟨.refl, rfl⟩
  | takeDiagnostics => exact ⟨.refl, rfl⟩
  | world => exact ⟨.refl, rfl⟩

theorem advances_of_uses (uses : Relation.ReflTransGen Use before after) (regular : before.Regular) :
    before.Advances after ∧ after.Regular := by
  induction uses with
  | refl => exact ⟨.refl before, regular⟩
  | tail _ use ih =>
    obtain ⟨advances, regular⟩ := ih
    exact ⟨advances.trans (use.advances regular), regular.step use.step⟩

def Edits (path : Name) (contents : FileContents) (before edited : Session) : Prop :=
  edited = (before.set (.fileText path) contents).2 ∨ edited = before.advance

theorem Edits.step (edits : Edits path contents before edited) : before.Step edited := by
  obtain rfl | rfl := edits
  · exact .set before (.fileText path) contents nofun
  · exact .advance before

theorem Edits.steps (edits : Edits path contents before edited)
    (uses : Relation.ReflTransGen Use edited later) : Relation.ReflTransGen Step before later :=
  .head edits.step (Relation.ReflTransGen.mono (fun _ _ (use : Use _ _) => use.step) _ _ uses)

/-- An edit leaves all other memos of the revision. -/
theorem Edits.memo? (edits : Edits path contents before edited) (regular : before.Regular)
    {query : Query} {entry : Entry signature query}
    (here : before.cache.memo? slot = some ⟨query, entry⟩) (current : entry.IsCurrent before.revision)
    (differ : query ≠ .fileText path) : edited.cache.memo? slot = some ⟨query, entry⟩ := by
  have kept : (Context.collected (S := signature) rules before).cache.memo? slot = _ :=
    Context.memo?_collected_of_isCurrent here current
  obtain rfl | rfl := edits
  · obtain ⟨same, -⟩ | ⟨-, place, _, sets⟩ := regular.exists_sets (.fileText path) contents
    · rw [same]
      exact here
    · rw [sets.memo?, if_neg, kept]
      rintro rfl
      obtain assigned | ⟨empty, -⟩ := sets.assigned
      · exact differ (Option.some.inj ((Cache.query?_eq kept).symm.trans assigned))
      · cases kept.symm.trans empty
  · exact kept

/-- An edit makes no other memos. -/
theorem Edits.of_memo? (edits : Edits path contents before edited) (regular : before.Regular)
    {query : Query} {entry : Entry signature query}
    (here : edited.cache.memo? slot = some ⟨query, entry⟩) (differ : query ≠ .fileText path) :
    before.cache.memo? slot = some ⟨query, entry⟩ := by
  have old {slot : Nat} {memo : Memo signature}
      (here : (Context.collected (S := signature) rules before).cache.memo? slot = some memo) :
      before.cache.memo? slot = some memo := by
    unfold Context.collected at here
    split at here
    · exact (Cache.memo?_of_evict here).2
    · exact here
  obtain rfl | rfl := edits
  · obtain ⟨same, -⟩ | ⟨-, place, _, sets⟩ := regular.exists_sets (.fileText path) contents
    · rwa [same] at here
    · rw [sets.memo?] at here
      split at here
      · cases here
        exact absurd rfl differ
      · exact old here
  · exact old here

/-- A text that was known stays in its slot when it is set, and has changed in a new revision. -/
theorem Regular.exists_set_text (regular : before.Regular) {old : Entry signature (.fileText path)}
    (here : before.cache.memo? slot = some ⟨.fileText path, old⟩)
    (current : old.IsCurrent before.revision) (contents : FileContents) {edited : Session}
    (set : edited = (before.set (.fileText path) contents).2) :
    ∃ text, edited.cache.memo? slot = some ⟨.fileText path, text⟩ ∧
      text.value.map (·.value) = some contents ∧ text.verifiedAt = edited.revision ∧
      (before.revision < edited.revision → text.changedAt = edited.revision) := by
  subst set
  have sound := regular.reachable.sound.accounted.wellFormed
  obtain ⟨same, stored, isInput, unchanged⟩ | ⟨advanced, place, text, sets⟩ :=
    regular.exists_sets (.fileText path) contents
  · obtain rfl := Frontend.eq_of_isUnchanged_fileText unchanged
    obtain ⟨place, entry, there, -, value⟩ := (Cache.input?_eq_some_iff sound).mp isInput
    obtain rfl := sound.unique (Cache.query?_eq here) (Cache.query?_eq there)
    cases here.symm.trans there
    rw [same]
    exact ⟨old, here, value, current.2, fun newer => absurd newer (Nat.lt_irrefl _)⟩
  · have kept : (Context.collected (S := signature) rules before).cache.memo? slot = _ :=
      Context.memo?_collected_of_isCurrent here current
    have collected := (Context.Sound.collected (S := signature) regular.reachable.sound).1
    obtain assigned | ⟨-, absent⟩ := sets.assigned
    · obtain rfl := collected.accounted.wellFormed.unique (Cache.query?_eq kept) assigned
      refine ⟨text, (sets.memo? slot).trans (if_pos rfl), sets.value, ?_, fun _ => ?_⟩
      · exact sets.isSet.verifiedAt.trans advanced.symm
      · exact sets.isSet.changedAt.trans advanced.symm
    · exact absurd (Cache.query?_eq kept) (absent slot)

structure HasTree (session : Session) (key : FileKey) (contents : FileContents) (slot : Nat)
    (entry : Entry signature (.parseFile key)) (tree : SyntaxTree) : Prop where
  text : session.HasText key.path contents
  here : session.cache.memo? slot = some ⟨.parseFile key, entry⟩
  derived : entry.origin = .derived
  value : entry.value.map (·.value) = some tree
  now : entry.verifiedAt = session.revision

variable {entry : Entry signature (.parseFile key)} {tree : SyntaxTree} {text blanks : String}

theorem HasTree.isCurrent (tracked : before.HasTree key contents slot entry tree) :
    entry.IsCurrent before.revision :=
  Entry.isCurrent_of_map tracked.value tracked.now

theorem HasTree.parses (tracked : before.HasTree key contents slot entry tree)
    (linked : before.IsLinked key) (regular : before.Regular) :
    key.Parses before.names contents tree := by
  obtain ⟨shared, value, rfl⟩ := Option.map_eq_some_iff.mp tracked.value
  exact linked.parses regular tracked.text tracked.here tracked.derived value tracked.now

/-- After an edit the memo of the tree is there, and was verified or computed once at most. -/
theorem HasTree.exists_renewal (tracked : before.HasTree key (.ok text) slot entry tree)
    (regular : before.Regular) (edits : Edits key.path contents before edited)
    (uses : Relation.ReflTransGen Use edited later) :
    ∃ entry', later.cache.memo? slot = some ⟨.parseFile key, entry'⟩ ∧
      Cache.Renewal (S := signature) rules later.cache later.revision entry entry' := by
  have regular' := regular.step edits.step
  obtain ⟨advances, -⟩ := advances_of_uses uses regular'
  have kept := edits.memo? regular tracked.here tracked.isCurrent nofun
  rw [advances.revision]
  exact advances.changes.exists_renewal regular'.accounted kept

/-- A tree that is the same again is no change. -/
theorem recomputed_of_same {shared : Shared SyntaxTree} {revision : Revision} (frame : Frame)
    (value : entry.value.map (·.value) = some shared.value) :
    (entry.recomputed (S := signature) rules revision shared frame).changedAt = entry.changedAt := by
  obtain ⟨old, stored, same⟩ := Option.map_eq_some_iff.mp value
  have backdated : entry.isBackdated (S := signature) rules shared.value = true := by
    unfold Entry.isBackdated
    rw [stored]
    exact beq_iff_eq.mpr same
  simp [Entry.recomputed, backdated]

/-- The linkage of a declaration rests on the tree of its file, unless that changed since. -/
theorem Regular.restsOn_linkage (regular : session.Regular) {declaration : DeclarationKey}
    {place : Nat} {linkage : Entry signature (.linkage declaration)} {shared : Shared Linkage}
    (here : session.cache.memo? place = some ⟨.linkage declaration, linkage⟩)
    (derived : linkage.origin = .derived) (value : linkage.value = some shared)
    {tree : Entry signature (.parseFile declaration.file)}
    (there : session.cache.memo? slot = some ⟨.parseFile declaration.file, tree⟩)
    (order : tree.changedAt ≤ linkage.verifiedAt) :
    Cache.RestsOn (S := signature) session.cache rules slot place := by
  have accounted := regular.accounted
  obtain ⟨replies, readings, records⟩ := accounted.recorded here derived value
  have assigned := records.dependencies
  rw [Frontend.firstQueries_linkage records.takes] at assigned
  have reads : linkage.dependencies = [slot] := by
    obtain ⟨dependency, reads, found⟩ := List.map_eq_singleton_iff.mp assigned
    rw [reads, accounted.wellFormed.unique found (Cache.query?_eq there)]
  refine .memo here (by rw [value]; rfl) rfl ?_ ?_
  · intro dependency read
    obtain rfl := List.mem_singleton.mp (reads ▸ read)
    exact .root
  · intro dependency read query known there'
    obtain rfl := List.mem_singleton.mp (reads ▸ read)
    cases there.symm.trans there'
    exact order

section Edit

variable (linked : before.IsLinked key) (regular : before.Regular)
  (tracked : before.HasTree key (.ok text) slot entry tree)
  (edits : Edits key.path contents before edited) (uses : Relation.ReflTransGen Use edited later)
  (fine : (TokenList.ofText text .fresh).1.errors = []) (outside : ¬ EndsInLineComment text)
  (blank : ∀ c ∈ blanks.toList, Lexeme.isBlank c)
  (now : later.HasText key.path (.ok (text ++ blanks)))

include linked regular tracked edits uses fine outside blank now

/-- After the edit the memo of the tree has the same tree, and it did not change, though it may have
been computed again. -/
theorem exists_kept_tree :
    ∃ entry', later.cache.memo? slot = some ⟨.parseFile key, entry'⟩ ∧
      Cache.Renewal (S := signature) rules later.cache later.revision entry entry' ∧
      entry'.value.map (·.value) = some tree ∧ entry'.changedAt = entry.changedAt := by
  obtain ⟨entry', here, renewal⟩ := tracked.exists_renewal regular edits uses
  obtain ⟨linked', regular', keeps⟩ := linked.steps regular (edits.steps uses)
  refine ⟨entry', here, renewal, ?_⟩
  cases renewal with
  | kept => exact ⟨tracked.value, rfl⟩
  | verified => exact ⟨tracked.value, rfl⟩
  | recomputed shared frame =>
    have parses := linked'.parses regular' now here tracked.derived rfl rfl
    obtain rfl : shared.value = tree :=
      ((tracked.parses linked regular).mono keeps).eq_of_append_blank parses fine outside blank
    exact ⟨rfl, recomputed_of_same frame tracked.value⟩

/-- Nothing is computed again that depends on the tree alone. -/
theorem exists_reverified {place : Nat}
    (rests : Cache.RestsOn (S := signature) edited.cache rules slot place) (differ : place ≠ slot) :
    ∃ query old verifiedAt, before.cache.memo? place = some ⟨query, old⟩ ∧
      later.cache.memo? place = some ⟨query, { old with verifiedAt }⟩ := by
  have regular' := regular.step edits.step
  obtain ⟨advances, -⟩ := advances_of_uses uses regular'
  have kept := edits.memo? regular tracked.here tracked.isCurrent nofun
  obtain ⟨entry', here, -, -, same⟩ :=
    exists_kept_tree linked regular tracked edits uses fine outside blank now
  have unchanged : Cache.Unchanged (S := signature) edited.cache later.cache slot := by
    intro query old known there there'
    cases kept.symm.trans there
    cases here.symm.trans there'
    exact same
  obtain ⟨query, old, verifiedAt, there, steady, there'⟩ :=
    rests.exists_reverified advances.changes regular'.accounted unchanged differ
  refine ⟨query, old, verifiedAt, edits.of_memo? regular there ?_, there'⟩
  rintro rfl
  cases steady

/-- A request for the tree gives the same tree again, and its memo did not change. -/
theorem exists_request_of_edit :
    ∃ shared last entry', later.request (.parseFile key) = (.ok shared, last) ∧
      shared.value = tree ∧ last.cache.memo? slot = some ⟨.parseFile key, entry'⟩ ∧
      entry'.verifiedAt = last.revision ∧ entry'.changedAt = entry.changedAt := by
  obtain ⟨linked', regular', -⟩ := linked.steps regular (edits.steps uses)
  obtain ⟨entry', here, renewal, -, -⟩ :=
    exists_kept_tree linked regular tracked edits uses fine outside blank now
  have derived := renewal.origin.trans tracked.derived
  have free : Cache.input? (S := signature) later.cache (.parseFile key) = none := by
    simp [Cache.input?, linked'.wellFormed.find?_eq here, derived]
  obtain ⟨shared, last, place, known, requested, there, value, verified, -⟩ :=
    linked'.exists_request_parseFile regular' now free
  have advances := regular'.advances requested
  have use := Use.request later (.parseFile key) (Query.isKnown_parseFile key later.names)
  rw [requested] at use
  have grows := advances.changes.grows regular'.accounted
  obtain ⟨entry', here, -, same, unchanged⟩ := exists_kept_tree linked regular tracked edits
    (uses.tail use) fine outside blank (now.grow grows advances.revision)
  have sound := (regular'.step use.step).reachable.sound.accounted.wellFormed
  obtain rfl := sound.unique (Cache.query?_eq here) (Cache.query?_eq there)
  cases here.symm.trans there
  rw [value] at same
  exact ⟨shared, last, known, requested, Option.some.inj same, here,
    verified.trans advances.revision.symm, unchanged⟩

end Edit

section Set

variable (regular : before.Regular) (tracked : before.HasTree key (.ok text) slot entry tree)
  (uses : Relation.ReflTransGen Use (before.set (.fileText key.path) contents).2 later)

include regular tracked uses

theorem exists_text_of_set : ∃ place old, before.cache.memo? place = some ⟨.fileText key.path, old⟩ ∧
    ∃ text, later.cache.memo? place = some ⟨.fileText key.path, text⟩ ∧
      text.value.map (·.value) = some contents ∧ text.verifiedAt = later.revision ∧
      (before.revision < later.revision → text.changedAt = later.revision) := by
  obtain ⟨place, old, there, known, now⟩ := tracked.text
  obtain ⟨text, there', known', now', changed⟩ :=
    regular.exists_set_text there (Entry.isCurrent_of_map known now) contents rfl
  have edits : Edits key.path contents before (before.set (.fileText key.path) contents).2 := .inl rfl
  have regular' := regular.step edits.step
  obtain ⟨advances, -⟩ := advances_of_uses uses regular'
  have kept := advances.memo?_of_isCurrent regular' there' (Entry.isCurrent_of_map known' now')
  refine ⟨place, old, there, text, kept, known', now'.trans advances.revision.symm, ?_⟩
  rw [advances.revision]
  exact changed

/-- In the revision of the edit the tree is parsed once more. -/
theorem executions_eq_of_set (linked : before.IsLinked key) (newer : before.revision < later.revision)
    {entry' : Entry signature (.parseFile key)}
    (here : later.cache.memo? slot = some ⟨.parseFile key, entry'⟩)
    (now : entry'.verifiedAt = later.revision) : entry'.executions = entry.executions + 1 := by
  have edits : Edits key.path contents before (before.set (.fileText key.path) contents).2 := .inl rfl
  obtain ⟨_, here', renewal⟩ := tracked.exists_renewal regular edits uses
  cases here.symm.trans here'
  cases renewal with
  | kept => exact absurd (tracked.now.symm.trans now) (Nat.ne_of_lt newer)
  | recomputed => rfl
  | verified _ _ checked =>
    -- The tree depends on the text, which has changed since it was verified.
    obtain ⟨place, old, there, text, there', -, -, changed⟩ :=
      exists_text_of_set regular tracked uses
    obtain ⟨shared, value, -⟩ := Option.map_eq_some_iff.mp tracked.value
    obtain ⟨place', _, _, reads, there'', -⟩ := linked.traces tracked.here tracked.derived value
    obtain rfl := linked.wellFormed.unique (Cache.query?_eq there) (Cache.query?_eq there'')
    obtain ⟨_, known, known', -, unchanged⟩ :=
      checked tracked.derived place (reads ▸ List.mem_singleton_self place)
    cases there'.symm.trans known'
    rw [changed newer, tracked.now] at unchanged
    exact absurd unchanged (Nat.not_le.mpr newer)

end Set

/-- What an edit leaves as it was although the text of a file changed: the tree and its last change,
all other memos that are up to date, and, however the revision goes on, all that depends on the tree
alone. -/
structure Backdates (before edited later : Session) (key : FileKey) (slot : Nat)
    (entry : Entry signature (.parseFile key)) (tree : SyntaxTree) : Prop where
  answered : ∃ shared last entry', later.request (.parseFile key) = (.ok shared, last) ∧
    shared.value = tree ∧ last.cache.memo? slot = some ⟨.parseFile key, entry'⟩ ∧
    entry'.verifiedAt = last.revision ∧ entry'.changedAt = entry.changedAt
  kept : ∀ place query (old : Entry signature query), query ≠ Query.fileText key.path →
    before.cache.memo? place = some ⟨query, old⟩ → old.IsCurrent before.revision →
    edited.cache.memo? place = some ⟨query, old⟩
  resting : ∀ place, Cache.RestsOn (S := signature) edited.cache rules slot place → place ≠ slot →
    ∃ query old verifiedAt, before.cache.memo? place = some ⟨query, old⟩ ∧
      later.cache.memo? place = some ⟨query, { old with verifiedAt }⟩

/-- Blanks behind a text that lexes without errors and does not end in a line comment never change
its tree. In one session the text with the blanks and without are parsed to equal trees, in either
order, and so are two texts that a file has one after the other. When the text of a file becomes the
other one, the tree is as it was and its memo has not changed, and no memo of a query that depends
on the tree alone is computed again. -/
theorem trailing_blanks_are_backdated {first : Session} (reached : first.IsReached)
    (known : key.IsKnown first.names)
    (absent : ∀ slot, first.cache.query? slot ≠ some (.parseFile key))
    (steps : Relation.ReflTransGen Step first before)
    (tracked : before.HasTree key (.ok text) slot entry tree)
    (fine : (TokenList.ofText text .fresh).1.errors = []) (outside : ¬ EndsInLineComment text)
    (blank : ∀ c ∈ blanks.toList, Lexeme.isBlank c) :
    (∀ names later, key.IsKnown names →
      ((key.parsed (.ok text) names).2.Keeps later →
        (key.parsed (.ok (text ++ blanks)) later).1.tree = (key.parsed (.ok text) names).1.tree) ∧
      ((key.parsed (.ok (text ++ blanks)) names).2.Keeps later →
        (key.parsed (.ok text) later).1.tree = (key.parsed (.ok (text ++ blanks)) names).1.tree)) ∧
    (∀ later, Relation.ReflTransGen Step before later →
      later.HasText key.path (.ok (text ++ blanks)) →
      Cache.input? (S := signature) later.cache (.parseFile key) = none →
      ∃ shared last, later.request (.parseFile key) = (.ok shared, last) ∧ shared.value = tree) ∧
    (∀ edited later, Edits key.path (.ok (text ++ blanks)) before edited →
      Relation.ReflTransGen Use edited later → later.HasText key.path (.ok (text ++ blanks)) →
      Backdates before edited later key slot entry tree) ∧
    ∀ later,
      Relation.ReflTransGen Use (before.set (.fileText key.path) (.ok (text ++ blanks))).2 later →
      later.HasText key.path (.ok (text ++ blanks)) ∧
      (before.revision < later.revision → ∀ entry',
        later.cache.memo? slot = some ⟨.parseFile key, entry'⟩ →
        entry'.verifiedAt = later.revision → entry'.executions = entry.executions + 1) := by
  obtain ⟨linked, regular, -⟩ :=
    (IsLinked.of_absent reached.regular known absent).steps reached.regular steps
  refine ⟨fun names later known => ⟨?_, ?_⟩, ?_, ?_, ?_⟩
  · exact FileKey.tree_parsed_append_blank known fine outside blank
  · exact FileKey.tree_parsed_of_append_blank known fine outside blank
  · intro later steps now free
    obtain ⟨linked', regular', keeps⟩ := linked.steps regular steps
    obtain ⟨shared, last, -, -, requested, -, -, -, parses⟩ :=
      linked'.exists_request_parseFile regular' now free
    have known' := Query.isKnown_parseFile key later.names
    have keeps' := (regular'.request known' requested).2
    refine ⟨shared, last, requested, ?_⟩
    exact ((tracked.parses linked regular).mono (keeps.trans keeps')).eq_of_append_blank parses fine
      outside blank
  · intro edited later edits uses now
    exact ⟨exists_request_of_edit linked regular tracked edits uses fine outside blank now,
      fun _ _ _ differ here current => edits.memo? regular here current differ,
      fun _ => exists_reverified linked regular tracked edits uses fine outside blank now⟩
  · intro later uses
    obtain ⟨place, -, -, text, there, known, now, -⟩ :=
      exists_text_of_set regular tracked uses
    exact ⟨⟨place, text, there, known, now⟩, fun newer _ here now =>
      executions_eq_of_set regular tracked uses linked newer here now⟩

end Session

namespace Trailing

@[irreducible] def start : Session :=
  .start (fun _ => .error "no files") false

def named : Session :=
  (start.intern "mem/test1.chpl").2

def key : FileKey :=
  ⟨(start.intern "mem/test1.chpl").1, .empty⟩

def asked : Session :=
  (((named.set (.fileText key.path) (.ok "proc f() { }")).2.request (.parseFile key)).2.request
    (.linkage ⟨key, 0⟩)).2

def edited : Session :=
  (asked.set (.fileText key.path) (.ok ("proc f() { }" ++ "  "))).2

theorem isReached_named : named.IsReached := by
  have begun : start.IsReached := by
    unfold start
    exact ⟨_, _, .refl⟩
  exact begun.step (.intern start "mem/test1.chpl")

theorem regular_of_steps {session : Session}
    (steps : Relation.ReflTransGen Session.Step named session) : session.Regular := by
  obtain ⟨files, collects, leads⟩ := isReached_named
  exact Session.IsReached.regular ⟨files, collects, leads.trans steps⟩

theorem steps_asked : Relation.ReflTransGen Session.Step named asked := by
  have set := Session.Step.set named (.fileText key.path) (.ok "proc f() { }") nofun
  have parsed := Session.Step.request (named.set (.fileText key.path) (.ok "proc f() { }")).2
    (.parseFile key) nofun
  have linked := Session.Step.request
    ((named.set (.fileText key.path) (.ok "proc f() { }")).2.request (.parseFile key)).2
    (.linkage ⟨key, 0⟩) nofun
  exact ((Relation.ReflTransGen.single set).tail parsed).tail linked

theorem isKnown_key : key.IsKnown named.names where
  path := ⟨"mem/test1.chpl", start.names.find?_intern _⟩
  parent := ⟨"", isReached_named.regular.empty⟩

theorem query?_named (slot : Nat) (query : Query) : named.cache.query? slot ≠ some query := by
  have kept (session : Session) (text : String) : (session.intern text).2.cache = session.cache := rfl
  have empty : named.cache = Cache.empty := by
    unfold named
    rw [kept]
    unfold start
    rfl
  have none : (Cache.empty : Cache signature).query? slot = none :=
    congrArg (Option.map (·.query)) (Cache.memo?_empty slot)
  rw [empty, none]
  exact nofun

theorem exists_hasTree_asked :
    ∃ entry tree, asked.HasTree key (.ok "proc f() { }") 1 entry tree := by
  have regular := regular_of_steps steps_asked
  have sound := regular.reachable.sound.accounted.wellFormed
  have texts : (Cache.input? (S := signature) asked.cache (.fileText key.path)).any
      (Query.isUnchanged (.fileText key.path) (.ok "proc f() { }")) := by decide +kernel
  obtain ⟨_, isInput, unchanged⟩ := Option.any_eq_true _ _ |>.mp texts
  obtain rfl := Frontend.eq_of_isUnchanged_fileText unchanged
  obtain ⟨place, text, there, -, known⟩ := (Cache.input?_eq_some_iff sound).mp isInput
  have current : asked.cache.find? (.fileText key.path) |>.any
      (fun found => found.2.verifiedAt == asked.revision) := by
    decide +kernel
  rw [sound.find?_eq there] at current
  have assigned : asked.cache.query? 1 = some (.parseFile key) := by decide +kernel
  have computed : asked.cache.find? (.parseFile key) |>.any (fun found =>
      found.2.origin == .derived && found.2.value.isSome &&
        found.2.verifiedAt == asked.revision) := by
    decide +kernel
  obtain ⟨entry, here⟩ := Cache.memo?_of_query? assigned
  rw [sound.find?_eq here] at computed
  simp only [Option.any_some, Bool.and_eq_true, beq_iff_eq] at current computed
  obtain ⟨⟨derived, value⟩, now⟩ := computed
  obtain ⟨shared, value⟩ := Option.isSome_iff_exists.mp value
  have same : entry.value.map (·.value) = some shared.value := by rw [value]; rfl
  exact ⟨entry, shared.value, ⟨place, text, there, known, current⟩, here, derived, same, now⟩

theorem restsOn_edited : Cache.RestsOn (S := signature) edited.cache rules 1 2 := by
  have set := Session.Step.set asked (.fileText key.path) (.ok ("proc f() { }" ++ "  ")) nofun
  have steps := steps_asked.tail set
  have regular := regular_of_steps steps
  have assigned : edited.cache.query? 2 = some (.linkage ⟨key, 0⟩) := by decide +kernel
  have assigned' : edited.cache.query? 1 = some (.parseFile key) := by decide +kernel
  have earlier : edited.cache.find? (.linkage ⟨key, 0⟩) |>.any (fun found =>
      found.2.origin == .derived && found.2.value.isSome &&
        (edited.cache.find? (.parseFile key)).any (·.2.changedAt ≤ found.2.verifiedAt)) := by
    decide +kernel
  obtain ⟨linkage, here⟩ := Cache.memo?_of_query? assigned
  obtain ⟨tree, there⟩ := Cache.memo?_of_query? assigned'
  have sound : edited.cache.WellFormed := regular.reachable.sound.accounted.wellFormed
  rw [sound.find?_eq here, sound.find?_eq there] at earlier
  simp only [Option.any_some, Bool.and_eq_true, beq_iff_eq, decide_eq_true_eq] at earlier
  obtain ⟨⟨derived, value⟩, order⟩ := earlier
  obtain ⟨shared, value⟩ := Option.isSome_iff_exists.mp value
  exact regular.restsOn_linkage here derived value there order

end Trailing

namespace Session

/-- The tree of a procedure is kept when two spaces are put behind it, and the linkage of the procedure
rests on it. -/
theorem trailing_blanks_are_backdated_proc : ∃ entry tree,
    Trailing.asked.HasTree Trailing.key (.ok "proc f() { }") 1 entry tree ∧
    Trailing.asked.revision < Trailing.edited.revision ∧
    Backdates Trailing.asked Trailing.edited Trailing.edited Trailing.key 1 entry tree ∧
    Cache.RestsOn (S := signature) Trailing.edited.cache rules 1 2 := by
  obtain ⟨entry, tree, tracked⟩ := Trailing.exists_hasTree_asked
  have blank : ∀ c ∈ "  ".toList, Lexeme.isBlank c := by simp [Lexeme.isBlank]
  have fine : (TokenList.ofText "proc f() { }" .fresh).1.errors = [] := by decide +kernel
  have outside : ¬ EndsInLineComment "proc f() { }" := by
    rintro ⟨lexeme, member, line, -⟩
    have none : ∀ lexeme ∈ Lexeme.scan 0 "proc f() { }".toList, lexeme.shape ≠ .lineComment := by
      decide +kernel
    exact none lexeme member line
  obtain ⟨-, -, edits, set⟩ := trailing_blanks_are_backdated Trailing.isReached_named
    Trailing.isKnown_key (Trailing.query?_named · _) Trailing.steps_asked tracked fine outside blank
  obtain ⟨text, -⟩ := set Trailing.edited .refl
  exact ⟨entry, tree, tracked, by decide +kernel, edits _ _ (.inl rfl) .refl text,
    Trailing.restsOn_edited⟩

end Session

end IncrementalFrontend
