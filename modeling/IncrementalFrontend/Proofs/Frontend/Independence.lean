import Mathlib.Logic.Relation
import IncrementalFrontend.Proofs.Frontend.Parsing
import IncrementalFrontend.Proofs.Incremental.FreshSession
import IncrementalFrontend.Proofs.Name.Interning
import IncrementalFrontend.Proofs.Types.Carries

/-!
Parsing a text does not depend on what the session did before. Two sessions of any past give the
same tree but for the handles of its names, and deliver diagnostics that read the same.
-/
namespace IncrementalFrontend

open Frontend (Query World rules signature parsing)

namespace Cache

/-- A memo that read nothing delivers its own diagnostics. -/
theorem diagnosticsBelow_of_leaf {S : Signature} {cache : Cache S} {slot : Nat} {memo : Memo S}
    (here : cache.memo? slot = some memo) (leaf : memo.entry.dependencies = []) :
    cache.diagnosticsBelow slot = .ok memo.entry.diagnostics := by
  have fresh : slot ∈ cache.liveSlots := mem_liveSlots.mpr (by rw [here]; rfl)
  have ended (unvisited : List Nat) : cache.deliveries unvisited [] = .ok [] := by
    rw [deliveries]
  unfold diagnosticsBelow
  rw [deliveries_visit here fresh, leaf, List.map_nil, List.nil_append, deliveries_deliver here, ended]
  exact congrArg Except.ok (List.append_nil _)

end Cache

def Frontend.Query.IsKnown (query : Query) (names : Interner) : Prop :=
  ∀ key, query = .parseString key → key.IsKnown names

theorem Frontend.Query.isKnown_parseFile (key : FileKey) (names : Interner) :
    Query.IsKnown (.parseFile key) names := by
  rintro _ ⟨⟩

namespace Session

/-- What can happen to a session. The world may change but for the names, and whatever is requested
or set mentions names that the session gave. -/
inductive Step : Session → Session → Prop
  | intern (session : Session) (text : String) : Step session (session.intern text).2
  | request (session : Session) (query : Query) : query.IsKnown session.names →
      Step session (session.request query).2
  | set (session : Session) (query : Query) (value : query.Value) : query.IsKnown session.names →
      Step session (session.set query value).2
  | advance (session : Session) : Step session session.advance
  | collectGarbage (session : Session) : Step session session.collectGarbage.2
  | hold (session : Session) (handles : List Nat) : Step session { session with handles }
  | report (session : Session) (diagnostic : Diagnostic) :
      Step session (Context.report (S := signature) session diagnostic)
  | takeDiagnostics (session : Session) :
      Step session (Context.takeDiagnostics (S := signature) session).2
  | world (session : Session) (change : World → World) :
      (change session.world).names = session.names → Step session (session.updateWorld change)

def IsReached (session : Session) : Prop :=
  ∃ files collects, Relation.ReflTransGen Step (.start files collects) session

structure Regular (session : Session) : Prop where
  reachable : session.IsReachable
  holds : Upkeep.Holds (S := signature) parsing session
  empty : session.names.find? "" = some .empty

variable {session later : Session} {key : StringKey} {slot : Nat}

theorem Regular.knows (regular : session.Regular) {query : Query}
    (known : query.IsKnown session.names) : parsing.knows session.world query :=
  ⟨regular.empty, known⟩

theorem Regular.idle (regular : session.Regular) : session.active = [] :=
  Context.Sound.active_eq (S := signature) regular.reachable.sound

theorem regular_start (files : String → FileContents) (collects : Bool) :
    (Session.start files collects).Regular where
  reachable := ⟨World.start files, collects, .refl⟩
  holds slot memo here := by
    cases (Cache.memo?_empty (S := signature) slot).symm.trans here
  empty := by
    unfold Session.names Session.start Context.start World.start
    dsimp only
    exact Interner.find?_fresh_empty

theorem Regular.run (regular : session.Regular) {query : Query} (known : query.IsKnown session.names)
    {depth : Nat} {outcome : Except QueryError (Shared query.Value)}
    (ran : Run.request (S := signature) rules depth query session = some (outcome, later)) :
    later.Regular ∧ session.names.Keeps later.names := by
  obtain ⟨keeps, holds, -⟩ := Upkeep.Holds.request regular.holds parsing.foresees_self
    (regular.knows known) regular.idle ran
  exact ⟨⟨regular.reachable.step (.request ran), holds, keeps _ _ regular.empty⟩, keeps⟩

theorem Regular.request (regular : session.Regular) {query : Query}
    (known : query.IsKnown session.names) {outcome : Except QueryError (Shared query.Value)}
    (requested : session.request query = (outcome, later)) :
    later.Regular ∧ session.names.Keeps later.names := by
  obtain ran | ⟨-, rfl⟩ := run_of_request requested
  · exact regular.run known ran
  · exact ⟨regular, .refl _⟩

/-- The session is regular with more names, whatever else of its world changes. -/
theorem Regular.grow (regular : session.Regular) {world : World}
    (keeps : session.names.Keeps world.names) : Regular { session with world } where
  reachable := regular.reachable.step (.drift _ _ trivial)
  holds := Upkeep.Holds.grow (S := signature) regular.holds keeps
  empty := keeps _ _ regular.empty

theorem Regular.step (regular : session.Regular) (step : session.Step later) : later.Regular := by
  obtain ⟨reachable, holds, empty⟩ := regular
  cases step with
  | intern text => exact Regular.grow ⟨reachable, holds, empty⟩ (session.names.keeps_intern text)
  | request query known => exact (Regular.request ⟨reachable, holds, empty⟩ known rfl).1
  | set query value known =>
    have world : (session.set query value).2.world = session.world :=
      Upkeep.world_setInput (S := signature) rules session value
    have set := Context.Reachable.setInput (S := signature) reachable (fun _ => trivial) query value
    refine ⟨set, Upkeep.Holds.setInput holds ⟨empty, known⟩ value, ?_⟩
    exact (congrArg (fun world : World => world.names.find? "") world).trans empty
  | advance =>
    have world : session.advance.world = session.world :=
      Upkeep.world_advance (S := signature) rules session
    refine ⟨reachable.step (.advance _ _), Upkeep.Holds.advance holds, ?_⟩
    exact (congrArg (fun world : World => world.names.find? "") world).trans empty
  | collectGarbage =>
    exact ⟨reachable.step (.collectGarbage _), Upkeep.Holds.collectGarbage holds, empty⟩
  | hold handles => exact ⟨reachable.step (.hold _ _), holds, empty⟩
  | report diagnostic =>
    have idle := Context.Sound.active_eq (S := signature) reachable.sound
    have reported : Context.report (S := signature) session diagnostic =
        { session with sink := session.sink.report diagnostic } := by
      simp [Context.report, idle, Context.addToFrames]
    have reachable := reachable.step (.report _ diagnostic)
    rw [reported] at reachable ⊢
    exact ⟨reachable, holds, empty⟩
  | takeDiagnostics => exact ⟨reachable.step (.takeDiagnostics _), holds, empty⟩
  | world change same =>
    have keeps : session.names.Keeps (change session.world).names := by
      rw [same]
      exact .refl _
    exact Regular.grow ⟨reachable, holds, empty⟩ keeps

theorem IsReached.regular (reached : session.IsReached) : session.Regular := by
  obtain ⟨files, collects, leads⟩ := reached
  induction leads with
  | refl => exact regular_start files collects
  | tail _ step ih => exact ih.step step

theorem IsReached.step (reached : session.IsReached) (step : session.Step later) : later.IsReached := by
  obtain ⟨files, collects, leads⟩ := reached
  exact ⟨files, collects, leads.tail step⟩

/-- The tree of a text was not set from outside. -/
def IsFree (session : Session) (key : StringKey) : Prop :=
  Cache.input? (S := signature) session.cache (.parseString key) = none

theorem IsFree.derived (free : session.IsFree key) (sound : session.cache.WellFormed)
    {entry : Entry signature (.parseString key)} {shared : Shared SyntaxTree}
    (here : session.cache.memo? slot = some ⟨.parseString key, entry⟩)
    (value : entry.value = some shared) : entry.origin = .derived :=
  Cache.derived_of_input?_eq_none (S := signature) sound free here value

/-- A request for the tree of a text is answered, whether from a memo or not. -/
theorem Regular.exists_fetch (regular : session.Regular) (free : session.IsFree key) (depth : Nat) :
    ∃ slot shared after, Run.fetch (S := signature) rules (depth + 1) (.parseString key) session =
      some (.ok (slot, shared), after) := by
  have sound : session.cache.WellFormed := regular.reachable.sound.accounted.wellFormed
  have idle := regular.idle
  cases found : session.cache.find? (.parseString key) with
  | none =>
    let inserted := session.cache.insert (.parseString key) .derived session.revision
    have here := sound.memo?_insert_self (.parseString key) .derived session.revision
    obtain ⟨shared, after, executed⟩ := Frontend.exists_execute_parseString (Run.fetch rules depth)
      { session with cache := inserted.2 } idle here
    have starts : Run.Starts (S := signature) rules (Run.fetch rules depth) (.parseString key)
      session _ _ := .new found
    exact ⟨_, shared, after, starts.answer_eq.trans executed⟩
  | some result =>
    obtain ⟨slot, entry⟩ := result
    have here := Cache.memo?_of_find? found
    cases value : entry.value with
    | none =>
      obtain ⟨shared, after, executed⟩ :=
        Frontend.exists_execute_parseString (Run.fetch rules depth) session idle here
      have starts : Run.Starts (S := signature) rules (Run.fetch rules depth) (.parseString key)
        session _ _ := .unset found value
      exact ⟨_, shared, after, starts.answer_eq.trans executed⟩
    | some shared =>
      by_cases current : entry.verifiedAt = session.revision
      · exact ⟨_, _, _, Run.answer_eq_of_current found value current⟩
      have derived := free.derived sound here value
      have leaf : entry.dependencies = [] := ((regular.holds slot _ here).holds derived shared value).1
      have older : Run.HasOlder (S := signature) session (.parseString key) slot entry :=
        ⟨found, by rw [value]; rfl, current, derived⟩
      have checked : Run.areUnchanged (S := signature) (Run.fetch rules depth) entry.verifiedAt
          entry.dependencies (Context.pushFrame (S := signature) session slot .validating) =
            some (.ok true, Context.pushFrame (S := signature) session slot .validating) := by
        rw [leaf]
        rfl
      exact ⟨_, _, _, Run.answer_eq_of_checked older value rfl
        (Context.cycle?_of_idle rules idle slot) checked rfl⟩

/-- A request for the tree of a text gives what the text is parsed to, and delivers the diagnostics. -/
theorem Regular.exists_request (regular : session.Regular) (free : session.IsFree key)
    (known : key.IsKnown session.names) :
    ∃ shared later diagnostics, session.request (.parseString key) = (.ok shared, later) ∧
      later.sink = session.sink.append diagnostics ∧ session.names.Keeps later.names ∧
      later.Regular ∧ key.Parses later.names shared.value diagnostics := by
  have sound := regular.reachable.sound
  have known : Query.IsKnown (.parseString key) session.names := by
    rintro _ ⟨⟩
    exact known
  obtain ⟨slot, shared, middle, fetched⟩ := regular.exists_fetch free
    (session.cache.slots.size + 4 * World.scriptSize session.world + 7)
  obtain ⟨_, ran⟩ := Context.exists_request_eq (S := signature) sound trivial fetched
  obtain ⟨regular', keeps⟩ := regular.run known ran
  have answered := (Context.meets_request sound trivial).2 _ _ ran
  obtain ⟨slot, entry, diagnostics, here, value, -, delivered, sink⟩ := answered.ok shared rfl
  have derived : entry.origin = .derived := by
    refine IsFree.derived ?_ answered.sound.accounted.wellFormed here value
    exact (congrFun answered.cache.input? _).trans free
  obtain ⟨leaf, parses⟩ := (regular'.holds slot _ here).holds derived shared value
  obtain rfl : entry.diagnostics = diagnostics :=
    Except.ok.inj ((Cache.diagnosticsBelow_of_leaf here leaf).symm.trans delivered)
  exact ⟨shared, _, _, request_of_run ran, sink, keeps, regular', parses⟩

/-- A request sets nothing. -/
theorem IsFree.request (free : session.IsFree key) (regular : session.Regular) {query : Query}
    {outcome : Except QueryError (Shared query.Value)}
    (requested : session.request query = (outcome, later)) : later.IsFree key := by
  obtain ran | ⟨-, rfl⟩ := run_of_request requested
  · have answered := (Context.meets_request regular.reachable.sound trivial).2 _ _ ran
    exact (congrFun answered.cache.input? _).trans free
  · exact free

/-- A parse does not depend on what a session did before. Whatever two sessions interned, parsed, set
or collected, and whether they compute the tree of a text or have it from a memo, they answer with
trees and deliver diagnostics that are the same but for the handles of equal names, so the outline,
the symbol path and the report read the same. Only a tree that was set from outside is no parse. -/
theorem parse_independent {session session' : Session} (reached : session.IsReached)
    (reached' : session'.IsReached) {label parent text : String} {key key' : StringKey}
    (spells : key.Spells session.names label parent text)
    (spells' : key'.Spells session'.names label parent text)
    (free : session.IsFree key) (free' : session'.IsFree key') :
    ∃ shared later diagnostics shared' later' diagnostics',
      session.request (.parseString key) = (.ok shared, later) ∧
      later.sink = session.sink.append diagnostics ∧
      session'.request (.parseString key') = (.ok shared', later') ∧
      later'.sink = session'.sink.append diagnostics' ∧
      (Likeness.byText later.names later'.names).Parses ⟨shared.value, diagnostics⟩
        ⟨shared'.value, diagnostics'⟩ ∧
      shared.value.outline later.names = shared'.value.outline later'.names ∧
      shared.value.unit.symbolPath later.names = shared'.value.unit.symbolPath later'.names ∧
      ∀ style, Terminal.showReport style later.names diagnostics =
        Terminal.showReport style later'.names diagnostics' := by
  obtain ⟨shared, later, diagnostics, requested, sink, keeps, regular, parses⟩ :=
    reached.regular.exists_request free spells.isKnown
  obtain ⟨shared', later', diagnostics', requested', sink', keeps', regular', parses'⟩ :=
    reached'.regular.exists_request free' spells'.isKnown
  have same := parses.renamed (spells.mono keeps) (spells'.mono keeps') parses'
  exact ⟨shared, later, diagnostics, shared', later', diagnostics', requested, sink, requested', sink',
    same, same.tree.outline_eq, same.tree.symbolPath_eq regular.empty regular'.empty,
    fun style => Likeness.showReport_eq style same.diagnostics⟩

/-- One session is new. The other one interned a name of the same shard first, so that the label has
another handle there, and asked for the tree before. -/
theorem parse_independent_of_earlier_request :
    ∃ (session earlier session' : Session) (key key' : StringKey) (text : String),
      key.label ≠ key'.label ∧ session' = (earlier.request (.parseString key')).2 ∧
      session.IsReached ∧ session'.IsReached ∧
      key.Spells session.names "a" "" text ∧ key'.Spells session'.names "a" "" text ∧
      session.IsFree key ∧ session'.IsFree key' ∧
      ∃ shared later shared' later', session.request (.parseString key) = (.ok shared, later) ∧
        session'.request (.parseString key') = (.ok shared', later') ∧
        shared.value.outline later.names = shared'.value.outline later'.names := by
  let files : String → FileContents := fun _ => .error "no files"
  have start : IsReached (.start files false) := ⟨files, false, .refl⟩
  have free (key : StringKey) : (Session.start files false).IsFree key := rfl
  have differs : ((Session.start files false).intern "a").1 ≠
      (((Session.start files false).intern "q").2.intern "a").1 := by decide +kernel
  generalize Session.start files false = first at start free differs
  have named := start.step (.intern first "a")
  have named' := (start.step (.intern first "q")).step (.intern _ "a")
  let key : StringKey := ⟨(first.intern "a").1, .empty, "module m { var x = 1; return x + }"⟩
  let key' : StringKey := { key with label := ((first.intern "q").2.intern "a").1 }
  have spells : key.Spells (first.intern "a").2.names "a" "" key.text :=
    ⟨first.names.find?_intern "a", named.regular.empty, rfl⟩
  have spells' : key'.Spells ((first.intern "q").2.intern "a").2.names "a" "" key.text :=
    ⟨(first.intern "q").2.names.find?_intern "a", named'.regular.empty, rfl⟩
  have free' : ((first.intern "q").2.intern "a").2.IsFree key' := free key'
  generalize ((first.intern "q").2.intern "a").2 = earlier at named' spells' free'
  have known : Query.IsKnown (.parseString key') earlier.names := by
    rintro _ ⟨⟩
    exact spells'.isKnown
  have reached' : (earlier.request (.parseString key')).2.IsReached :=
    named'.step (.request earlier _ known)
  rcases asked : earlier.request (.parseString key') with ⟨outcome, session'⟩
  rw [asked] at reached'
  have spells' := spells'.mono (named'.regular.request known asked).2
  have free' := free'.request named'.regular asked
  obtain ⟨shared, later, _, shared', later', _, requested, -, requested', -, -, outline, -⟩ :=
    parse_independent named reached' spells spells' (free key) free'
  exact ⟨_, earlier, session', key, key', key.text, differs, congrArg Prod.snd asked.symm, named,
    reached', spells, spells', free key, free', shared, later, shared', later', requested, requested',
    outline⟩

end Session

end IncrementalFrontend
