import IncrementalFrontend.Frontend.Rules
import IncrementalFrontend.Proofs.Incremental.Stored

/-!
What the queries of the front end read. A property that all steps of computations have holds of every
query: no computation requests a type that mentions other types. A composite type is made of its
description alone.
-/
namespace IncrementalFrontend

namespace Frontend

def Query.MentionsNone (query : Query) : Prop :=
  query.references = []

theorem returns_composite (type : Composite) :
    Rules.Returns (S := signature) rules (.composite type) type :=
  ⟨rfl, rfl⟩

namespace Compute

/-- A property of computations that all their steps have. The trees of texts stand apart: a script
requests them under a name that it interned before. -/
structure Closed (holds : {α : Type} → Compute α → Prop) : Prop where
  pure {α : Type} (result : α) : holds (pure result : Compute α)
  fail {α : Type} (error : QueryError) : holds (.fail error : Compute α)
  bind {α β : Type} {computation : Compute α} {next : α → Compute β} :
    holds computation → (∀ result, holds (next result)) → holds (computation >>= next)
  orElse {α : Type} {first second : Compute α} :
    holds first → holds second → holds (Computation.orElse (S := signature) first second)
  world (request : Request) : holds (world request)
  tell (diagnostic : Diagnostic) : holds (Computation.tell (S := signature) diagnostic)
  query {query : Query} : query.MentionsNone → (∀ key, query ≠ .parseString key) →
    holds (Compute.query query)
  nodes (label text : String) : holds (script (.nodes label text))

namespace Closed

variable {holds : {α : Type} → Compute α → Prop} (closed : Closed holds)

include closed

theorem parse (unit : SourceUnit) (text : String) : holds (parse unit text) := by
  have told (diagnostics : List Diagnostic) :
      holds (diagnostics.forM (Computation.tell (S := signature))) := by
    induction diagnostics with
    | nil => exact closed.pure _
    | cons diagnostic rest ih => exact closed.bind (closed.tell diagnostic) fun _ => ih
  exact closed.bind (closed.world _) fun parsed =>
    closed.bind (told parsed.diagnostics) fun _ => closed.pure _

theorem parseFile (key : FileKey) : holds (parseFile key) := by
  refine closed.bind (closed.query rfl nofun) fun contents =>
    closed.bind (closed.world _) fun unit => ?_
  cases contents with
  | ok text => exact closed.parse unit text
  | error message => exact closed.bind (closed.tell _) fun _ => closed.pure _

theorem composite (kind : CompositeKind) (declaration : DeclarationKey) (name : Name) :
    holds (composite kind declaration name) :=
  closed.bind (closed.query rfl nofun) fun _ => closed.query rfl nofun

theorem topLevelFile (path : String) : holds (topLevelFile path) :=
  closed.bind (closed.world _) fun _ => closed.pure _

mutual

theorem script : (script : Script) → holds (Compute.script script)
  | .literal value => closed.pure value
  | .query kind key => closed.query rfl nofun
  | .external key => closed.world _
  | .add parts => closed.bind (scripts parts) fun _ => closed.pure _
  | .multiply parts => closed.bind (scripts parts) fun _ => closed.pure _
  | .remainder dividend divisor =>
    closed.bind (script dividend) fun _ => closed.bind (script divisor) fun _ => closed.pure _
  | .sequence parts => closed.bind (scripts parts) fun _ => closed.pure _
  | .choose condition whenNonzero whenZero => by
    refine closed.bind (script condition) fun value => ?_
    split
    · exact script whenNonzero
    · exact script whenZero
  | .attempt first second => closed.orElse (script first) (script second)
  | .fail error => closed.fail error
  | .isInQuery => closed.pure _
  | .report severity message =>
    closed.bind (closed.world _) fun _ => closed.bind (closed.tell _) fun _ => closed.pure _
  | .topLevel path =>
    closed.bind (closed.topLevelFile path) fun _ =>
      closed.bind (closed.query rfl nofun) fun _ => closed.pure _
  | .nodes label text => closed.nodes label text
  | .linkage path node =>
    closed.bind (closed.topLevelFile path) fun _ =>
      closed.bind (closed.query rfl nofun) fun _ => closed.pure _
  | .record path node name =>
    closed.bind (closed.topLevelFile path) fun _ => closed.bind (closed.world _) fun _ =>
      closed.bind (closed.composite ..) fun _ => closed.pure _

theorem scripts : (parts : List Script) → holds (Compute.scripts parts)
  | [] => closed.pure _
  | part :: rest =>
    closed.bind (script part) fun _ => closed.bind (scripts rest) fun _ => closed.pure _

end

theorem ofQuery (query : Query) : holds (ofQuery query) := by
  cases query with
  | scripted kind key => exact closed.bind (closed.world _) closed.script
  | fileText path =>
    exact closed.bind (closed.world _) fun _ => closed.bind (closed.world _) fun _ => closed.pure _
  | parseFile key => exact closed.parseFile key
  | parseString key => exact closed.bind (closed.world _) fun unit => closed.parse unit key.text
  | linkage key => exact closed.bind (closed.query rfl nofun) fun _ => closed.pure _
  | composite type => exact closed.pure type

end Closed

abbrev IsPlain {α : Type} (computation : Compute α) : Prop :=
  Computation.ReadsOnly (S := signature) Query.MentionsNone computation

theorem isPlain_query {query : Query} (none : query.MentionsNone) : (Compute.query query).IsPlain := by
  refine ⟨none, ?_⟩
  rintro (error | value) <;> trivial

theorem closed_isPlain : Closed IsPlain where
  pure _ := trivial
  fail _ := trivial
  bind first second := Computation.ReadsOnly.bind first second
  orElse first second := Computation.ReadsOnly.orElse first second
  world _ _ := trivial
  tell _ := trivial
  query none _ := isPlain_query none
  nodes _ _ := Computation.ReadsOnly.bind (fun _ => trivial) fun _ =>
    Computation.ReadsOnly.bind (isPlain_query rfl) fun _ => trivial

/-- No query requests a type that mentions other types. -/
theorem isPlain_ofQuery (query : Query) : (ofQuery query).IsPlain :=
  closed_isPlain.ofQuery query

end Compute

end Frontend

end IncrementalFrontend
