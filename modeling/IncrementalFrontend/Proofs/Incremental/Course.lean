import Mathlib.Data.List.Induction
import Mathlib.Data.List.Nodup
import IncrementalFrontend.Incremental.Computation

/-!
Courses of computations: which reads and reports lead to which outcome. Two courses in one world
agree up to the first read that was answered differently.
-/
namespace IncrementalFrontend

theorem eraseDups_concat {α : Type} [BEq α] [LawfulBEq α] (list : List α) (last : α) :
    (list ++ [last]).eraseDups =
      if last ∈ list then list.eraseDups else list.eraseDups ++ [last] := by
  rw [List.eraseDups_append]
  by_cases member : last ∈ list <;> simp [List.removeAll, List.eraseDups_cons, member]

theorem mem_eraseDups {α : Type} [BEq α] [LawfulBEq α] {list : List α} {a : α} :
    a ∈ list.eraseDups ↔ a ∈ list := by
  induction list using List.reverseRecOn with
  | nil => simp
  | append_singleton list last ih =>
    rw [eraseDups_concat]
    split
    · rename_i member
      rw [ih, List.mem_append, List.mem_singleton]
      constructor
      · exact Or.inl
      · rintro (inside | rfl)
        · exact inside
        · exact member
    · simp [ih]

theorem nodup_eraseDups {α : Type} [BEq α] [LawfulBEq α] (list : List α) :
    list.eraseDups.Nodup := by
  induction list using List.reverseRecOn with
  | nil => simp
  | append_singleton list last ih =>
    rw [eraseDups_concat]
    split
    · exact ih
    · rename_i absent
      have fresh : last ∉ list.eraseDups := fun member => absent (mem_eraseDups.mp member)
      refine List.nodup_append.mpr ⟨ih, List.nodup_singleton last, ?_⟩
      rintro a member _ final rfl
      exact fresh (List.mem_singleton.mp final ▸ member)

structure Reading (S : Signature) where
  query : S.Query
  outcome : Except QueryError (S.Value query)

namespace Reading

variable {S : Signature}

def isAnswered (reading : Reading S) : Bool :=
  match reading.outcome with
  | .ok _ => true
  | .error _ => false

theorem mem_of_ok {readings : List (Reading S)} {reading : Reading S}
    {value : S.Value reading.query}
    (member : reading ∈ readings) (answered : reading.outcome = .ok value) :
    ⟨reading.query, .ok value⟩ ∈ readings := by
  rw [← answered]
  exact member

def firstQueries (readings : List (Reading S)) : List S.Query :=
  ((readings.filter isAnswered).map (·.query)).eraseDups

theorem mem_firstQueries {readings : List (Reading S)} {query : S.Query} :
    query ∈ firstQueries readings ↔ ∃ value, ⟨query, .ok value⟩ ∈ readings := by
  simp only [firstQueries, mem_eraseDups, List.mem_map, List.mem_filter]
  constructor
  · rintro ⟨⟨query, outcome⟩, ⟨member, answered⟩, rfl⟩
    cases outcome with
    | ok value => exact ⟨value, member⟩
    | error => simp [isAnswered] at answered
  · rintro ⟨value, member⟩
    exact ⟨_, ⟨member, rfl⟩, rfl⟩

theorem firstQueries_ok (readings : List (Reading S)) (query : S.Query) (value : S.Value query) :
    firstQueries (readings ++ [⟨query, .ok value⟩]) =
      if query ∈ firstQueries readings then firstQueries readings
      else firstQueries readings ++ [query] := by
  simp only [firstQueries, List.filter_append, List.map_append, mem_eraseDups]
  exact eraseDups_concat ..

theorem firstQueries_error (readings : List (Reading S)) (query : S.Query) (error : QueryError) :
    firstQueries (readings ++ [⟨query, .error error⟩]) = firstQueries readings := by
  simp [firstQueries, isAnswered]

/-- Before the first read of a query only queries before it were read. -/
theorem split_of_firstQueries {readings : List (Reading S)} {before after : List S.Query}
    {query : S.Query} (split : firstQueries readings = before ++ query :: after) :
    ∃ past value rest, readings = past ++ ⟨query, .ok value⟩ :: rest ∧
      ∀ other value, ⟨other, .ok value⟩ ∈ past → other ∈ before := by
  induction readings using List.reverseRecOn generalizing after with
  | nil => simp [firstQueries] at split
  | append_singleton readings last ih =>
    obtain ⟨final, outcome⟩ := last
    have extend : (∃ past value rest, readings = past ++ ⟨query, .ok value⟩ :: rest ∧
        ∀ other value, ⟨other, .ok value⟩ ∈ past → other ∈ before) →
        ∃ past value rest, readings ++ [⟨final, outcome⟩] = past ++ ⟨query, .ok value⟩ :: rest ∧
          ∀ other value, ⟨other, .ok value⟩ ∈ past → other ∈ before := by
      rintro ⟨past, value, rest, rfl, inside⟩
      exact ⟨past, value, rest ++ [⟨final, outcome⟩], by simp, inside⟩
    cases outcome with
    | error error =>
      rw [firstQueries_error] at split
      exact extend (ih split)
    | ok known =>
      rw [firstQueries_ok] at split
      by_cases member : final ∈ firstQueries readings
      · rw [if_pos member] at split
        exact extend (ih split)
      · rw [if_neg member] at split
        obtain rfl | ⟨init, last, rfl⟩ := List.eq_nil_or_concat after
        · obtain ⟨same, equal⟩ := List.append_inj' split rfl
          cases equal
          refine ⟨readings, known, [], rfl, ?_⟩
          intro other value inside
          exact same ▸ mem_firstQueries.mpr ⟨value, inside⟩
        · have shorter : firstQueries readings ++ [final] =
              (before ++ query :: init) ++ [last] := by
            simpa using split
          exact extend (ih (List.append_inj' shorter rfl).1)

end Reading

namespace Computation

variable {S : Signature} {α β : Type} {replies : (request : S.Request) → S.Reply request → Prop}

/-- A computation can go through the readings and the reports in order and end in the outcome if
the world replies as `replies` says. -/
inductive Takes (replies : (request : S.Request) → S.Reply request → Prop) :
    Computation S α → List (Reading S) → List Diagnostic → Except QueryError α → Prop
  | pure (result : α) : Takes replies (.pure result) [] [] (.ok result)
  | fail (error : QueryError) : Takes replies (.fail error) [] [] (.error error)
  | read {query : S.Query} {next : Except QueryError (S.Value query) → Computation S α}
      {outcome : Except QueryError (S.Value query)} {readings : List (Reading S)}
      {reports : List Diagnostic} {ending : Except QueryError α} :
      Takes replies (next outcome) readings reports ending →
        Takes replies (.read query next) (⟨query, outcome⟩ :: readings) reports ending
  | ask {request : S.Request} {next : S.Reply request → Computation S α}
      {reply : S.Reply request} {readings : List (Reading S)} {reports : List Diagnostic}
      {ending : Except QueryError α} :
      replies request reply → Takes replies (next reply) readings reports ending →
        Takes replies (.ask request next) readings reports ending
  | report {diagnostic : Diagnostic} {next : Computation S α} {readings : List (Reading S)}
      {reports : List Diagnostic} {ending : Except QueryError α} :
      Takes replies next readings reports ending →
        Takes replies (.report diagnostic next) readings (diagnostic :: reports) ending

def Propagates : Computation S α → Prop
  | pure _ | fail _ => True
  | read _ next =>
    (∀ error, next (.error error) = .fail error) ∧ ∀ value, (next (.ok value)).Propagates
  | ask _ next => ∀ reply, (next reply).Propagates
  | report _ next => next.Propagates

def Raises (kind : QueryError → Prop) : Computation S α → Prop
  | pure _ => True
  | fail error => kind error
  | read _ next =>
    (∀ value, (next (.ok value)).Raises kind) ∧ ∀ error, kind error →
    (next (.error error)).Raises kind
  | ask _ next => ∀ reply, (next reply).Raises kind
  | report _ next => next.Raises kind

def AsksOnly (kind : S.Request → Prop) : Computation S α → Prop
  | pure _ | fail _ => True
  | read _ next => ∀ outcome, (next outcome).AsksOnly kind
  | ask request next => kind request ∧ ∀ reply, (next reply).AsksOnly kind
  | report _ next => next.AsksOnly kind

theorem Propagates.bind {computation : Computation S α} {next : α → Computation S β}
    (first : computation.Propagates) (second : ∀ result, (next result).Propagates) :
    (computation.bind next).Propagates := by
  induction computation with
  | pure result => exact second result
  | fail error => trivial
  | read query before ih =>
    refine ⟨fun error => ?_, fun value => ih _ (first.2 value)⟩
    show (before (.error error)).bind next = .fail error
    rw [first.1 error]
    rfl
  | ask request before ih => exact fun reply => ih reply (first reply)
  | report diagnostic before ih => exact ih first

theorem AsksOnly.bind {kind : S.Request → Prop} {computation : Computation S α}
    {next : α → Computation S β} (first : computation.AsksOnly kind)
    (second : ∀ result, (next result).AsksOnly kind) : (computation.bind next).AsksOnly kind := by
  induction computation with
  | pure result => exact second result
  | fail error => trivial
  | read query before ih => exact fun outcome => ih outcome (first outcome)
  | ask request before ih => exact ⟨first.1, fun reply => ih reply (first.2 reply)⟩
  | report diagnostic before ih => exact ih first

theorem exists_takes (computation : Computation S α)
    (total : ∀ request, ∃ reply, replies request reply) :
    ∃ readings reports ending, computation.Takes replies readings reports ending := by
  induction computation with
  | pure result => exact ⟨_, _, _, .pure result⟩
  | fail error => exact ⟨_, _, _, .fail error⟩
  | read query next ih =>
    obtain ⟨_, _, _, takes⟩ := ih (.error .stackMismatch)
    exact ⟨_, _, _, .read takes⟩
  | ask request next ih =>
    obtain ⟨reply, replied⟩ := total request
    obtain ⟨_, _, _, takes⟩ := ih reply
    exact ⟨_, _, _, .ask replied takes⟩
  | report diagnostic next ih =>
    obtain ⟨_, _, _, takes⟩ := ih
    exact ⟨_, _, _, .report takes⟩

namespace Takes

variable {computation : Computation S α} {readings past rest : List (Reading S)}
  {reports : List Diagnostic} {ending : Except QueryError α} {reading : Reading S}

/-- A course ends with the first read that is not answered. -/
theorem error_last (takes : computation.Takes replies readings reports ending)
    (propagates : computation.Propagates) (split : readings = past ++ reading :: rest)
    {error : QueryError} (failed : reading.outcome = .error error) :
    rest = [] ∧ ending = .error error := by
  induction takes generalizing past with
  | pure | fail => simp at split
  | @read query next outcome readings reports ending takes ih =>
    cases past with
    | nil =>
      cases split
      obtain rfl : outcome = .error error := failed
      rw [propagates.1 error] at takes
      cases takes
      exact ⟨rfl, rfl⟩
    | cons first past =>
      obtain ⟨-, later⟩ := List.cons.inj split
      cases outcome with
      | ok value => exact ih (propagates.2 value) later
      | error other =>
        rw [propagates.1 other] at takes
        cases takes with | fail => simp at later
  | @ask _ _ reply _ _ _ _ _ ih => exact ih (propagates reply) split
  | report _ ih => exact ih propagates split

theorem answered {result : α} (takes : computation.Takes replies readings reports (.ok result))
    (propagates : computation.Propagates) (member : reading ∈ readings) :
    ∃ value, reading.outcome = .ok value := by
  obtain ⟨past, rest, rfl⟩ := List.append_of_mem member
  cases failed : reading.outcome with
  | ok value => exact ⟨value, rfl⟩
  | error error =>
    have := (takes.error_last propagates rfl failed).2
    cases this

theorem answered_before {earlier : Reading S}
    (takes : computation.Takes replies (past ++ reading :: rest) reports ending)
    (propagates : computation.Propagates) (member : earlier ∈ past) :
    ∃ value, earlier.outcome = .ok value := by
  obtain ⟨before, after, rfl⟩ := List.append_of_mem member
  cases failed : earlier.outcome with
  | ok value => exact ⟨value, rfl⟩
  | error error =>
    have := (takes.error_last propagates (by rw [List.append_assoc]; rfl) failed).1
    simp at this

/-- Any read of a course can be the one that fails. -/
theorem cut (takes : computation.Takes replies (past ++ reading :: rest) reports ending)
    (propagates : computation.Propagates) (error : QueryError) :
    ∃ reports, computation.Takes replies (past ++ [⟨reading.query, .error error⟩]) reports
      (.error error) := by
  generalize split : past ++ reading :: rest = readings at takes
  induction takes generalizing past with
  | pure | fail => simp at split
  | @read query next outcome readings reports ending takes ih =>
    cases past with
    | nil =>
      cases split
      refine ⟨[], .read ?_⟩
      rw [propagates.1 error]
      exact .fail error
    | cons first past =>
      obtain ⟨rfl, later⟩ := List.cons.inj split
      cases outcome with
      | ok value =>
        obtain ⟨reports, cut⟩ := ih (propagates.2 value) later
        exact ⟨reports, .read cut⟩
      | error other =>
        rw [propagates.1 other] at takes
        cases takes with | fail => simp at later
  | @ask _ _ reply _ _ _ replied _ ih =>
    obtain ⟨reports, cut⟩ := ih (propagates reply) split
    exact ⟨reports, .ask replied cut⟩
  | report _ ih =>
    obtain ⟨reports, cut⟩ := ih propagates split
    exact ⟨_, .report cut⟩

/-- Two courses of a computation in a world that replies in one way. -/
theorem compare {readings' : List (Reading S)} {reports' : List Diagnostic}
    {ending' : Except QueryError α}
    (takes : computation.Takes replies readings reports ending)
    (takes' : computation.Takes replies readings' reports' ending')
    (functional : ∀ request reply reply', replies request reply → replies request reply' →
      reply = reply') :
    (readings = readings' ∧ reports = reports' ∧ ending = ending') ∨
      ∃ past query outcome outcome' rest rest', outcome ≠ outcome' ∧
        readings = past ++ ⟨query, outcome⟩ :: rest ∧
        readings' = past ++ ⟨query, outcome'⟩ :: rest' := by
  induction takes generalizing readings' reports' with
  | pure => cases takes'; exact .inl ⟨rfl, rfl, rfl⟩
  | fail => cases takes'; exact .inl ⟨rfl, rfl, rfl⟩
  | @read query next outcome readings reports ending takes ih =>
    cases takes' with
    | @read _ _ outcome' readings' _ _ takes' =>
      by_cases same : outcome = outcome'
      · subst same
        obtain ⟨rfl, rfl, rfl⟩ | ⟨past, other, a, b, rest, rest', differ, rfl, rfl⟩ := ih takes'
        · exact .inl ⟨rfl, rfl, rfl⟩
        · exact .inr ⟨⟨query, outcome⟩ :: past, other, a, b, rest, rest', differ, rfl, rfl⟩
      · exact .inr ⟨[], query, outcome, outcome', readings, readings', same, rfl, rfl⟩
  | ask replied _ ih =>
    cases takes' with
    | ask replied' takes' =>
      obtain rfl := functional _ _ _ replied replied'
      exact ih takes'
  | report _ ih =>
    cases takes' with
    | report takes' =>
      obtain ⟨rfl, rfl, rfl⟩ | differ := ih takes'
      · exact .inl ⟨rfl, rfl, rfl⟩
      · exact .inr differ

theorem of_asksOnly {others : (request : S.Request) → S.Reply request → Prop}
    {kind : S.Request → Prop} (takes : computation.Takes replies readings reports ending)
    (only : computation.AsksOnly kind)
    (same : ∀ request reply, kind request → replies request reply → others request reply) :
    computation.Takes others readings reports ending := by
  induction takes with
  | pure result => exact .pure result
  | fail error => exact .fail error
  | read _ ih => exact .read (ih (only _))
  | ask replied _ ih => exact .ask (same _ _ only.1 replied) (ih (only.2 _))
  | report _ ih => exact .report (ih only)

/-- Errors of a kind end a computation that raises no others and reads no others. -/
theorem raises {kind : QueryError → Prop} {error : QueryError}
    (takes : computation.Takes replies readings reports (.error error))
    (raises : computation.Raises kind)
    (read : ∀ reading ∈ readings, ∀ error, reading.outcome = .error error → kind error) :
    kind error := by
  generalize failed : (Except.error error : Except QueryError α) = ending at takes
  induction takes with
  | pure => cases failed
  | fail => cases failed; exact raises
  | @read query next outcome readings reports ending takes ih =>
    have later := fun reading member => read reading (List.mem_cons_of_mem _ member)
    cases outcome with
    | ok value => exact ih (raises.1 value) later failed
    | error other =>
      exact ih (raises.2 other (read _ (List.mem_cons_self ..) other rfl)) later failed
  | ask _ _ ih => exact ih (raises _) read failed
  | report _ ih => exact ih raises read failed

end Takes

end Computation

namespace Rules

variable {S : Signature}

def MayReply (rules : Rules S) (request : S.Request) (reply : S.Reply request) : Prop :=
  ∃ world, reply = (rules.serve request world).1

def RepliesIn (rules : Rules S) (world : S.World) (request : S.Request)
    (reply : S.Reply request) : Prop :=
  reply = (rules.serve request world).1

def RaiseOnly (rules : Rules S) (kind : QueryError → Prop) : Prop :=
  ∀ query, (rules.compute query).Raises kind

end Rules

end IncrementalFrontend
