import IncrementalFrontend.Proofs.Incremental.Memos

/-!
When an older memo may stay. Its dependencies are checked in the order of the first reads: as long
as none of them changed, the query would request the next one in this revision too, and if none
changed at all, the query would give the stored value again.
-/
namespace IncrementalFrontend

variable {S : Signature} {rules : Rules S}

namespace Cache

variable {account : Account rules} {revision : Revision} {cache : Cache S} {slot : Nat}
  {query : S.Query} {entry : Entry S query} {shared : Shared (S.Value query)}

def Knows (cache : Cache S) (query : S.Query) : Prop :=
  ∃ slot, cache.query? slot = some query

def HasCurrent (cache : Cache S) (revision : Revision) (query : S.Query) : Prop :=
  ∃ slot entry, cache.memo? slot = some ⟨query, entry⟩ ∧ entry.IsCurrent revision

theorem HasCurrent.knows (current : cache.HasCurrent revision query) : cache.Knows query := by
  obtain ⟨slot, entry, here, -⟩ := current
  exact ⟨slot, query?_eq here⟩

namespace Grows

variable {exact : Prop} {busy : List Nat} {after : Cache S}

theorem knows (grows : cache.Grows exact revision busy after) (known : cache.Knows query) :
    after.Knows query := by
  obtain ⟨slot, here⟩ := known
  exact ⟨slot, grows.query? here⟩

theorem memo?_of_isCurrent (grows : cache.Grows exact revision busy after) {entry : Entry S query}
    (here : cache.memo? slot = some ⟨query, entry⟩) (current : entry.IsCurrent revision) :
    after.memo? slot = some ⟨query, entry⟩ := by
  obtain ⟨entry', there, growth⟩ := grows.memo here
  obtain rfl := growth.current current
  exact there

theorem hasCurrent (grows : cache.Grows exact revision busy after)
    (current : cache.HasCurrent revision query) : after.HasCurrent revision query := by
  obtain ⟨slot, entry, here, current⟩ := current
  exact ⟨slot, entry, grows.memo?_of_isCurrent here current, current⟩

end Grows

def Checked (cache : Cache S) (revision since : Revision) (slots : List Nat) : Prop :=
  ∀ slot ∈ slots, ∃ query entry, cache.memo? slot = some ⟨query, entry⟩ ∧
    entry.IsCurrent revision ∧ entry.changedAt ≤ since

theorem Grows.checked {exact : Prop} {busy : List Nat} {after : Cache S} {since : Revision}
    {slots : List Nat} (grows : cache.Grows exact revision busy after)
    (checked : cache.Checked revision since slots) : after.Checked revision since slots := by
  intro slot member
  obtain ⟨query, entry, here, current, unchanged⟩ := checked slot member
  obtain ⟨entry', there, growth⟩ := grows.memo here
  obtain rfl := growth.current current
  exact ⟨query, entry', there, current, unchanged⟩

namespace Accounted

theorem free_of_derived (accounted : cache.Accounted account revision)
    (here : cache.memo? slot = some ⟨query, entry⟩) (derived : entry.origin = .derived) :
    account.free query := by
  refine accounted.free ?_
  simp [input?, accounted.wellFormed.find?_eq here, derived]

/-- What was read of a checked query is its answer. -/
theorem answer_of_checked (accounted : cache.Accounted account revision)
    {replies : (request : S.Request) → S.Reply request → Prop} {readings : List (Reading S)}
    (records : cache.Records account revision slot entry shared replies readings) {done : List Nat}
    (checked : cache.Checked revision entry.verifiedAt done) {other : S.Query}
    {known : S.Value other} (member : ⟨other, .ok known⟩ ∈ readings) {dependency : Nat}
    (read : dependency ∈ done) (assigned : cache.query? dependency = some other) :
    account.answer other known := by
  by_cases exact : account.exact
  · obtain ⟨query', entry', there, current, unchanged⟩ := checked dependency read
    rw [query?_eq there] at assigned
    cases assigned
    obtain ⟨stored, value'⟩ := Option.isSome_iff_exists.mp current.1
    rw [← records.supports exact _ known member dependency entry' stored there value' unchanged]
    exact accounted.current there value' current.2
  · exact account.answer_of_inexact exact other known

/-- The query requests the first dependency that is not checked yet: all that it read before is
verified in the revision. -/
theorem next_dependency (accounted : cache.Accounted account revision)
    (here : cache.memo? slot = some ⟨query, entry⟩) (derived : entry.origin = .derived)
    (value : entry.value = some shared) (steady : rules.isVolatile query = false)
    {done rest : List Nat} {dependency : Nat}
    (split : entry.dependencies = done ++ dependency :: rest)
    (checked : cache.Checked revision entry.verifiedAt done) {path : List S.Query}
    (requested : account.requested path query) (fresh : query ∉ path) :
    ∃ other, cache.query? dependency = some other ∧ account.requested (query :: path) other ∧
      (∀ depth, account.settles (depth + 1) path query →
        account.settles depth (query :: path) other) ∧
      ∃ past known after reports,
        (rules.compute query).Takes account.replies (past ++ ⟨other, .ok known⟩ :: after) reports
          (.ok shared.value) ∧
        ∀ reading ∈ past, ∀ value, reading.outcome = .ok value →
          account.answer reading.query value ∧ cache.HasCurrent revision reading.query := by
  have free := accounted.free_of_derived here derived
  obtain ⟨replies, readings, records⟩ := accounted.recorded here derived value
  have assigned := records.dependencies
  rw [split, List.map_append, List.map_cons] at assigned
  -- The recorded course is split where it first reads the query of the dependency.
  obtain ⟨before, later, queries, same, next⟩ := List.map_eq_append_iff.mp assigned.symm
  obtain ⟨other, after, rfl, found, -⟩ := List.map_eq_cons_iff.mp next
  obtain ⟨past, known, rest', rfl, inside⟩ := Reading.split_of_firstQueries queries
  have takes := account.steady records.past steady records.takes
  have answers : ∀ reading ∈ past, ∀ value, reading.outcome = .ok value →
      account.answer reading.query value ∧ cache.HasCurrent revision reading.query := by
    intro reading member value answered
    have member := Reading.mem_of_ok member answered
    obtain ⟨place, read, assigned⟩ := exists_assigned same.symm (inside _ value member)
    refine ⟨accounted.answer_of_checked records checked (List.mem_append_left _ member) read
      assigned, ?_⟩
    obtain ⟨third, entry', there, current, -⟩ := checked place read
    rw [query?_eq there] at assigned
    cases assigned
    exact ⟨place, entry', there, current⟩
  obtain ⟨below, settles⟩ := account.requested_next requested free fresh takes
    fun reading member value answered => (answers reading member value answered).1
  exact ⟨other, found.symm, below, settles, past, known, rest', _, takes, answers⟩

/-- A memo none of whose dependencies changed can be verified in the revision. -/
theorem renews_of_checked (accounted : cache.Accounted account revision)
    (here : cache.memo? slot = some ⟨query, entry⟩) (derived : entry.origin = .derived)
    (value : entry.value = some shared) (steady : rules.isVolatile query = false)
    (stale : ¬ entry.IsCurrent revision)
    (checked : cache.Checked revision entry.verifiedAt entry.dependencies) :
    cache.Renews account revision slot entry { entry with verifiedAt := revision } shared := by
  obtain ⟨replies, readings, records⟩ := accounted.recorded here derived value
  have takes := account.steady records.past steady records.takes
  have answers : ∀ other known, ⟨other, .ok known⟩ ∈ readings → account.answer other known := by
    intro other known member
    obtain ⟨dependency, read, assigned⟩ := records.exists_dependency member
    exact accounted.answer_of_checked records checked member read assigned
  refine
    { live := here, stale, origin := rfl, verifiedAt := rfl, changed := .inr ⟨rfl, fun _ => rfl⟩
      value, answer := ?_, ofInput := ?_, dependency := ?_, course := ?_ }
  · refine account.answer_computed (accounted.free_of_derived here derived) takes ?_
    intro reading member known answered
    exact answers _ known (Reading.mem_of_ok member answered)
  · intro isInput
    rw [derived] at isInput
    cases isInput
  · intro dependency read
    obtain ⟨other, known, there, current, -⟩ := checked dependency read
    exact ⟨other, known, there, current⟩
  · intro _
    exact ⟨readings, records.executed, takes, records.dependencies, answers⟩

theorem renews_of_input (accounted : cache.Accounted account revision)
    (here : cache.memo? slot = some ⟨query, entry⟩) (isInput : entry.origin = .input)
    (value : entry.value = some shared) (stale : ¬ entry.IsCurrent revision) :
    cache.Renews account revision slot entry { entry with verifiedAt := revision } shared := by
  obtain ⟨-, dependencies, diagnostics⟩ := accounted.ofInput here isInput
  refine
    { live := here, stale, origin := rfl, verifiedAt := rfl, changed := .inr ⟨rfl, fun _ => rfl⟩
      value, answer := ?_, ofInput := fun _ => ⟨rfl, dependencies, diagnostics⟩, dependency := ?_
      course := ?_ }
  · refine accounted.input ((input?_eq_some_iff accounted.wellFormed).mpr ?_)
    exact ⟨slot, entry, here, isInput, by simp [value]⟩
  · intro dependency read
    have read : dependency ∈ entry.dependencies := read
    simp [dependencies] at read
  · intro derived
    rw [isInput] at derived
    cases derived

end Accounted

end Cache

end IncrementalFrontend
