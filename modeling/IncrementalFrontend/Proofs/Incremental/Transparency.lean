import IncrementalFrontend.Proofs.Incremental.FreshSession

/-!
Caching is transparent. Whatever happened to a session of deterministic queries, a request is
answered or fails as in a new session with the same inputs; an error tells a cycle that is really
there.
-/
namespace IncrementalFrontend

variable {S : Signature} {rules : Rules S} {E : Type} {environment : S.World → E}

namespace Rules

/-- The error tells a cycle of queries that the query leads to. -/
def ReportsCycle (rules : Rules S) (snapshot : Snapshot S) (query : S.Query) (error : QueryError) :
    Prop :=
  ∃ first rest, rules.IsCycle snapshot first rest ∧
    error = .cycle ((first :: rest ++ [first]).map rules.label) ∧
    ∀ member ∈ first :: rest, Relation.ReflTransGen (rules.Requests snapshot) query member

def ReportsRaised (rules : Rules S) (snapshot : Snapshot S) (query : S.Query) (error : QueryError) :
    Prop :=
  ∃ origin, Relation.ReflTransGen (rules.Requests snapshot) query origin ∧
    rules.RaisedBy snapshot origin error

theorem Fails.reports {snapshot : Snapshot S} {query : S.Query} {error : QueryError}
    (fails : rules.Fails snapshot [] query error) :
    rules.ReportsRaised snapshot query error ∨ rules.ReportsCycle snapshot query error := by
  obtain raised | ⟨first, rest, isCycle, labels, members⟩ :=
    fails.raised_or_cycle (List.isChain_singleton query) List.nodup_nil
  · exact .inl raised
  · refine .inr ⟨first, rest, isCycle, labels, fun member inside => ?_⟩
    exact (members member inside).resolve_left List.not_mem_nil

theorem Fails.reportsCycle {snapshot : Snapshot S} {query : S.Query} {error : QueryError}
    (fails : rules.Fails snapshot [] query error)
    (raises : ∀ query, (rules.compute query).Raises fun _ => False) :
    rules.ReportsCycle snapshot query error := by
  obtain ⟨origin, -, -, readings, reports, takes, correct⟩ | reported := fails.reports
  · refine (takes.raises (raises origin) fun reading member error failed => ?_).elim
    exact (correct reading member).ne_error error failed
  · exact reported

end Rules

namespace Context

variable {context fresh after : Context S} {query : S.Query}

/-- An answered request gives the value that every new session with the same inputs gives; there
are such sessions. -/
theorem Reachable.value_eq_fresh (deterministic : rules.Deterministic environment)
    (reachable : context.Reachable rules (SameEnvironment environment))
    {shared : Shared (S.Value query)} (gets : context.Gets rules query (.ok shared) after) :
    (∃ fresh, IsFresh rules environment context fresh) ∧
      ∀ fresh, IsFresh rules environment context fresh →
        (∃ shared' after', fresh.Gets rules query (.ok shared') after' ∧
          shared'.value = shared.value) ∧
        ∀ outcome after', fresh.Gets rules query outcome after' →
          outcome.map (·.value) = .ok shared.value := by
  refine ⟨reachable.exists_isFresh deterministic, fun fresh isFresh => ?_⟩
  have answers := reachable.answers deterministic gets
  rw [← isFresh.snapshot_eq deterministic] at answers
  refine ⟨(isFresh.reachable.exists_gets_ok_iff deterministic).mpr answers, ?_⟩
  intro outcome after' gets'
  cases outcome with
  | ok shared' =>
    have same := (isFresh.reachable.answers deterministic gets').unique answers
    exact congrArg Except.ok same
  | error error =>
    have fails := isFresh.reachable.fails deterministic gets'
    exact absurd answers (fails.not_answers (requested_nil _ query) _)

theorem Reachable.value_eq_fresh_invoice : ∃ shared after,
    Invoice.resumed.Gets Invoice.rules Invoice.Item.total (.ok shared) after ∧
      shared.value = (13 : Nat) ∧
      ∀ fresh, IsFresh Invoice.rules id Invoice.resumed fresh → ∃ shared' after',
        fresh.Gets Invoice.rules Invoice.Item.total (.ok shared') after' ∧
          shared'.value = shared.value := by
  obtain ⟨shared, after, gets, value⟩ := Invoice.exists_gets_total
  have agrees := Reachable.value_eq_fresh Invoice.deterministic Invoice.reachable_resumed gets
  exact ⟨shared, after, gets, value, fun fresh isFresh => (agrees.2 fresh isFresh).1⟩

/-- A request fails as in a new session with the same inputs, with an error that tells a cycle of
requests or that a query raised; if it leads to finitely many queries, it ends. -/
theorem Reachable.error_iff_fresh (deterministic : rules.Deterministic environment)
    (reachable : context.Reachable rules (SameEnvironment environment))
    (isFresh : IsFresh rules environment context fresh) (query : S.Query) :
    (∀ error, (∃ after, context.Gets rules query (.error error) after) ↔
      ∃ after, fresh.Gets rules query (.error error) after) ∧
    (∀ error after, context.Gets rules query (.error error) after →
      (∀ outcome after', fresh.Gets rules query outcome after' → outcome = .error error) ∧
      (rules.ReportsRaised (context.snapshot rules) query error ∨
        rules.ReportsCycle (context.snapshot rules) query error) ∧
      ((∀ query, (rules.compute query).Raises fun _ => False) →
        rules.ReportsCycle (context.snapshot rules) query error)) ∧
    ({other | Relation.ReflTransGen (rules.Requests (context.snapshot rules)) query other}.Finite →
      ∃ bound, ∀ depth, bound ≤ depth →
        ∃ outcome after, Run.request rules depth query context = some (outcome, after)) := by
  have same := isFresh.snapshot_eq deterministic
  refine ⟨?_, ?_, ?_⟩
  · intro error
    rw [reachable.exists_gets_error_iff deterministic,
      isFresh.reachable.exists_gets_error_iff deterministic, same]
  · intro error after gets
    have fails := reachable.fails deterministic gets
    refine ⟨fun outcome after' gets' => ?_, fails.reports, fails.reportsCycle⟩
    exact reachable.eq_of_gets_error deterministic isFresh.reachable same gets gets'
  · intro finite
    obtain ⟨bound, settles⟩ := Rules.settles_of_finite [] finite
    exact ⟨bound, fun depth more => reachable.isSome_request deterministic (settles.mono more)⟩

theorem Reachable.error_iff_fresh_invoice : ∃ after after',
    Invoice.resumed.Gets Invoice.rules Invoice.Item.loop (.error (.cycle ["loop", "loop"])) after ∧
      Invoice.renewed.Gets Invoice.rules Invoice.Item.loop (.error (.cycle ["loop", "loop"]))
        after' ∧
      Invoice.rules.ReportsCycle (Invoice.resumed.snapshot Invoice.rules) Invoice.Item.loop
        (.cycle ["loop", "loop"]) := by
  obtain ⟨after, gets⟩ := Invoice.exists_gets_loop
  have agrees := Reachable.error_iff_fresh Invoice.deterministic Invoice.reachable_resumed
    Invoice.isFresh_renewed Invoice.Item.loop
  obtain ⟨after', gets'⟩ := (agrees.1 _).mp ⟨after, gets⟩
  exact ⟨after, after', gets, gets', (agrees.2.1 _ after gets).2.2 Invoice.raises⟩

end Context

end IncrementalFrontend
