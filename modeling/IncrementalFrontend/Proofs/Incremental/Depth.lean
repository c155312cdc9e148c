import IncrementalFrontend.Proofs.Incremental.FreshSession

/-!
The depth of requests. More depth changes no outcome, so a request has at most one, whatever depth it
is made with.
-/
namespace IncrementalFrontend

variable {S : Signature} {rules : Rules S}

namespace Run

variable {α β : Type}

/-- Where the one action has an outcome, the other one has the same. -/
def Approximates (action other : Run S α) : Prop :=
  ∀ context result, action context = some result → other context = some result

namespace Approximates

theorem refl (action : Run S α) : action.Approximates action :=
  fun _ _ ran => ran

theorem bind {first second : Run S α} {next after : α → Run S β}
    (begins : first.Approximates second)
    (goesOn : ∀ result, (next result).Approximates (after result)) :
    (first >>= next).Approximates (second >>= after) := by
  intro context result ran
  rw [bind_apply] at ran ⊢
  obtain ⟨⟨outcome, middle⟩, began, rest⟩ := Option.bind_eq_some_iff.mp ran
  rw [begins _ _ began]
  cases outcome with
  | error error => exact rest
  | ok value => exact goesOn value _ _ rest

theorem attempt {first second : Run S α} (approximates : first.Approximates second) :
    (Run.attempt first).Approximates (Run.attempt second) := by
  intro context result ran
  obtain ⟨ended, began, same⟩ := Option.map_eq_some_iff.mp ran
  exact Option.map_eq_some_iff.mpr ⟨ended, approximates _ _ began, same⟩

section

variable {fetch deeper : (query : S.Query) → Run S (Nat × Shared (S.Value query))}
  (fetches : ∀ query, (fetch query).Approximates (deeper query))

include fetches

theorem access (query : S.Query) : (Run.access fetch query).Approximates (Run.access deeper query) :=
  .bind (.refl _) fun _ => .bind (fetches query) fun _ => .refl _

theorem evaluate (computation : Computation S α) :
    (Run.evaluate rules fetch computation).Approximates (Run.evaluate rules deeper computation) := by
  induction computation with
  | pure | fail => exact .refl _
  | read query next ih => exact .bind (.attempt (access fetches query)) fun _ => ih _
  | ask request next ih => exact .bind (.refl _) fun _ => ih _
  | report diagnostic next ih => exact .bind (.refl _) fun _ => ih

theorem areUnchanged (since : Revision) (slots : List Nat) :
    (Run.areUnchanged fetch since slots).Approximates (Run.areUnchanged deeper since slots) := by
  induction slots with
  | nil => exact .refl _
  | cons slot rest ih =>
    refine .bind (.refl _) fun _ => .bind (.refl _) fun memo => ?_
    refine .bind (fetches memo.query) fun _ => .bind (.refl _) fun known => ?_
    split
    · exact .refl _
    · exact ih

theorem isUpToDate (slot : Nat) (since : Revision) :
    (Run.isUpToDate fetch slot since).Approximates (Run.isUpToDate deeper slot since) :=
  .bind (.refl _) fun _ => .bind (.refl _) fun _ => .bind (.refl _) fun _ =>
    .bind (.attempt (areUnchanged fetches _ _)) fun _ => .refl _

theorem execute (slot : Nat) (query : S.Query) :
    (Run.execute rules fetch slot query).Approximates (Run.execute rules deeper slot query) :=
  .bind (.refl _) fun _ => .bind (.refl _) fun _ => .bind (.refl _) fun _ =>
    .bind (.attempt (evaluate fetches _)) fun _ => .refl _

theorem fromMemo (slot : Nat) (query : S.Query) (entry : Entry S query)
    (shared : Shared (S.Value query)) :
    (Run.fromMemo rules fetch slot query entry shared).Approximates
      (Run.fromMemo rules deeper slot query entry shared) := by
  unfold Run.fromMemo
  refine .bind (.refl _) fun context => ?_
  dsimp only
  split
  · exact .refl _
  split
  · exact .refl _
  split
  · exact execute fetches slot query
  · refine .bind (.refl _) fun _ => .bind (isUpToDate fetches _ _) fun isUnchanged => ?_
    split
    · exact .refl _
    · exact execute fetches slot query

theorem answer (query : S.Query) :
    (Run.answer rules fetch query).Approximates (Run.answer rules deeper query) := by
  unfold Run.answer
  refine .bind (.refl _) fun _ => ?_
  split
  · exact .bind (.refl _) fun slot => execute fetches slot query
  · split
    · exact execute fetches _ query
    · exact fromMemo fetches _ _ _ _

end

/-- An outcome stays the same with more depth. -/
theorem fetch {depth more : Nat} (le : depth ≤ more) (query : S.Query) :
    (Run.fetch rules depth query).Approximates (Run.fetch rules more query) := by
  induction depth generalizing more query with
  | zero => exact fun _ _ ran => nomatch ran
  | succ depth ih =>
    obtain ⟨more, rfl⟩ := Nat.exists_eq_add_of_le' le
    exact answer (fun query => ih (Nat.le_add_left ..) query) query

theorem request {depth more : Nat} (le : depth ≤ more) (query : S.Query) :
    (Run.request rules depth query).Approximates (Run.request rules more query) :=
  access (fetch le) query

end Approximates

end Run

/-- The outcome of a request does not depend on the depth. -/
theorem Context.Gets.unique {query : S.Query} {context after after' : Context S}
    {outcome outcome' : Except QueryError (Shared (S.Value query))}
    (gets : context.Gets rules query outcome after) (gets' : context.Gets rules query outcome' after') :
    outcome' = outcome ∧ after' = after := by
  obtain ⟨depth, ran⟩ := gets
  obtain ⟨depth', ran'⟩ := gets'
  have ran := Run.Approximates.request (Nat.le_max_left depth depth') query _ _ ran
  have ran' := Run.Approximates.request (Nat.le_max_right depth depth') query _ _ ran'
  rw [ran] at ran'
  cases ran'
  exact ⟨rfl, rfl⟩

end IncrementalFrontend
