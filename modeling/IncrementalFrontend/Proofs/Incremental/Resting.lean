import IncrementalFrontend.Proofs.Incremental.Failing

/-!
What requests in a revision make of the memos that were there before, and memos that depend on
nothing but one other memo. Unless that one changes, requests verify them again, but compute none.
-/
namespace IncrementalFrontend

variable {S : Signature} {rules : Rules S} {query : S.Query}

namespace Cache

variable {account : Account rules} {revision since : Revision} {stack : List S.Query}
  {base start last after : Cache S} {first next slot root : Nat} {old entry : Entry S query}

theorem Changes.grows (changes : start.Changes account revision stack first last next)
    (accounted : start.Accounted account revision) :
    start.Grows account.exact revision [] last := by
  induction changes with
  | refl => exact .refl _
  | recount _ _ _ ih => exact ih.trans (.recount _ _ _ _ _)
  | insert before absent _ _ ih =>
    exact ih.trans (.insert (before.accounted accounted).wellFormed absent _ _ _ nofun)
  | verify before renews _ _ _ ih =>
    exact ih.trans (renews.grows (before.accounted accounted) List.not_mem_nil)
  | compute before renews _ _ _ _ ih =>
    have grows := renews.grows (before.accounted accounted) List.not_mem_nil
    exact (ih.trans grows).trans (.recount _ _ _ _ _)

inductive Renewal (rules : Rules S) (cache : Cache S) (revision : Revision) (old : Entry S query) :
    Entry S query → Prop
  | kept : Renewal rules cache revision old old
  | verified : old.value.isSome → ¬ old.IsCurrent revision →
      (old.origin = .derived → cache.Checked revision old.verifiedAt old.dependencies) →
      Renewal rules cache revision old { old with verifiedAt := revision }
  | recomputed (shared : Shared (S.Value query)) (frame : Frame) : ¬ old.IsCurrent revision →
      cache.Reason rules revision old →
      Renewal rules cache revision old (old.recomputed rules revision shared frame)

namespace Renewal

theorem origin (renewal : start.Renewal rules revision old entry) : entry.origin = old.origin := by
  cases renewal <;> rfl

theorem grow {exact : Prop} {busy : List Nat} (renewal : start.Renewal rules revision old entry)
    (grows : start.Grows exact revision busy last) : last.Renewal rules revision old entry := by
  cases renewal with
  | kept => exact .kept
  | verified value stale checked => exact .verified value stale (grows.checked ∘ checked)
  | recomputed shared frame stale reason => exact .recomputed shared frame stale (grows.reason reason)

/-- An entry that was renewed is verified in the revision. -/
theorem eq_of_stale (renewal : start.Renewal rules revision old entry)
    (stale : ¬ entry.IsCurrent revision) : entry = old := by
  cases renewal with
  | kept => rfl
  | verified value => exact absurd ⟨value, rfl⟩ stale
  | recomputed => exact absurd ⟨rfl, rfl⟩ stale

end Renewal

/-- Each memo is as it was, or it was verified or computed once. -/
theorem Changes.exists_renewal (changes : start.Changes account revision stack first last next)
    (accounted : start.Accounted account revision) (here : start.memo? slot = some ⟨query, old⟩) :
    ∃ entry, last.memo? slot = some ⟨query, entry⟩ ∧ last.Renewal rules revision old entry := by
  induction changes with
  | refl => exact ⟨old, here, .kept⟩
  | recount _ _ _ ih =>
    obtain ⟨entry, there, renewal⟩ := ih
    exact ⟨entry, there, renewal.grow (.recount _ True _ [] _)⟩
  | insert before absent _ _ ih =>
    obtain ⟨entry, there, renewal⟩ := ih
    have wellFormed := (before.accounted accounted).wellFormed
    exact ⟨entry, memo?_insert_of_memo? wellFormed _ there,
      renewal.grow (.insert wellFormed absent _ True [] nofun)⟩
  | @verify cache _ place path other stored shared before renews checked _ _ ih =>
    obtain ⟨entry, there, renewal⟩ := ih
    have grows := renews.grows (before.accounted accounted) List.not_mem_nil
    by_cases own : slot = place
    · subst own
      cases renews.live.symm.trans there
      obtain rfl := renewal.eq_of_stale renews.stale
      refine ⟨_, renews.memo?_self, .verified ?_ renews.stale fun derived => ?_⟩
      · exact Option.isSome_iff_exists.mpr ⟨shared, renews.value⟩
      · exact grows.checked (checked derived).2
    · exact ⟨entry, (renews.memo?_ne own).trans there, renewal.grow grows⟩
  | @compute cache next place path other stored value frame before renews derived reason _ _ ih =>
    obtain ⟨entry, there, renewal⟩ := ih
    have grows := renews.grows (before.accounted accounted) List.not_mem_nil
    let memo : Memo S := ⟨other, stored.recomputed rules revision ⟨next, value⟩ frame⟩
    have counts := Grows.recount (cache.put place memo) account.exact revision []
    by_cases own : slot = place
    · subst own
      cases renews.live.symm.trans there
      obtain rfl := renewal.eq_of_stale renews.stale
      exact ⟨_, renews.memo?_self,
        .recomputed _ frame renews.stale ((counts _).reason (grows.reason reason))⟩
    · exact ⟨entry, (renews.memo?_ne own).trans there, (renewal.grow grows).grow (counts _)⟩

/-- Memos that depend on nothing but the memo in one slot, which is among them, and whose dependencies
have not changed since. -/
inductive RestsOn (cache : Cache S) (rules : Rules S) (root : Nat) : Nat → Prop
  | root : RestsOn cache rules root root
  | memo {slot : Nat} {query : S.Query} {entry : Entry S query} :
      cache.memo? slot = some ⟨query, entry⟩ → entry.value.isSome → rules.isVolatile query = false →
      (∀ dependency ∈ entry.dependencies, RestsOn cache rules root dependency) →
      (∀ dependency ∈ entry.dependencies, ∀ other known,
        cache.memo? dependency = some ⟨other, known⟩ → known.changedAt ≤ entry.verifiedAt) →
      RestsOn cache rules root slot

def Unchanged (start last : Cache S) (slot : Nat) : Prop :=
  ∀ query old entry, start.memo? slot = some ⟨query, old⟩ → last.memo? slot = some ⟨query, entry⟩ →
    entry.changedAt = old.changedAt

section RestsOn

variable (changes : start.Changes account revision stack first last next)
  (accounted : start.Accounted account revision)

include changes accounted

/-- No memo is computed again while what it depends on stays unchanged. -/
theorem exists_reverified (here : start.memo? slot = some ⟨query, old⟩) (value : old.value.isSome)
    (steady : rules.isVolatile query = false)
    (order : ∀ dependency ∈ old.dependencies, ∀ other known,
      start.memo? dependency = some ⟨other, known⟩ → known.changedAt ≤ old.verifiedAt)
    (unchanged : ∀ dependency ∈ old.dependencies, start.Unchanged last dependency) :
    ∃ verifiedAt, last.memo? slot = some ⟨query, { old with verifiedAt }⟩ := by
  obtain ⟨entry, there, renewal⟩ := changes.exists_renewal accounted here
  cases renewal with
  | kept => exact ⟨_, there⟩
  | verified => exact ⟨_, there⟩
  | recomputed shared frame stale reason =>
    cases reason with
    | unset none => simp [none] at value
    | volatile volatile => simp [volatile] at steady
    | changed read below _ newer =>
      -- A dependency that is newer than the memo was so at the start.
      obtain ⟨_, before, before', -, -⟩ := accounted.dependency here _ read
      obtain ⟨_, below', -⟩ := changes.exists_renewal accounted before'
      cases below.symm.trans below'
      rw [unchanged _ read _ _ _ before' below] at newer
      exact absurd (order _ read _ _ before') (Nat.not_le.mpr newer)

variable (unchanged : start.Unchanged last root)

include unchanged

theorem RestsOn.isUnchanged (rests : start.RestsOn rules root slot) : start.Unchanged last slot := by
  induction rests with
  | root => exact unchanged
  | memo here value steady _ order ih =>
    obtain ⟨_, there⟩ := exists_reverified changes accounted here value steady order ih
    intro query old entry here' there'
    cases here.symm.trans here'
    cases there.symm.trans there'
    rfl

/-- While the one memo stays unchanged, those that rest on it are verified at most. -/
theorem RestsOn.exists_reverified (rests : start.RestsOn rules root slot) (differ : slot ≠ root) :
    ∃ query old verifiedAt, start.memo? slot = some ⟨query, old⟩ ∧ rules.isVolatile query = false ∧
      last.memo? slot = some ⟨query, { old with verifiedAt }⟩ := by
  cases rests with
  | root => exact absurd rfl differ
  | memo here value steady reads order =>
    obtain ⟨verifiedAt, there⟩ := Cache.exists_reverified changes accounted here value steady order
      fun dependency read => (reads dependency read).isUnchanged changes accounted unchanged
    exact ⟨_, _, verifiedAt, here, steady, there⟩

end RestsOn

end Cache

end IncrementalFrontend
