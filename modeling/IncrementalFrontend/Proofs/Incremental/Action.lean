import IncrementalFrontend.Incremental.Request

/-!
What actions on a context guarantee. An action meets a postcondition if every outcome does; where
its depth suffices it has an outcome. There is one rule for each kind of step.
-/
namespace IncrementalFrontend

namespace Run

variable {S : Signature} {α β : Type} {context : Context S} {total : Prop}
  {post : Except QueryError α → Context S → Prop}

/-- Each outcome of the action satisfies the postcondition, and there is one if `total` holds. -/
def Meets (action : Run S α) (context : Context S) (total : Prop)
    (post : Except QueryError α → Context S → Prop) : Prop :=
  (total → ∃ outcome after, action context = some (outcome, after)) ∧
    ∀ outcome after, action context = some (outcome, after) → post outcome after

theorem Meets.mono {action : Run S α} {stronger : Except QueryError α → Context S → Prop}
    (meets : action.Meets context total stronger)
    (weaken : ∀ outcome after, stronger outcome after → post outcome after) :
    action.Meets context total post :=
  ⟨meets.1, fun outcome after ran => weaken outcome after (meets.2 outcome after ran)⟩

theorem Meets.total_mono {action : Run S α} {weaker : Prop}
    (meets : action.Meets context weaker post)
    (weaken : total → weaker) : action.Meets context total post :=
  ⟨meets.1 ∘ weaken, meets.2⟩

theorem Meets.ran {action : Run S α} (meets : action.Meets context total post) :
    action.Meets context total fun outcome after =>
      action context = some (outcome, after) ∧ post outcome after :=
  ⟨meets.1, fun outcome after ran => ⟨ran, meets.2 outcome after ran⟩⟩

theorem Meets.congr {action other : Run S α} {there : Context S}
    (meets : other.Meets there total post) (same : action context = other there) :
    action.Meets context total post := by
  unfold Meets at meets ⊢
  rwa [same]

theorem meets_exhausted (never : ¬ total) : (exhausted : Run S α).Meets context total post :=
  ⟨fun settles => absurd settles never, fun _ _ ran => nomatch ran⟩

theorem meets_of_eq {action : Run S α} {outcome : Except QueryError α} {after : Context S}
    (ran : action context = some (outcome, after)) (holds : post outcome after) :
    action.Meets context total post := by
  refine ⟨fun _ => ⟨outcome, after, ran⟩, ?_⟩
  intro outcome' after' ran'
  rw [ran] at ran'
  cases ran'
  exact holds

theorem meets_pure {result : α} (holds : post (.ok result) context) :
    (pure result : Run S α).Meets context total post :=
  meets_of_eq rfl holds

theorem meets_throw {error : QueryError} (holds : post (.error error) context) :
    (throw error : Run S α).Meets context total post :=
  meets_of_eq rfl holds

theorem bind_apply (action : Run S α) (next : α → Run S β) (context : Context S) :
    (action >>= next) context =
      (action context).bind fun (outcome, after) =>
        match outcome with
        | .ok result => next result after
        | .error error => some (.error error, after) := by
  show (action context).bind _ = _
  congr 1
  funext ⟨outcome, after⟩
  cases outcome <;> rfl

theorem bind_of_eq {action : Run S β} {result : β} {after : Context S}
    (ran : action context = some (.ok result, after)) (next : β → Run S α) :
    (action >>= next) context = next result after := by
  rw [bind_apply, ran]
  rfl

theorem bind_of_error {action : Run S β} {error : QueryError} {after : Context S}
    (ran : action context = some (.error error, after)) (next : β → Run S α) :
    (action >>= next) context = some (.error error, after) := by
  rw [bind_apply, ran]
  rfl

theorem exists_of_bind_eq_ok {action : Run S β} {next : β → Run S α} {result : α}
    {after : Context S}
    (ran : (action >>= next) context = some (.ok result, after)) :
    ∃ middle there, action context = some (.ok middle, there) ∧
      next middle there = some (.ok result, after) := by
  rw [bind_apply] at ran
  obtain ⟨⟨outcome, there⟩, first, later⟩ := Option.bind_eq_some_iff.mp ran
  cases outcome with
  | ok middle => exact ⟨middle, there, first, later⟩
  | error error => cases later

theorem meets_bind {action : Run S β} {next : β → Run S α}
    (meets : action.Meets context total fun outcome after =>
      match outcome with
      | .ok result => (next result).Meets after total post
      | .error error => post (.error error) after) :
    (action >>= next).Meets context total post := by
  unfold Meets at meets ⊢
  rw [bind_apply]
  cases ran : action context with
  | none => simpa [ran] using meets.1
  | some result =>
    obtain ⟨outcome, after⟩ := result
    have holds := meets.2 outcome after ran
    cases outcome with
    | ok result => exact holds
    | error error =>
      refine ⟨fun _ => ⟨.error error, after, rfl⟩, ?_⟩
      rintro _ _ ⟨⟩
      exact holds

theorem attempt_bind_apply (action : Run S β) (next : Except QueryError β → Run S α)
    (context : Context S) :
    (attempt action >>= next) context =
      (action context).bind fun (outcome, after) => next outcome after := by
  rw [bind_apply]
  unfold attempt
  cases action context <;> rfl

theorem meets_attempt_bind {action : Run S β} {next : Except QueryError β → Run S α}
    (meets : action.Meets context total fun outcome after =>
      (next outcome).Meets after total post) :
    (attempt action >>= next).Meets context total post := by
  unfold Meets at meets ⊢
  rw [attempt_bind_apply]
  cases ran : action context with
  | none => simpa [ran] using meets.1
  | some result => exact meets.2 result.1 result.2 ran

theorem meets_ofExcept_bind {outcome : Except QueryError β} {next : β → Run S α}
    (error : ∀ error, outcome = .error error → post (.error error) context)
    (ok : ∀ result, outcome = .ok result → (next result).Meets context total post) :
    (ofExcept outcome >>= next).Meets context total post := by
  cases outcome with
  | error raised => exact meets_of_eq rfl (error raised rfl)
  | ok result => exact (ok result rfl).congr rfl

theorem meets_get_bind {next : Context S → Run S α}
    (meets : (next context).Meets context total post) :
    (get >>= next).Meets context total post :=
  meets.congr rfl

theorem meets_modify_bind {change : Context S → Context S} {next : PUnit → Run S α}
    (meets : (next ⟨⟩).Meets (change context) total post) :
    (modify change >>= next).Meets context total post :=
  meets.congr rfl

theorem meets_updateCache_bind {change : Cache S → Cache S} {next : PUnit → Run S α}
    (meets : (next ⟨⟩).Meets (context.updateCache change) total post) :
    (updateCache change >>= next).Meets context total post :=
  meets.congr rfl

theorem memo_apply {slot : Nat} {found : Memo S} (here : context.cache.memo? slot = some found) :
    memo slot context = some (.ok found, context) := by
  unfold memo
  rw [bind_of_eq rfl, here]
  rfl

theorem meets_memo_bind {slot : Nat} {found : Memo S} {next : Memo S → Run S α}
    (here : context.cache.memo? slot = some found)
    (meets : (next found).Meets context total post) :
    (memo slot >>= next).Meets context total post :=
  meets.congr (bind_of_eq (memo_apply here) next)

theorem meets_serve_bind {rules : Rules S} {request : S.Request} {next : S.Reply request → Run S α}
    (meets : (next (rules.serve request context.world).1).Meets
      { context with world := (rules.serve request context.world).2 } total post) :
    (serve rules request >>= next).Meets context total post :=
  meets.congr rfl

theorem checkCycle_of_cycle {rules : Rules S} {slot : Nat} {path : List String}
    (cycle : context.cycle? rules slot = some path) :
    checkCycle rules slot context = some (.error (.cycle path), context) := by
  unfold checkCycle
  rw [bind_of_eq rfl, cycle]
  rfl

theorem checkCycle_of_fresh {rules : Rules S} {slot : Nat}
    (fresh : context.cycle? rules slot = none) :
    checkCycle rules slot context = some (.ok (), context) := by
  unfold checkCycle
  rw [bind_of_eq rfl, fresh]
  rfl

/-- A request for a slot in flight ends in a cycle; others go on. -/
theorem meets_checkCycle_bind {rules : Rules S} {slot : Nat} {next : Unit → Run S α}
    (repeated : ∀ path, context.cycle? rules slot = some path → post (.error (.cycle path)) context)
    (fresh : context.cycle? rules slot = none → (next ()).Meets context total post) :
    (checkCycle rules slot >>= next).Meets context total post := by
  cases found : context.cycle? rules slot with
  | none => exact (fresh found).congr (bind_of_eq (checkCycle_of_fresh found) next)
  | some path => exact meets_of_eq (bind_of_error (checkCycle_of_cycle found) next) (repeated path found)

theorem popFrame_apply {frame : Frame} {outer : List Frame}
    (active : context.active = frame :: outer) :
    popFrame outer.length context = some (.ok frame, { context with active := outer }) := by
  have truncated : context.truncate outer.length = { context with active := outer } := by
    simp [Context.truncate, Context.depth, active]
  unfold popFrame
  rw [bind_of_eq rfl, bind_of_eq rfl, active, truncated]
  simp only [if_true]
  rfl

theorem deliver_apply {slot : Nat} {diagnostics : List Diagnostic}
    (delivered : context.cache.diagnosticsBelow slot = .ok diagnostics) :
    deliver slot context =
      some (.ok (), { context with sink := context.sink.append diagnostics }) := by
  show (ofExcept (context.cache.diagnosticsBelow slot) >>= fun diagnostics =>
    modify fun context => { context with sink := context.sink.append diagnostics } :
      Run S Unit) context = _
  rw [delivered]
  rfl

theorem meets_popFrame_bind {frame : Frame} {outer : List Frame} {next : Frame → Run S α}
    (active : context.active = frame :: outer)
    (meets : (next frame).Meets { context with active := outer } total post) :
    (popFrame outer.length >>= next).Meets context total post :=
  meets.congr (bind_of_eq (popFrame_apply active) next)

end Run

end IncrementalFrontend
