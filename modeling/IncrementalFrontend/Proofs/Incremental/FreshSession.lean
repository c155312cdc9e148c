import IncrementalFrontend.Proofs.Incremental.FromScratch
import IncrementalFrontend.Proofs.Incremental.History

/-!
Sessions against new sessions with the same inputs. A session of deterministic queries answers each
query as from scratch at all times, so whatever it did before makes no difference.
-/
namespace IncrementalFrontend

variable {S : Signature} {rules : Rules S} {E : Type} {environment : S.World → E}

/-- The world changes in nothing that queries depend on. -/
def SameEnvironment (environment : S.World → E) (current next : S.World) : Prop :=
  environment next = environment current

def Accounting.fromScratch (deterministic : rules.Deterministic environment) :
    Accounting rules (SameEnvironment environment) where
  account now input? := .fromScratch deterministic now input?
  world _ _ := rfl
  drifts same drift := drift.trans same
  past := id
  exact := id
  input {now input? query value} known := by
    have answers : rules.Answers (rules.snapshot now input?) query value := .input known
    exact answers
  free := id

def Cache.inputs (cache : Cache S) :
    List ((query : S.Query) × S.Value query) :=
  (List.range cache.slots.size).filterMap fun slot =>
    (cache.memo? slot).bind fun memo =>
      if memo.entry.origin = .input then
        memo.entry.value.map fun shared => ⟨memo.query, shared.value⟩
      else none

namespace Context

variable {context fresh after : Context S} {query : S.Query}

def Gets (rules : Rules S) (context : Context S) (query : S.Query)
    (outcome : Except QueryError (Shared (S.Value query))) (after : Context S) : Prop :=
  ∃ depth, Run.request rules depth query context = some (outcome, after)

def snapshot (rules : Rules S) (context : Context S) : Snapshot S :=
  rules.snapshot context.world context.cache.input?

section

variable {deterministic : rules.Deterministic environment} {now : S.World}
  {input? : (query : S.Query) → Option (S.Value query)} {path : List S.Query}

theorem Sound.snapshot_eq (sound : context.Sound (.fromScratch deterministic now input?) path)
    (inputs : context.cache.input? = input?) :
    context.snapshot rules = rules.snapshot now input? := by
  have same : environment context.world = environment now := sound.world
  unfold snapshot Rules.snapshot
  rw [inputs]
  congr 1
  funext request
  exact deterministic.reply_eq request context.world now same

theorem Gets.answered {outcome : Except QueryError (Shared (S.Value query))}
    (gets : context.Gets rules query outcome after)
    (sound : context.Sound (.fromScratch deterministic now input?) []) :
    Answered (.fromScratch deterministic now input?) query context outcome after := by
  obtain ⟨depth, ran⟩ := gets
  exact (meets_request sound trivial).2 _ _ ran

end

theorem Reachable.fromScratch (deterministic : rules.Deterministic environment)
    (reachable : context.Reachable rules (SameEnvironment environment)) :
    ∃ now, context.Sound (.fromScratch deterministic now context.cache.input?) [] ∧
      rules.snapshot now context.cache.input? = context.snapshot rules := by
  obtain ⟨now, sound⟩ := reachable.follows (.fromScratch deterministic)
  have sound : context.Sound (.fromScratch deterministic now context.cache.input?) [] :=
    sound.among fun _ _ _ _ => trivial
  exact ⟨now, sound, (sound.snapshot_eq rfl).symm⟩

theorem Reachable.answers (deterministic : rules.Deterministic environment)
    (reachable : context.Reachable rules (SameEnvironment environment))
    {shared : Shared (S.Value query)} (gets : context.Gets rules query (.ok shared) after) :
    rules.Answers (context.snapshot rules) query shared.value := by
  obtain ⟨now, sound, same⟩ := reachable.fromScratch deterministic
  have answered := gets.answered sound
  obtain ⟨slot, entry, _, here, value, current, -⟩ := answered.ok shared rfl
  rw [← same]
  exact answered.sound.accounted.current here value current

theorem Reachable.fails (deterministic : rules.Deterministic environment)
    (reachable : context.Reachable rules (SameEnvironment environment)) {error : QueryError}
    (gets : context.Gets rules query (.error error) after) :
    rules.Fails (context.snapshot rules) [] query error := by
  obtain ⟨now, sound, same⟩ := reachable.fromScratch deterministic
  rw [← same]
  exact ((gets.answered sound).error error rfl).1.failure

theorem Reachable.isSome_request (deterministic : rules.Deterministic environment)
    (reachable : context.Reachable rules (SameEnvironment environment)) {depth : Nat}
    (settles : rules.Settles (context.snapshot rules) depth [] query) :
    ∃ outcome after, Run.request rules depth query context = some (outcome, after) := by
  obtain ⟨now, sound, same⟩ := reachable.fromScratch deterministic
  rw [← same] at settles
  exact (meets_request sound trivial).1 settles

theorem requested_nil (snapshot : Snapshot S) (query : S.Query) : rules.Requested snapshot
    [] query :=
  List.isChain_singleton query

/-- A request can be answered exactly with the answer from scratch. -/
theorem Reachable.exists_gets_ok_iff (deterministic : rules.Deterministic environment)
    (reachable : context.Reachable rules (SameEnvironment environment)) {value : S.Value query} :
    (∃ shared after, context.Gets rules query (.ok shared) after ∧ shared.value = value) ↔
      rules.Answers (context.snapshot rules) query value := by
  constructor
  · rintro ⟨shared, after, gets, rfl⟩
    exact reachable.answers deterministic gets
  · intro answers
    obtain ⟨depth, settles⟩ := answers.settles
    obtain ⟨outcome, after, ran⟩ := reachable.isSome_request deterministic (settles [])
    cases outcome with
    | ok shared =>
      have gets : context.Gets rules query (.ok shared) after := ⟨depth, ran⟩
      exact ⟨shared, after, gets, (reachable.answers deterministic gets).unique answers⟩
    | error error =>
      have fails := reachable.fails deterministic ⟨depth, ran⟩
      have requested : rules.Requested (context.snapshot rules) [] query := requested_nil _ query
      exact absurd answers (fails.not_answers requested value)

theorem Reachable.exists_gets_error_iff (deterministic : rules.Deterministic environment)
    (reachable : context.Reachable rules (SameEnvironment environment)) {error : QueryError} :
    (∃ after, context.Gets rules query (.error error) after) ↔
      rules.Fails (context.snapshot rules) [] query error := by
  constructor
  · rintro ⟨after, gets⟩
    exact reachable.fails deterministic gets
  · intro fails
    have requested : rules.Requested (context.snapshot rules) [] query := requested_nil _ query
    obtain ⟨depth, settles⟩ := fails.settles requested
    obtain ⟨outcome, after, ran⟩ := reachable.isSome_request deterministic settles
    cases outcome with
    | ok shared =>
      have answers := reachable.answers deterministic ⟨depth, ran⟩
      exact absurd answers (fails.not_answers requested _)
    | error other =>
      have gets : context.Gets rules query (.error other) after := ⟨depth, ran⟩
      have same := (reachable.fails deterministic gets).unique fails requested
        deterministic.propagates
      exact ⟨after, same ▸ gets⟩

/-- A request that fails has no other outcome, in no session with the same inputs. -/
theorem Reachable.eq_of_gets_error {other : Context S}
    (deterministic : rules.Deterministic environment)
    (reachable : context.Reachable rules (SameEnvironment environment))
    (reachable' : other.Reachable rules (SameEnvironment environment))
    (same : other.snapshot rules = context.snapshot rules) {error : QueryError}
    (gets : context.Gets rules query (.error error) after)
    {outcome : Except QueryError (Shared (S.Value query))} {after' : Context S}
    (gets' : other.Gets rules query outcome after') : outcome = .error error := by
  have fails := reachable.fails deterministic gets
  cases outcome with
  | ok shared =>
    have answers := reachable'.answers deterministic gets'
    rw [same] at answers
    exact absurd answers (fails.not_answers (requested_nil _ query) _)
  | error error' =>
    have fails' := reachable'.fails deterministic gets'
    rw [same] at fails'
    have same := fails'.unique fails (requested_nil _ query) deterministic.propagates
    exact congrArg Except.error same

def withInputs (rules : Rules S) (world : S.World) (collects : Bool)
    (inputs : List ((query : S.Query) × S.Value query)) : Context S :=
  inputs.foldl (fun context input => (context.setInput rules input.1 input.2).2)
    (.start world collects)

/-- A new session with the inputs and the environment of another one. -/
structure IsFresh (rules : Rules S) (environment : S.World → E) (context fresh : Context S) :
    Prop where
  sets : ∃ world collects inputs, fresh = withInputs rules world collects inputs
  environment : environment fresh.world = environment context.world
  input? : fresh.cache.input? = context.cache.input?

theorem world_collected (context : Context S) :
    (context.collected rules).world = context.world := by
  unfold collected
  split <;> rfl

theorem world_setInput (rules : Rules S) (context : Context S) (query : S.Query)
    (value : S.Value query) :
    (context.setInput rules query value).2.world = context.world := by
  unfold setInput
  cases context.unchangedInput? rules query value with
  | some revision => rfl
  | none => exact world_collected context

section Inputs

variable {account : Account rules}

theorem input?_of_unchangedInput? {value : S.Value query} {revision : Revision}
    (known : context.unchangedInput? rules query value = some revision) :
    ∃ old, context.cache.input? query = some old ∧ rules.isUnchanged query old value := by
  unfold unchangedInput? at known
  unfold Cache.input?
  cases found : context.cache.find? query with
  | none => simp [found] at known
  | some result =>
    obtain ⟨slot, entry⟩ := result
    simp only [found] at known ⊢
    split at known
    · rename_i unchanged
      obtain ⟨old, stored, same⟩ := Option.any_eq_true _ _ |>.mp unchanged.2
      exact ⟨old.value, by simp [unchanged.1, stored], same⟩
    · cases known

theorem input?_setInput_self (sound : context.Sound account [])
    (unchanged : ∀ {query old new}, rules.isUnchanged query old new → old = new) (query : S.Query)
    (value : S.Value query) :
    (context.setInput rules query value).2.cache.input? query = some value := by
  unfold setInput
  cases known : context.unchangedInput? rules query value with
  | some revision =>
    obtain ⟨old, stored, same⟩ := input?_of_unchangedInput? known
    obtain rfl := unchanged same
    exact stored
  | none =>
    obtain ⟨collected, -⟩ := sound.collected
    obtain ⟨slot, entry, sets, -⟩ :=
      sets_storeInput (context.advance rules) collected.accounted.wellFormed query value
    exact sets.input?_self

theorem input?_setInput_ne (sound : context.Sound account []) (query : S.Query)
    (value : S.Value query) {other : S.Query} (differ : other ≠ query) :
    (context.setInput rules query value).2.cache.input? other = context.cache.input? other := by
  unfold setInput
  cases context.unchangedInput? rules query value with
  | some revision => rfl
  | none =>
    obtain ⟨collected, inputs⟩ := sound.collected
    have wellFormed := collected.accounted.wellFormed
    obtain ⟨slot, entry, sets, -⟩ := sets_storeInput (context.advance rules) wellFormed query value
    exact (sets.input?_ne wellFormed differ).trans (congrFun inputs other)

end Inputs

theorem Reachable.setInput {drift : S.World → S.World → Prop}
    (reachable : context.Reachable rules drift)
    (refl : ∀ world, drift world world) (query : S.Query) (value : S.Value query) :
    (context.setInput rules query value).2.Reachable rules drift := by
  obtain ⟨world, collects, leads⟩ := reachable
  refine ⟨world, collects, leads.tail ?_⟩
  have step : Step rules drift context _ :=
    .setInput context query value context.world (.inr (refl context.world))
  rw [← world_setInput rules context query value] at step
  exact step

theorem Reachable.request {drift : S.World → S.World → Prop}
    (reachable : context.Reachable rules drift)
    (depth : Nat) (query : S.Query) :
    (((Run.request rules depth query context).map (·.2)).getD context).Reachable rules drift := by
  cases ran : Run.request rules depth query context with
  | none => exact reachable
  | some result =>
    obtain ⟨world, collects, leads⟩ := reachable
    exact ⟨world, collects, leads.tail (.request ran)⟩

/-- The inputs that are set in a session last are its inputs; earlier ones stay. -/
theorem inputs_of_sets (deterministic : rules.Deterministic environment)
    (reachable : context.Reachable rules (SameEnvironment environment))
    (target : (query : S.Query) → Option (S.Value query))
    (before : ∀ query value, context.cache.input? query = some value → target query = some value)
    (inputs : List ((query : S.Query) × S.Value query))
    (agree : ∀ input ∈ inputs, target input.1 = some input.2) :
    let last :=
      inputs.foldl (fun context input => (context.setInput rules input.1 input.2).2) context
    last.Reachable rules (SameEnvironment environment) ∧ last.world = context.world ∧
      (∀ query value, last.cache.input? query = some value → target query = some value) ∧
      ∀ query value, (context.cache.input? query = some value ∨ ⟨query, value⟩ ∈ inputs) →
        last.cache.input? query = some value := by
  induction inputs generalizing context with
  | nil => exact ⟨reachable, rfl, before, by simp⟩
  | cons input inputs ih =>
    obtain ⟨query, value⟩ := input
    have wanted : target query = some value := agree ⟨query, value⟩ (by simp)
    obtain ⟨now, sound, -⟩ := reachable.fromScratch deterministic
    have self := input?_setInput_self sound (deterministic.isUnchanged_iff _ _ _).mp query value
    have others := @input?_setInput_ne _ _ _ _ sound query value
    have reachable' := reachable.setInput (fun _ => rfl) query value
    have before' : ∀ other known,
        (context.setInput rules query value).2.cache.input? other = some known →
          target other = some known := by
      intro other known stored
      by_cases same : other = query
      · subst same
        rw [self] at stored
        exact wanted.trans stored
      · rw [others same] at stored
        exact before other known stored
    obtain ⟨reached, world, within, keeps⟩ := ih reachable' before' fun input member =>
      agree input (List.mem_cons_of_mem _ member)
    refine ⟨reached, world.trans (world_setInput rules context query value), within, ?_⟩
    rintro other known (stored | member)
    · refine keeps other known (.inl ?_)
      by_cases same : other = query
      · subst same
        rw [self, ← wanted]
        exact before other known stored
      · rw [others same]
        exact stored
    · obtain same | member := List.mem_cons.mp member
      · cases same
        exact keeps query value (.inl self)
      · exact keeps other known (.inr member)

theorem IsFresh.reachable (isFresh : IsFresh rules environment context fresh) :
    fresh.Reachable rules (SameEnvironment environment) := by
  obtain ⟨world, collects, inputs, rfl⟩ := isFresh.sets
  have start : (Context.start world collects).Reachable rules (SameEnvironment environment) :=
    ⟨world, collects, .refl⟩
  unfold withInputs
  clear isFresh
  generalize Context.start world collects = first at start
  induction inputs generalizing first with
  | nil => exact start
  | cons input inputs ih => exact ih _ (start.setInput (fun _ => rfl) input.1 input.2)

theorem IsFresh.snapshot_eq (deterministic : rules.Deterministic environment)
    (isFresh : IsFresh rules environment context fresh) :
    fresh.snapshot rules = context.snapshot rules := by
  unfold snapshot Rules.snapshot
  rw [isFresh.input?]
  congr 1
  funext request
  exact deterministic.reply_eq request fresh.world context.world isFresh.environment

theorem mem_inputs {cache : Cache S} (sound : cache.WellFormed) {value : S.Value query} :
    ⟨query, value⟩ ∈ cache.inputs ↔ cache.input? query = some value := by
  rw [Cache.input?_eq_some_iff sound]
  unfold Cache.inputs
  simp only [List.mem_filterMap, List.mem_range, Option.bind_eq_some_iff]
  constructor
  · rintro ⟨slot, -, ⟨other, entry⟩, here, listed⟩
    split at listed
    · rename_i isInput
      obtain ⟨shared, stored, same⟩ := Option.map_eq_some_iff.mp listed
      have stored : entry.value = some shared := stored
      cases same
      exact ⟨slot, entry, here, isInput, by simp [stored]⟩
    · cases listed
  · rintro ⟨slot, entry, here, isInput, known⟩
    obtain ⟨shared, stored, rfl⟩ := Option.map_eq_some_iff.mp known
    refine ⟨slot, Cache.lt_size here, ⟨query, entry⟩, here, ?_⟩
    simp [isInput, stored]

/-- There is a new session with the inputs and the environment of any session. -/
theorem Reachable.exists_isFresh (deterministic : rules.Deterministic environment)
    (reachable : context.Reachable rules (SameEnvironment environment)) :
    ∃ fresh, IsFresh rules environment context fresh := by
  obtain ⟨now, sound, -⟩ := reachable.fromScratch deterministic
  have wellFormed := sound.accounted.wellFormed
  have start : (Context.start context.world false).Reachable rules (SameEnvironment environment) :=
    ⟨context.world, false, .refl⟩
  obtain ⟨-, world, within, keeps⟩ := inputs_of_sets deterministic start
    context.cache.input? (by simp [Context.start, Cache.empty, Cache.input?, Cache.find?])
    context.cache.inputs fun input member => (mem_inputs wellFormed).mp member
  refine ⟨withInputs rules context.world false context.cache.inputs,
    ⟨_, _, _, rfl⟩, congrArg environment world, ?_⟩
  funext query
  refine Option.ext fun value => ⟨within query value, fun stored => ?_⟩
  exact keeps query value (.inr ((mem_inputs wellFormed).mpr stored))

end Context

namespace Invoice

instance (item : Item) : DecidableEq (signature.Value item) :=
  inferInstanceAs (DecidableEq Nat)

def session : Context signature :=
  .withInputs Invoice.rules (7 : Nat) false [⟨Item.price, (3 : Nat)⟩]

def asked : Context signature :=
  let answered := ((Run.request Invoice.rules 3 Item.total session).map (·.2)).getD session
  ((Run.request Invoice.rules 2 Item.loop answered).map (·.2)).getD answered

def resumed : Context signature :=
  { (asked.setInput Invoice.rules Item.price (5 : Nat)).2 with world := (8 : Nat) }

def renewed : Context signature :=
  .withInputs Invoice.rules (8 : Nat) false [⟨Item.price, (5 : Nat)⟩]

theorem reachable_resumed : resumed.Reachable Invoice.rules (SameEnvironment id) := by
  have isFresh : Context.IsFresh Invoice.rules id session session := ⟨⟨_, _, _, rfl⟩, rfl, rfl⟩
  have reachable := (isFresh.reachable.request 3 Item.total).request 2 Item.loop
  obtain ⟨world, collects, leads⟩ := reachable
  have changes : (asked.unchangedInput? Invoice.rules Item.price (5 : Nat)).isNone = true := by
    decide +kernel
  exact ⟨world, collects, leads.tail (.setInput asked Item.price (5 : Nat) (8 : Nat)
    (.inl (Option.isNone_iff_eq_none.mp changes)))⟩

theorem isFresh_renewed : Context.IsFresh Invoice.rules id resumed renewed where
  sets := ⟨_, _, _, rfl⟩
  environment := rfl
  input? := by
    funext query
    cases query <;> decide +kernel

theorem exists_gets_total : ∃ shared after,
    resumed.Gets Invoice.rules Item.total (.ok shared) after ∧ shared.value = (13 : Nat) := by
  have answered : (match Run.request Invoice.rules 3 Item.total resumed with
      | some (.ok shared, _) => Nat.beq shared.value 13
      | _ => false) = true := by decide +kernel
  split at answered
  · rename_i shared after ran
    exact ⟨shared, after, ⟨3, ran⟩, Nat.eq_of_beq_eq_true answered⟩
  · cases answered

theorem exists_gets_loop : ∃ after,
    resumed.Gets Invoice.rules Item.loop (.error (.cycle ["loop", "loop"])) after := by
  have failed : (match Run.request Invoice.rules 2 Item.loop resumed with
      | some (.error error, _) => decide (error = .cycle ["loop", "loop"])
      | _ => false) = true := by decide +kernel
  split at failed
  · rename_i error after ran
    obtain rfl := of_decide_eq_true failed
    exact ⟨after, 2, ran⟩
  · cases failed

end Invoice

end IncrementalFrontend
