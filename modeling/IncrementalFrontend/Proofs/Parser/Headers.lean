import IncrementalFrontend.Parser.Declaration
import IncrementalFrontend.Proofs.Parser.Expressions

/-!
The parsers of the parts of declarations in front of a body parse their languages. Like expressions,
they read no braces and report nothing.
-/
namespace IncrementalFrontend

open Grammar Computability

namespace Parser

variable {effect : Effect} {room : Nat} {source : Source} {before : State}

def typeMarks : List TokenKind :=
  .symbol .colon :: suffixMarks

theorem parses_typed (fits : room ≤ source.budget) :
    Parses effect room (afterSymbol .colon typeExpression) source before typed (among typeMarks) :=
  (Parses.afterSymbol rfl fun _ => parses_typeExpression ((Nat.sub_le ..).trans fits)).stricter
    (Set.insert_subset (by decide) (by decide))

theorem parses_initialized (fits : room ≤ source.budget) :
    Parses effect room (afterSymbol .equal expression) source before initialized
      (among continuations) :=
  (Parses.afterSymbol rfl fun _ => parses_expression ((Nat.sub_le ..).trans fits)).stricter
    (Set.insert_subset (by decide) subset_rfl)

section

variable {α : Type} {words : List Keyword}

def intentMarks (words : List Keyword) : List TokenKind :=
  (.kwConst :: .kwRef :: words).map .keyword

/-- `const`, and perhaps `ref`. -/
theorem parses_constant (current : before.cursor.kind = .keyword .kwConst)
    (distinct : .kwConst ∉ Keyword.kwRef :: words) (choose : Bool → α) :
    Parses effect room (do
      let _ ← advance
      let isReference ← eatKeyword .kwRef
      return choose isReference) source before (intentAmong words) (among (intentMarks words)) := by
  have parses : Parses effect room (do
      let _ ← advance
      let isReference ← eatKeyword .kwRef
      return choose isReference) source before constant {.keyword .kwRef} :=
    .advance rfl current fun _ _ _ => .andPure (.eaten rfl) choose
  refine .left (.left (parses.stricter ?_) (.anyOf ?_)) (.one ?_)
  · exact Set.singleton_subset_iff.mpr (.tail _ (.head _))
  · intro kind member same
    rw [Set.mem_singleton_iff.mp same, current] at member
    obtain ⟨word, inside, ⟨⟩⟩ := List.mem_map.mp member
    exact distinct inside
  · rw [current]
    exact Set.singleton_subset_iff.mpr (.head _)

/-- A word that is an intent on its own. -/
theorem parses_intentWord {word : Keyword} (current : before.cursor.kind = .keyword word)
    (member : word ∈ Keyword.kwRef :: words) (distinct : .kwConst ∉ Keyword.kwRef :: words)
    (intent : α) :
    Parses effect room (do
      let _ ← advance
      return intent) source before (intentAmong words) (among (intentMarks words)) := by
  have parses : Parses effect room (do
      let _ ← advance
      return intent) source before {[.keyword word]} ∅ := .andPure (.advanced rfl current) _
  have parses := parses.oneOf current (List.mem_map_of_mem member)
  refine .left (.right (parses.stricter (Set.empty_subset _)) (.token ?_)) (.one ?_)
  · rw [current]
    intro same
    obtain rfl := TokenKind.keyword.inj (Set.mem_singleton_iff.mp same)
    exact distinct member
  · rw [current]
    exact Set.singleton_subset_iff.mpr (.tail _ (List.mem_map_of_mem member))

theorem parses_unmarked (absent : before.cursor.kind ∉ intentMarks words) (intent : α) :
    Parses effect room (pure intent) source before (intentAmong words) (among (intentMarks words)) := by
  refine .right (.pure intent) (.add (.token ?_) (.anyOf ?_))
  · intro same
    exact absent (Set.mem_singleton_iff.mp same ▸ .head _)
  · intro kind member same
    exact absent (Set.mem_singleton_iff.mp same ▸ .tail _ member)

end

theorem parses_intent :
    Parses effect room intent source before Grammar.intent
      (among (intentMarks [.kwIn, .kwOut, .kwInout, .kwParam, .kwType])) := by
  unfold intent
  refine .peekKind ?_
  split
  · rename_i current
    exact parses_constant current (by decide) _
  iterate 6
    rename_i current
    exact parses_intentWord current (by decide) (by decide) _
  · exact parses_unmarked (by simp_all [intentMarks]) _

theorem parses_returnIntent :
    Parses effect room returnIntent source before Grammar.returnIntent
      (among (intentMarks [.kwParam, .kwType])) := by
  unfold returnIntent
  refine .peekKind ?_
  split
  · rename_i current
    exact parses_constant current (by decide) _
  iterate 3
    rename_i current
    exact parses_intentWord current (by decide) (by decide) _
  · exact parses_unmarked (by simp_all [intentMarks]) _

def declaratorMarks : List TokenKind :=
  .symbol .colon :: continuations

/-- A declared name with its type and its initial value. -/
theorem precedes_initialized : Precedes initialized (among declaratorMarks) (among typeMarks) :=
  .add (.token (by decide)) (.one (by decide))

theorem parses_formal (fits : room ≤ source.budget) :
    Parses effect room formal source before Grammar.formal (among declaratorMarks) := by
  rw [Grammar.formal, mul_assoc, mul_assoc]
  refine .idle idle_currentSpan fun start mid _ _ => ?_
  refine .bind parses_intent (fun intent mid word _ _ _ _ => ?_)
    (.mul (.valued (by simp [intentMarks])) .nothing)
  refine .bind .expectIdentifier (fun name mid word _ _ _ _ => ?_) .nothing
  refine .bind (parses_typed (by omega)) (fun type mid word _ _ _ _ => ?_) precedes_initialized
  refine .andIdle ?_ fun init => idle_store (.formal name intent type init) start
  exact (parses_initialized (by omega)).stricter (by decide)

def startsFormal : TokenKind → Bool
  | .identifier _ => true
  | kind => kind ∈ intentMarks [.kwIn, .kwOut, .kwInout, .kwParam, .kwType]

theorem opens_formal : Opens Grammar.formal startsFormal := by
  rw [Grammar.formal, mul_assoc, mul_assoc, Grammar.intent, intentAmong]
  exact .maybe_mul (.add (.mul (.token rfl)) (.anyOf (by decide))) (.mul (.valued fun _ => rfl))

theorem parses_whileParsing {α : Type} {parser : Parser α} {language : Language TokenKind}
    {avoid : Set TokenKind} (what : String) (name : Name)
    (parses : Parses effect room parser source before language avoid) :
    Parses effect room (whileParsing what name parser) source before language avoid := by
  have looks : lookup name source before = some (.ok (source.names.lookup name), before) := rfl
  exact .congr (bind_of_ok looks) (.mapError (fun _ => rfl) parses)

theorem parses_formals (fits : room ≤ source.budget) :
    Parses effect room formals source before
      (mark .parenOpen * (listed Grammar.formal * mark .parenClose)) ∅ := by
  refine .bind (.expect rfl) (fun _ mid word _ _ _ _ => ?_) .nothing
  exact .listUntil (by omega) rfl opens_formal rfl nofun (by decide) fun _ => parses_formal (by omega)

end Parser

end IncrementalFrontend
