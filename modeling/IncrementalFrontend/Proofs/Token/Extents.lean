import IncrementalFrontend.Proofs.Source.Location
import IncrementalFrontend.Proofs.Token.Coverage
import IncrementalFrontend.Proofs.Token.Walks

/-!
Extents over the tokens of a text. Tokens and comments stand one behind the other, so what stands on
some of the tokens is located within what stands on more of them.
-/
namespace IncrementalFrontend

structure AreOrdered (entries : List TokenEntry) : Prop where
  tokens : ∀ i j, i < j → j < entries.length → (spanAt entries i).stop ≤ (spanAt entries j).start
  filled : ∀ i, i + 1 < entries.length → (spanAt entries i).start < (spanAt entries i).stop
  comments : ∀ j, ∀ comment ∈ commentsAt entries j, comment.span.start < comment.span.stop ∧
    comment.span.stop ≤ (spanAt entries j).start ∧
    ∀ i < j, (spanAt entries i).stop ≤ comment.span.start
  sorted : (entries.flatMap TokenEntry.comments).Pairwise fun earlier later =>
    earlier.span.stop ≤ later.span.start

section

variable {entries : List TokenEntry} {i j : Nat}

theorem spanAt_eq (inside : i < entries.length) : spanAt entries i = entries[i].token.span := by
  rw [spanAt, tokenAt, List.getElem?_eq_getElem inside]
  rfl

theorem exists_of_mem_commentsAt {comment : Comment} (member : comment ∈ commentsAt entries i) :
    ∃ inside : i < entries.length, comment ∈ entries[i].comments := by
  rw [commentsAt] at member
  cases here : entries[i]? with
  | none => simp [here] at member
  | some entry =>
    obtain ⟨inside, rfl⟩ := List.getElem?_eq_some_iff.mp here
    exact ⟨inside, by simpa [here] using member⟩

/-- The comments of all tokens in their order. -/
theorem flatMap_commentsAt (entries : List TokenEntry) :
    (List.range entries.length).flatMap (commentsAt entries) =
      entries.flatMap TokenEntry.comments := by
  induction entries with
  | nil => rfl
  | cons entry rest ih =>
    rw [List.length_cons, List.range_succ_eq_map, List.flatMap_cons, List.flatMap_cons, ← ih,
      List.flatMap_map]
    rfl

end

namespace TokenList

variable {tokens : TokenList} {stop : Nat}

/-- All but the span of the last token are spans of the text. -/
theorem StandsWithin.exists_spans (stands : tokens.StandsWithin stop) : ∃ init comments,
    tokens.entries = init ++ [⟨.endOfFile (.point stop), comments⟩] ∧
      tokens.spans = init.flatMap TokenEntry.spans ++ comments.map (·.span) := by
  obtain ⟨init, comments, same, -⟩ := stands.ended
  refine ⟨init, comments, same, ?_⟩
  rw [spans, same, List.flatMap_append, List.flatMap_singleton, TokenEntry.spans, ← List.append_assoc,
    List.dropLast_concat]

/-- The spans of all comments and tokens, the end of the file with them, are ordered. -/
theorem StandsWithin.pairwise_spans (stands : tokens.StandsWithin stop) :
    (tokens.entries.flatMap TokenEntry.spans).Pairwise fun earlier later =>
      earlier.stop ≤ later.start := by
  obtain ⟨init, comments, same, spans⟩ := stands.exists_spans
  have all : tokens.entries.flatMap TokenEntry.spans =
      tokens.spans ++ [.point stop] := by
    rw [same, spans, List.flatMap_append, List.flatMap_singleton, TokenEntry.spans,
      ← List.append_assoc]
    rfl
  rw [all]
  refine List.pairwise_append.mpr ⟨stands.ordered, List.pairwise_singleton .., ?_⟩
  intro span member last isLast
  obtain rfl := List.mem_singleton.mp isLast
  exact (stands.filled span member).2

theorem StandsWithin.mem_spans_comment (stands : tokens.StandsWithin stop) {entry : TokenEntry}
    (member : entry ∈ tokens.entries) {comment : Comment} (inside : comment ∈ entry.comments) :
    comment.span ∈ tokens.spans := by
  obtain ⟨init, comments, same, spans⟩ := stands.exists_spans
  rw [spans]
  rcases List.mem_append.mp (same ▸ member) with early | last
  · refine List.mem_append_left _ (List.mem_flatMap.mpr ⟨entry, early, ?_⟩)
    exact List.mem_append_left _ (List.mem_map_of_mem inside)
  · obtain rfl := List.mem_singleton.mp last
    exact List.mem_append_right _ (List.mem_map_of_mem inside)

theorem StandsWithin.mem_spans_token (stands : tokens.StandsWithin stop) {i : Nat}
    (inside : i + 1 < tokens.entries.length) : spanAt tokens.entries i ∈ tokens.spans := by
  obtain ⟨init, comments, same, spans⟩ := stands.exists_spans
  have early : i < init.length := by
    rw [same, List.length_append, List.length_singleton] at inside
    omega
  rw [spanAt_eq (Nat.lt_of_succ_lt inside), spans]
  simp only [same, List.getElem_append_left early]
  refine List.mem_append_left _ (List.mem_flatMap.mpr ⟨init[i], List.getElem_mem early, ?_⟩)
  exact List.mem_append_right _ (List.mem_singleton.mpr rfl)

theorem StandsWithin.areOrdered (stands : tokens.StandsWithin stop) : AreOrdered tokens.entries := by
  obtain ⟨each, across⟩ := List.pairwise_flatMap.mp stands.pairwise_spans
  have token_mem (entry : TokenEntry) : entry.token.span ∈ entry.spans :=
    List.mem_append_right _ (List.mem_singleton.mpr rfl)
  have comment_mem {entry : TokenEntry} {comment : Comment} (inside : comment ∈ entry.comments) :
      comment.span ∈ entry.spans := List.mem_append_left _ (List.mem_map_of_mem inside)
  constructor
  · intro i j less inside
    have earlier := Nat.lt_trans less inside
    rw [spanAt_eq earlier, spanAt_eq inside]
    exact List.pairwise_iff_getElem.mp across i j earlier inside less _ (token_mem _) _ (token_mem _)
  · exact fun i inside => (stands.filled _ (stands.mem_spans_token inside)).1
  · intro j comment member
    obtain ⟨inside, member⟩ := exists_of_mem_commentsAt member
    have entry_mem := List.getElem_mem inside
    refine ⟨(stands.filled _ (stands.mem_spans_comment entry_mem member)).1, ?_, fun i less => ?_⟩
    · rw [spanAt_eq inside]
      have within := List.pairwise_append.mp (each _ entry_mem)
      exact within.2.2 _ (List.mem_map_of_mem member) _ (List.mem_singleton.mpr rfl)
    · have earlier := Nat.lt_trans less inside
      rw [spanAt_eq earlier]
      exact List.pairwise_iff_getElem.mp across i j earlier inside less _ (token_mem _) _
        (comment_mem member)
  · refine List.pairwise_flatMap.mpr ⟨fun entry member => ?_, across.imp fun ordered => ?_⟩
    · exact List.pairwise_map.mp (List.pairwise_append.mp (each entry member)).1
    · exact fun x inFirst y inSecond => ordered _ (comment_mem inFirst) _ (comment_mem inSecond)

theorem areOrdered_ofText (text : String) (names : Interner) :
    AreOrdered (ofText text names).1.entries :=
  (standsWithin_ofText text names).areOrdered

/-- An invalid token comes with an error that has its span. -/
theorem StandsWithin.exists_error (stands : tokens.StandsWithin stop) {i : Nat}
    (invalid : (tokenAt tokens.entries i).kind = .invalid) :
    ∃ error ∈ tokens.errors, error.span = spanAt tokens.entries i := by
  have member : spanAt tokens.entries i ∈ tokens.invalidSpans := by
    cases here : tokens.entries[i]? with
    | none => simp [tokenAt, here, Token.endOfFile] at invalid
    | some entry =>
      have same : tokenAt tokens.entries i = entry.token := by simp [tokenAt, here]
      rw [same] at invalid
      refine List.mem_map.mpr ⟨entry, List.mem_filter.mpr ⟨List.mem_of_getElem? here, ?_⟩, ?_⟩
      · simpa using invalid
      · rw [spanAt, same]
  exact stands.reported _ member

end TokenList

namespace AreOrdered

variable {entries : List TokenEntry} (ordered : AreOrdered entries) {first last i j : Nat}
include ordered

theorem start_le (le : i ≤ j) (inside : j < entries.length) :
    (spanAt entries i).start ≤ (spanAt entries j).start := by
  rcases Nat.eq_or_lt_of_le le with rfl | less
  · exact Nat.le_refl _
  · have := ordered.tokens i j less inside
    have := ordered.filled i (by omega)
    omega

theorem stop_le (le : i ≤ j) (inside : j + 1 < entries.length) :
    (spanAt entries i).stop ≤ (spanAt entries j).stop := by
  rcases Nat.eq_or_lt_of_le le with rfl | less
  · exact Nat.le_refl _
  · have := ordered.tokens i j less (by omega)
    have := ordered.filled j inside
    omega

theorem extent_eq (le : first ≤ last) (inside : last + 1 < entries.length) :
    extent entries first last = ⟨(spanAt entries first).start, (spanAt entries last).stop⟩ := by
  rw [extent, Nat.max_eq_left (ordered.stop_le le inside)]

/-- Comments start one behind the other. -/
theorem pairwise_comments : ((List.range entries.length).flatMap (commentsAt entries)).Pairwise
    fun earlier later => earlier.span.start < later.span.start := by
  have sorted := ordered.sorted
  rw [← flatMap_commentsAt] at sorted
  refine sorted.imp_of_mem fun member _ apart => ?_
  obtain ⟨index, -, inside⟩ := List.mem_flatMap.mp member
  exact Nat.lt_of_lt_of_le (ordered.comments index _ inside).1 apart

variable (lines : LineIndex) (path : Name)

/-- What stands on some tokens is located within what stands on more of them. -/
theorem isWithin_extent (least : first ≤ i) (le : i ≤ j) (most : j ≤ last)
    (inside : last + 1 < entries.length) :
    (lines.location path (extent entries i j)).IsWithin
      (lines.location path (extent entries first last)) := by
  rw [ordered.extent_eq le (by omega), ordered.extent_eq (by omega) inside]
  refine lines.isWithin_location ?_ (ordered.start_le least (by omega)) (ordered.stop_le most inside)
  have := ordered.filled i (by omega)
  have := ordered.stop_le le (by omega)
  dsimp only
  omega

/-- A single token is located within what stands on tokens around it. -/
theorem isWithin_token (least : first ≤ i) (most : i ≤ last) (inside : last + 1 < entries.length) :
    (lines.location path (spanAt entries i)).IsWithin
      (lines.location path (extent entries first last)) := by
  have within := ordered.isWithin_extent lines path least (Nat.le_refl i) most inside
  rwa [ordered.extent_eq (Nat.le_refl i) (by omega)] at within

/-- Comments between the first token and the last one are located within what stands on them. -/
theorem isWithin_comment {comment : Comment} (member : comment ∈ commentsAt entries i)
    (least : first < i) (most : i ≤ last) (inside : last + 1 < entries.length) :
    (lines.location path comment.span).IsWithin
      (lines.location path (extent entries first last)) := by
  obtain ⟨filled, stop, start⟩ := ordered.comments i comment member
  have := start first least
  have := ordered.filled first (by omega)
  have := ordered.start_le most (by omega)
  have := ordered.filled last inside
  rw [ordered.extent_eq (by omega) inside]
  refine lines.isWithin_location filled ?_ ?_ <;> dsimp only <;> omega

/-- What stands on tokens further on starts later. -/
theorem isBefore_extent (less : first < i) (inside : i < entries.length) :
    (lines.location path (extent entries first last)).first.IsBefore
      (lines.location path (extent entries i j)).first := by
  refine lines.isBefore_location ?_
  have := ordered.tokens first i less inside
  have := ordered.filled first (by omega)
  dsimp only [extent]
  omega

end AreOrdered

end IncrementalFrontend
