import FreelanceBoard.Proofs.FuzzyScores
import FreelanceBoard.Proofs.MemorySearch

/-! What a search on a store in memory lists: every record whose text has a token near one of the
query, the best scores first and equal ones as they are stored. -/
namespace FreelanceBoard

namespace SearchStage

/-- The text of a record that the stage searches. -/
def text? (stage : SearchStage) (record : Fields) : Option String :=
  match record.lookup stage.field with
  | some (.text text) => some text
  | _ => none

/-- The record has a text under the field of the stage, and a token of that is one of the query's or
near one. -/
def Answers (stage : SearchStage) (record : Fields) : Prop :=
  ∃ text, record.lookup stage.field = some (.text text) ∧
    ∃ asked ∈ Text.tokens stage.query, ∃ found ∈ Text.tokens text,
      asked = found ∨ Text.Within stage.edits asked found

/-- What the tokens of the query are worth together, to a record without a text nothing. -/
def score (stage : SearchStage) (record : Fields) : ℚ :=
  match stage.text? record with
  | some text => ((Text.tokens stage.query).map (Text.worth stage.edits (Text.tokens text))).sum
  | none => 0

variable {stage : SearchStage} {record : Fields}

theorem text?_eq_some_iff {text : String} :
    stage.text? record = some text ↔ record.lookup stage.field = some (.text text) := by
  rw [text?]
  cases record.lookup stage.field with
  | none => simp
  | some v => cases v <;> simp

theorem relevance_of_text {text : String} (h : stage.text? record = some text) :
    Memory.relevance stage record = Text.fuzzyScore stage.query text stage.edits := by
  rw [Memory.relevance, text?_eq_some_iff.1 h]

theorem relevance_of_no_text (h : stage.text? record = none) :
    Memory.relevance stage record = 0 := by
  rw [Memory.relevance]
  split
  · next text htext => cases h.symm.trans (text?_eq_some_iff.2 htext)
  · rfl

theorem relevance_pos_iff : 0 < Memory.relevance stage record ↔ stage.Answers record := by
  simp only [Answers, ← text?_eq_some_iff]
  cases h : stage.text? record with
  | none => simp [relevance_of_no_text h]
  | some text => simp [relevance_of_text h, Text.fuzzyScore, Text.totalScore_pos_iff]

instance (stage : SearchStage) (record : Fields) : Decidable (stage.Answers record) :=
  decidable_of_iff _ relevance_pos_iff

theorem cast_relevance (stage : SearchStage) (record : Fields) :
    (Memory.relevance stage record : ℚ) = 2 * stage.score record := by
  rw [score]
  cases h : stage.text? record with
  | none => rw [relevance_of_no_text h, Nat.cast_zero, mul_zero]
  | some text =>
    rw [relevance_of_text h]
    exact Text.cast_totalScore _ _ _

theorem score_le_iff {other : Fields} :
    stage.score record ≤ stage.score other ↔
      Memory.relevance stage record ≤ Memory.relevance stage other := by
  rw [← Nat.cast_le (α := ℚ), cast_relevance, cast_relevance]
  exact (mul_le_mul_iff_right₀ two_pos).symm

/-- The stage with another number of edits allowed. -/
def allowing (stage : SearchStage) (edits : Int) : SearchStage := { stage with edits := edits }

theorem Answers.allowing (h : stage.Answers record) {wider : Int} (hle : stage.edits ≤ wider) :
    (stage.allowing wider).Answers record := by
  obtain ⟨text, htext, asked, hasked, found, hfound, hs⟩ := h
  exact ⟨text, htext, asked, hasked, found, hfound, hs.imp_right (·.mono hle)⟩

theorem score_le_allowing {wider : Int} (hle : stage.edits ≤ wider) (record : Fields) :
    stage.score record ≤ (stage.allowing wider).score record := by
  have htext : (stage.allowing wider).text? record = stage.text? record := rfl
  rw [score, score, htext]
  cases stage.text? record with
  | none => exact le_refl _
  | some text => exact List.sum_le_sum fun token _ => Text.worth_mono hle _ token

end SearchStage

namespace Memory

/-- The entries in which a search has to result, of those that are stored. -/
structure Ranks (stage : SearchStage) (stored found : Entries) : Prop where
  eachOnce : found.Perm (stored.filter fun e => stage.Answers e.record)
  bestFirst : found.Pairwise fun a b => stage.score b.record ≤ stage.score a.record
  tiesInOrder : ∀ s, found.filter (fun e => stage.score e.record = s) =
    (stored.filter fun e => stage.Answers e.record).filter fun e => stage.score e.record = s

theorem ranks_rankedEntries (stage : SearchStage) (es : Entries) :
    Ranks stage es (rankedEntries stage es) := by
  have hanswers : (fun e : Entry => decide (0 < relevance stage e.record)) =
      fun e => decide (stage.Answers e.record) := by
    funext e
    rw [decide_eq_decide, SearchStage.relevance_pos_iff]
  have htrans : ∀ a b c : Entry,
      decide (relevance stage b.record ≤ relevance stage a.record) = true →
      decide (relevance stage c.record ≤ relevance stage b.record) = true →
      decide (relevance stage c.record ≤ relevance stage a.record) = true := by
    simp only [decide_eq_true_eq]
    exact fun a b c hab hbc => hbc.trans hab
  have htotal : ∀ a b : Entry, (decide (relevance stage b.record ≤ relevance stage a.record) ||
      decide (relevance stage a.record ≤ relevance stage b.record)) = true := by
    simp only [Bool.or_eq_true, decide_eq_true_eq]
    exact fun a b => le_total _ _
  constructor
  · rw [rankedEntries, hanswers]
    exact List.mergeSort_perm _ _
  · refine (List.pairwise_mergeSort htrans htotal _).imp ?_
    intro a b hab
    exact SearchStage.score_le_iff.2 (of_decide_eq_true hab)
  · intro s
    have hties : ((es.filter fun e => stage.Answers e.record).filter
        fun e => stage.score e.record = s).Pairwise
        fun a b => decide (relevance stage b.record ≤ relevance stage a.record) = true := by
      refine List.pairwise_of_forall_mem_list fun a ha b hb => ?_
      have hscores : stage.score b.record = stage.score a.record := by
        rw [of_decide_eq_true (List.mem_filter.1 ha).2, of_decide_eq_true (List.mem_filter.1 hb).2]
      exact decide_eq_true (SearchStage.score_le_iff.1 hscores.le)
    rw [rankedEntries, Sorting.filter_mergeSort htrans htotal, hanswers,
      List.mergeSort_of_pairwise hties]

theorem Ranks.subperm {stage : SearchStage} {wider : Int} {stored found more : Entries}
    (h : Ranks stage stored found) (hmore : Ranks (stage.allowing wider) stored more)
    (hle : stage.edits ≤ wider) : found.Subperm more := by
  have hkept : (stored.filter fun e => stage.Answers e.record).Sublist
      (stored.filter fun e => (stage.allowing wider).Answers e.record) :=
    List.monotone_filter_right _ fun e he =>
      decide_eq_true ((of_decide_eq_true he).allowing hle)
  exact (h.eachOnce.subperm.trans hkept.subperm).trans hmore.eachOnce.symm.subperm

end Memory

/-- A search leaves the store as it is and lists each record that answers it once, ranked by score;
with more edits allowed it still lists them, and none with a smaller score. -/
theorem search_ranks_answers (m : Memory) (stage : SearchStage) :
    ∃ found : Entries, Memory.handle (.search stage) m = (.ok found.records, m) ∧
      Memory.Ranks stage (m.entries Collection.projects) found ∧
      ∀ wider, stage.edits ≤ wider →
        ∃ more : Entries, Memory.handle (.search (stage.allowing wider)) m = (.ok more.records, m) ∧
          found.Subperm more ∧
          ∀ e ∈ found, stage.score e.record ≤ (stage.allowing wider).score e.record := by
  have hfound := Memory.ranks_rankedEntries stage (m.entries Collection.projects)
  refine ⟨_, by rw [Memory.handle, Memory.ranked_eq_records], hfound, ?_⟩
  intro wider hle
  have hmore := Memory.ranks_rankedEntries (stage.allowing wider) (m.entries Collection.projects)
  exact ⟨_, by rw [Memory.handle, Memory.ranked_eq_records], hfound.subperm hmore hle,
    fun e _ => SearchStage.score_le_allowing hle e.record⟩

/-- Of three projects two answer, the mistyped one as well; one has no text for a title. -/
theorem search_ranks_answers_mistyped :
    let stage : SearchStage := ⟨"title", "landing page", 1⟩
    let m : Memory := .holding [(Collection.projects,
      [⟨.text "p9", [("id", .text "p9"), ("title", .text "Landng pge")]⟩,
       ⟨.text "p1", [("id", .text "p1"), ("title", .text "Landing page")]⟩,
       ⟨.text "p2", [("id", .text "p2"), ("title", .int 7)]⟩])]
    ∃ found : Entries, Memory.handle (.search stage) m = (.ok found.records, m) ∧
      Memory.Ranks stage (m.entries Collection.projects) found ∧ found.length = 2 ∧ stage.edits ≤ 2 ∧
      ∃ more : Entries, Memory.handle (.search (stage.allowing 2)) m = (.ok more.records, m) ∧
        found.Subperm more ∧
        ∀ e ∈ found, stage.score e.record ≤ (stage.allowing 2).score e.record := by
  intro stage m
  obtain ⟨found, hfound, hranks, hwider⟩ := search_ranks_answers m stage
  have hlength : found.length = 2 := by
    rw [hranks.eachOnce.length_eq]
    decide +kernel
  have hle : stage.edits ≤ 2 := by decide
  exact ⟨found, hfound, hranks, hlength, hle, hwider 2 hle⟩

end FreelanceBoard
