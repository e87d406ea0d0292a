import FreelanceBoard.Proofs.LeastEdits
import FreelanceBoard.Text.Relevance
import Mathlib.Algebra.BigOperators.Group.List.Basic
import Mathlib.Algebra.Order.Field.Rat
import Mathlib.Algebra.Order.BigOperators.Group.List
import Mathlib.Tactic.NormNum

/-! What the tokens of a query are worth to a text. Comparing the lengths of two tokens first loses
no pair that is close enough, and with more edits allowed no token is worth less. -/
namespace FreelanceBoard

namespace Text

variable {edits wider : Int} {s t token : List Char} {text query : List (List Char)}

theorem withinEdits_iff : withinEdits edits s t = true ↔ Within edits s t := by
  rw [within_iff, withinEdits, Bool.and_eq_true, decide_eq_true_eq, decide_eq_true_eq]
  exact and_iff_right_of_imp (length_sub_le_editDistance s t).trans

theorem any_withinEdits_iff :
    text.any (withinEdits edits token) = true ↔ ∃ found ∈ text, Within edits token found := by
  simp only [List.any_eq_true, withinEdits_iff]

theorem totalScore_eq_sum (edits : Int) (text query : List (List Char)) :
    totalScore edits text query = (query.map (tokenScore edits text)).sum := by
  induction query with
  | nil => rfl
  | cons token rest ih => rw [totalScore, ih, List.map_cons, List.sum_cons]

theorem tokenScore_pos_iff :
    0 < tokenScore edits text token ↔
      ∃ found ∈ text, token = found ∨ Within edits token found := by
  rw [tokenScore]
  split_ifs with hsame hnear
  · exact iff_of_true Nat.two_pos ⟨token, hsame, .inl rfl⟩
  · obtain ⟨found, hfound, hs⟩ := any_withinEdits_iff.1 hnear
    exact iff_of_true Nat.one_pos ⟨found, hfound, .inr hs⟩
  · refine iff_of_false (Nat.lt_irrefl 0) ?_
    rintro ⟨found, hfound, rfl | hs⟩
    · exact hsame hfound
    · exact hnear (any_withinEdits_iff.2 ⟨found, hfound, hs⟩)

theorem totalScore_pos_iff :
    0 < totalScore edits text query ↔
      ∃ asked ∈ query, ∃ found ∈ text, asked = found ∨ Within edits asked found := by
  rw [totalScore_eq_sum, List.sum_pos_iff_exists_pos_nat]
  simp only [List.mem_map, exists_exists_and_eq_and, tokenScore_pos_iff]

/-- The score of a token that is compared with every token of the text, however long that is. -/
def plainTokenScore (edits : Int) (text : List (List Char)) (token : List Char) : Nat :=
  if text.contains token then 2
  else if text.any fun t => decide ((editDistance token t : Int) ≤ edits) then 1
  else 0

def plainScore (query text : String) (edits : Int) : Nat :=
  ((tokens query).map (plainTokenScore edits (tokens text))).sum

theorem tokenScore_eq_plainTokenScore (edits : Int) (text : List (List Char)) :
    tokenScore edits text = plainTokenScore edits text := by
  have hnear : withinEdits edits = fun s t => decide ((editDistance s t : Int) ≤ edits) := by
    funext s t
    rw [Bool.eq_iff_iff, withinEdits_iff, within_iff, decide_eq_true_eq]
  funext token
  simp only [tokenScore, plainTokenScore, hnear, List.contains_iff_mem]

/-- The score is the one that comparing all tokens gives: no two tokens within the edits allowed
differ more in length. -/
theorem fuzzyScore_eq_plainScore (query text : String) (edits : Int) :
    fuzzyScore query text edits = plainScore query text edits ∧
      ∀ s t : List Char, (editDistance s t : Int) ≤ edits →
        (((s.length : Int) - t.length).natAbs : Int) ≤ edits := by
  refine ⟨?_, fun s t => (length_sub_le_editDistance s t).trans⟩
  rw [fuzzyScore, totalScore_eq_sum, tokenScore_eq_plainTokenScore, plainScore]

/-- Two tokens that one more character makes equal; their lengths differ by as much as is allowed. -/
theorem fuzzyScore_eq_plainScore_longer :
    fuzzyScore "landing pge" "Landing page design" 1 =
        plainScore "landing pge" "Landing page design" 1 ∧
      (editDistance "pge".toList "page".toList : Int) ≤ 1 ∧
      (((("pge".toList).length : Int) - ("page".toList).length).natAbs : Int) ≤ 1 := by
  obtain ⟨hscore, hlength⟩ := fuzzyScore_eq_plainScore "landing pge" "Landing page design" 1
  have hnear : (editDistance "pge".toList "page".toList : Int) ≤ 1 := by decide
  exact ⟨hscore, hnear, hlength _ _ hnear⟩

/-- What a token of a query is worth: one where the text has it, a half where it is near one that
the text has. -/
def worth (edits : Int) (text : List (List Char)) (token : List Char) : ℚ :=
  if text.contains token then 1
  else if ∃ found ∈ text, Within edits token found then 1 / 2
  else 0

/-- Scores count halves. -/
theorem cast_tokenScore (edits : Int) (text : List (List Char)) (token : List Char) :
    (tokenScore edits text token : ℚ) = 2 * worth edits text token := by
  rw [tokenScore, worth]
  simp only [any_withinEdits_iff, List.contains_iff_mem]
  split_ifs <;> norm_num

theorem cast_totalScore (edits : Int) (text query : List (List Char)) :
    (totalScore edits text query : ℚ) = 2 * (query.map (worth edits text)).sum := by
  induction query with
  | nil => simp [totalScore]
  | cons token rest ih =>
    rw [totalScore, Nat.cast_add, ih, cast_tokenScore, List.map_cons, List.sum_cons, mul_add]

theorem worth_mono (h : edits ≤ wider) (text : List (List Char)) (token : List Char) :
    worth edits text token ≤ worth wider text token := by
  rw [worth, worth]
  split_ifs with hsame hnear hwider hwider
  · exact le_refl _
  · exact le_refl _
  · obtain ⟨found, hfound, hs⟩ := hnear
    exact absurd ⟨found, hfound, hs.mono h⟩ hwider
  · norm_num
  · exact le_refl _

end Text

end FreelanceBoard
