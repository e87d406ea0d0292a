import FreelanceBoard.Text.Relevance
import Mathlib.Data.List.Basic

/-! A text answers itself. Its word characters are still ones in lower case, so that a text with a word
character has a token, and every token of a text is one of its own. -/
namespace FreelanceBoard

namespace Ranges

/-- Whether one of the ranges holds everything from `low` to `high`. -/
def covers : Ranges → Nat → Nat → Bool
  | [], _, _ => false
  | (first, last) :: rest, low, high =>
    bif low.ble last then first.ble low && high.ble last else covers rest low high

/-- Whether the ranges hold nothing from `low` to `high`. -/
def misses : Ranges → Nat → Nat → Bool
  | [], _, _ => true
  | (first, last) :: rest, low, high =>
    bif high.ble last then high.blt first else last.blt low && misses rest low high

theorem contains_of_covers {rs : Ranges} {low high n : Nat} (h : rs.covers low high = true)
    (hlow : low ≤ n) (hhigh : n ≤ high) : rs.contains n = true := by
  induction rs with
  | nil => cases h
  | cons range rest ih =>
    obtain ⟨first, last⟩ := range
    simp only [covers, cond_eq_ite, Nat.ble_eq] at h
    rw [contains_cons]
    by_cases hlast : low ≤ last
    · rw [if_pos hlast, Bool.and_eq_true, Nat.ble_eq, Nat.ble_eq] at h
      rw [if_pos (by omega), decide_eq_true_eq]
      omega
    · rw [if_neg hlast] at h
      rw [if_neg (by omega), ih h]

theorem not_contains_of_misses {rs : Ranges} {low high n : Nat} (h : rs.misses low high = true)
    (hlow : low ≤ n) (hhigh : n ≤ high) : rs.contains n = false := by
  induction rs with
  | nil => rfl
  | cons range rest ih =>
    obtain ⟨first, last⟩ := range
    simp only [misses, cond_eq_ite, Nat.ble_eq] at h
    rw [contains_cons]
    by_cases hlast : high ≤ last
    · rw [if_pos hlast, Nat.blt_eq] at h
      rw [if_pos (by omega), decide_eq_false_iff_not]
      omega
    · rw [if_neg hlast, Bool.and_eq_true, Nat.blt_eq] at h
      rw [if_neg (by omega), ih h.2]

theorem lt_of_contains {rs : Ranges} {bound n : Nat} (h : rs.contains n = true)
    (hbound : ∀ range ∈ rs, range.2 < bound) : n < bound := by
  induction rs with
  | nil => cases h
  | cons range rest ih =>
    obtain ⟨first, last⟩ := range
    rw [contains_cons] at h
    by_cases hlast : n ≤ last
    · exact Nat.lt_of_le_of_lt hlast (hbound _ List.mem_cons_self)
    · rw [if_neg hlast] at h
      exact ih h fun range hrange => hbound range (List.mem_cons_of_mem _ hrange)

end Ranges

theorem Char.toNat_ofNat_of_isValidChar {n : Nat} (h : n.isValidChar) : (Char.ofNat n).toNat = n := by
  rw [Char.ofNat, dif_pos h]
  rfl

namespace Text

/-- A run of capitals whose lower-case forms are all word characters, or that are none themselves. -/
def CaseRun.keepsWords (r : CaseRun) : Bool :=
  wordRanges.covers ((r.first : Int) + r.shift).toNat ((r.last : Int) + r.shift).toNat ||
    wordRanges.misses r.first r.last

theorem lowerRuns_keepWords : lowerRuns.all CaseRun.keepsWords = true := by
  decide +kernel

theorem lowerCode_cases (runs : List CaseRun) (n : Nat) : lowerCode runs n = n ∨
    ∃ r ∈ runs, r.first ≤ n ∧ n ≤ r.last ∧ lowerCode runs n = ((n : Int) + r.shift).toNat := by
  induction runs with
  | nil => exact .inl rfl
  | cons r rest ih =>
    rw [lowerCode]
    split_ifs with hfirst hlast hstep
    · exact .inl rfl
    · exact .inr ⟨r, List.mem_cons_self, by omega, hlast, rfl⟩
    · exact .inl rfl
    · exact ih.imp_right fun ⟨run, hrun, h⟩ => ⟨run, List.mem_cons_of_mem _ hrun, h⟩

theorem contains_lowerCode {n : Nat} (h : wordRanges.contains n = true) :
    wordRanges.contains (lowerCode lowerRuns n) = true := by
  rcases lowerCode_cases lowerRuns n with hsame | ⟨r, hr, hfirst, hlast, hcode⟩
  · rwa [hsame]
  · have hkeeps := List.all_eq_true.1 lowerRuns_keepWords r hr
    rw [CaseRun.keepsWords, Bool.or_eq_true] at hkeeps
    rw [hcode]
    rcases hkeeps with hcover | hmiss
    · exact Ranges.contains_of_covers hcover (by omega) (by omega)
    · rw [Ranges.not_contains_of_misses hmiss hfirst hlast] at h
      cases h

theorem wordRanges_scalar : wordRanges.misses 0xd800 0xdfff = true ∧
    wordRanges.all (fun range => decide (range.2 < 0x110000)) = true := by
  decide +kernel

theorem isValidChar_of_contains {n : Nat} (h : wordRanges.contains n = true) : n.isValidChar := by
  obtain ⟨hmiss, hbound⟩ := wordRanges_scalar
  have hlow : ¬ (0xd800 ≤ n ∧ n ≤ 0xdfff) := by
    rintro ⟨hfirst, hlast⟩
    rw [Ranges.not_contains_of_misses hmiss hfirst hlast] at h
    cases h
  have hhigh := Ranges.lt_of_contains h (by simpa using hbound)
  simp only [Nat.isValidChar]
  omega

/-- The lower-case form of a word character has one. -/
theorem exists_isWordChar_lowerChar {c : Char} (h : isWordChar c = true) :
    ∃ d ∈ lowerChar c, isWordChar d = true := by
  rw [lowerChar]
  split_ifs with hdotted
  · exact ⟨'i', List.mem_cons_self, by decide +kernel⟩
  · refine ⟨_, List.mem_singleton_self _, ?_⟩
    have hcode := contains_lowerCode h
    rw [isWordChar, Char.toNat_ofNat_of_isValidChar (isValidChar_of_contains hcode)]
    exact hcode

theorem isWordChar_lowerSigma (before after : List Char) :
    isWordChar (lowerSigma before after) = true := by
  rw [lowerSigma]
  split_ifs <;> decide +kernel

theorem exists_isWordChar_lowerFrom {before cs : List Char} (h : ∃ c ∈ cs, isWordChar c = true) :
    ∃ d ∈ lowerFrom before cs, isWordChar d = true := by
  induction cs generalizing before with
  | nil =>
    obtain ⟨c, hc, -⟩ := h
    cases hc
  | cons c cs ih =>
    obtain ⟨d, hd, hword⟩ := h
    rw [lowerFrom]
    rcases List.mem_cons.1 hd with rfl | hd
    · split_ifs
      · exact ⟨_, List.mem_append_left _ (List.mem_singleton_self _), isWordChar_lowerSigma _ _⟩
      · obtain ⟨e, he, hlower⟩ := exists_isWordChar_lowerChar hword
        exact ⟨e, List.mem_append_left _ he, hlower⟩
    · obtain ⟨e, he, hlower⟩ := @ih (c :: before) ⟨d, hd, hword⟩
      exact ⟨e, List.mem_append_right _ he, hlower⟩

theorem runsFrom_ne_nil {p : Char → Bool} {current cs : List Char}
    (h : current ≠ [] ∨ ∃ c ∈ cs, p c = true) : runsFrom p current cs ≠ [] := by
  induction cs generalizing current with
  | nil =>
    have hcurrent : current ≠ [] := h.resolve_right (by simp)
    simp [runsFrom, closeRun, hcurrent]
  | cons c cs ih =>
    rw [runsFrom]
    by_cases hc : p c = true
    · rw [if_pos hc]
      exact ih (.inl (by simp))
    · rw [if_neg hc]
      rcases h with hcurrent | ⟨d, hd, hword⟩
      · simp [closeRun, hcurrent]
      · have hrest : ∃ d ∈ cs, p d = true := by
          rcases List.mem_cons.1 hd with rfl | hd
          · exact absurd hword hc
          · exact ⟨d, hd, hword⟩
        exact List.append_ne_nil_of_right_ne_nil _ (ih (.inr hrest))

theorem tokens_ne_nil {t : String} (h : ∃ c ∈ t.toList, isWordChar c = true) : tokens t ≠ [] :=
  runsFrom_ne_nil (.inr (exists_isWordChar_lowerFrom h))

/-- A text that has a word character answers itself. -/
theorem fuzzyScore_self_pos {t : String} (h : ∃ c ∈ t.toList, isWordChar c = true) (edits : Int) :
    0 < fuzzyScore t t edits := by
  obtain ⟨token, rest, htokens⟩ := List.exists_cons_of_ne_nil (tokens_ne_nil h)
  rw [fuzzyScore, htokens, totalScore, tokenScore, if_pos List.mem_cons_self]
  omega

end Text

end FreelanceBoard
