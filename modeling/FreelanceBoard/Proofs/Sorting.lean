import Mathlib.Data.List.Sort

/-! Stable sorting: where a sort puts one more item, and that it can be exchanged with a filter. -/
namespace FreelanceBoard

namespace Sorting

variable {α : Type} {le : α → α → Bool}

/-- Sorting a list with one more item in front: the item comes before all that it is not above. -/
theorem mergeSort_cons_eq (trans : ∀ a b c, le a b = true → le b c = true → le a c = true)
    (total : ∀ a b, (le a b || le b a) = true) (a : α) (l : List α) :
    (a :: l).mergeSort le =
      (l.mergeSort le).filter (fun b => !le a b) ++ a :: (l.mergeSort le).filter (le a) := by
  obtain ⟨below, above, hcons, hl, hbelow⟩ := List.mergeSort_cons trans total a l
  have hsorted := List.pairwise_mergeSort trans total (a :: l)
  rw [hcons, List.pairwise_append] at hsorted
  have habove : ∀ b ∈ above, le a b = true := (List.pairwise_cons.1 hsorted.2.1).1
  have h1 : below.filter (fun b => !le a b) = below := List.filter_eq_self.2 hbelow
  have h2 : above.filter (fun b => !le a b) = [] :=
    List.filter_eq_nil_iff.2 fun b hb => by simp [habove b hb]
  have h3 : below.filter (le a) = [] :=
    List.filter_eq_nil_iff.2 fun b hb => by simpa using hbelow b hb
  have h4 : above.filter (le a) = above := List.filter_eq_self.2 habove
  rw [hcons, hl, List.filter_append, List.filter_append, h1, h2, h3, h4]
  simp

/-- Whether the items to keep are chosen before or after a stable sort makes no difference. -/
theorem filter_mergeSort (trans : ∀ a b c, le a b = true → le b c = true → le a c = true)
    (total : ∀ a b, (le a b || le b a) = true) (keep : α → Bool) (l : List α) :
    (l.mergeSort le).filter keep = (l.filter keep).mergeSort le := by
  induction l with
  | nil => simp
  | cons a l ih =>
    have hswap : ∀ p : α → Bool,
        ((l.mergeSort le).filter p).filter keep = ((l.filter keep).mergeSort le).filter p := by
      intro p
      rw [← ih, List.filter_filter, List.filter_filter]
      simp only [Bool.and_comm]
    cases hk : keep a with
    | true =>
      rw [mergeSort_cons_eq trans total, List.filter_append, List.filter_cons_of_pos hk, hswap,
        hswap, List.filter_cons_of_pos hk, mergeSort_cons_eq trans total]
    | false =>
      obtain ⟨below, above, hcons, hl, -⟩ := List.mergeSort_cons trans total a l
      rw [hcons, List.filter_append, List.filter_cons_of_neg (by simp [hk]), ← List.filter_append,
        ← hl, ih, List.filter_cons_of_neg (by simp [hk])]

end Sorting

end FreelanceBoard
