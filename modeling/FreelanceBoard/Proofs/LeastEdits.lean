import FreelanceBoard.Text.EditDistance
import Mathlib.Data.List.Infix
import Mathlib.Data.List.Forall2
import Mathlib.Order.Bounds.Basic

/-! The edit distance of two texts is the least number of edits that turn one into the other. Edits
in any order are taken apart at the ends of the texts, which gives the rule for an entry of a row. -/
namespace FreelanceBoard

namespace Text

/-- One character is inserted, deleted or replaced by another one. -/
inductive Edit : List Char → List Char → Prop
  | insert (front back : List Char) (c : Char) : Edit (front ++ back) (front ++ c :: back)
  | delete (front back : List Char) (c : Char) : Edit (front ++ c :: back) (front ++ back)
  | replace (front back : List Char) {c d : Char} (h : c ≠ d) :
      Edit (front ++ c :: back) (front ++ d :: back)

/-- A number of edits, one after the other. -/
inductive Edits : Nat → List Char → List Char → Prop
  | none (xs : List Char) : Edits 0 xs xs
  | next {n : Nat} {xs ys zs : List Char} (h : Edit xs ys) (hs : Edits n ys zs) :
      Edits (n + 1) xs zs

/-- No more than `bound` edits are needed. -/
def Within (bound : Int) (xs ys : List Char) : Prop := ∃ n : Nat, (n : Int) ≤ bound ∧ Edits n xs ys

def LeastEdits (xs ys : List Char) (n : Nat) : Prop := IsLeast {k | Edits k xs ys} n

variable {xs ys zs front back : List Char} {x y : Char} {n k : Nat} {bound wider : Int}

/-- Where a text that ends in a character is split: behind that character, or before. -/
theorem concat_eq_append (h : front ++ [x] = xs ++ back) :
    (back = [] ∧ xs = front ++ [x]) ∨ ∃ rest, back = rest ++ [x] ∧ front = xs ++ rest := by
  rcases List.eq_nil_or_concat' back with rfl | ⟨rest, y, rfl⟩
  · exact .inl ⟨rfl, by rw [h, List.append_nil]⟩
  · rw [← List.append_assoc] at h
    obtain ⟨hfront, hlast⟩ := List.append_inj' h rfl
    cases hlast
    exact .inr ⟨rest, rfl, hfront⟩

namespace Edit

theorem symm (h : Edit xs ys) : Edit ys xs := by
  cases h with
  | insert front back c => exact delete front back c
  | delete front back c => exact insert front back c
  | replace front back h => exact replace front back h.symm

theorem append (h : Edit xs ys) (back : List Char) : Edit (xs ++ back) (ys ++ back) := by
  cases h with
  | insert front rest c => simpa using insert front (rest ++ back) c
  | delete front rest c => simpa using delete front (rest ++ back) c
  | replace front rest h => simpa using replace front (rest ++ back) h

theorem insert_last (xs : List Char) (c : Char) : Edit xs (xs ++ [c]) := by
  simpa using insert xs [] c

theorem length_le (h : Edit xs ys) : xs.length ≤ ys.length + 1 := by
  cases h <;> simp only [List.length_append, List.length_cons] <;> omega

/-- What an edit does to the last character: it goes, one more comes behind it, it is replaced, or
it stays and the edit is further in front. -/
theorem of_concat (h : Edit (front ++ [x]) zs) :
    zs = front ∨ (∃ c, zs = front ++ [x] ++ [c]) ∨ (∃ c, x ≠ c ∧ zs = front ++ [c]) ∨
      ∃ changed, Edit front changed ∧ zs = changed ++ [x] := by
  generalize hxs : front ++ [x] = xs at h
  cases h with
  | insert before back c =>
    rcases concat_eq_append hxs with ⟨rfl, rfl⟩ | ⟨rest, rfl, rfl⟩
    · exact .inr (.inl ⟨c, by simp⟩)
    · exact .inr (.inr (.inr ⟨before ++ c :: rest, insert before rest c, by simp⟩))
  | delete before back c =>
    have hsplit : front ++ [x] = before ++ [c] ++ back := by simpa using hxs
    rcases concat_eq_append hsplit with ⟨rfl, hlast⟩ | ⟨rest, rfl, rfl⟩
    · obtain ⟨rfl, -⟩ := List.append_inj' hlast rfl
      exact .inl (List.append_nil _)
    · have hfurther : Edit (before ++ [c] ++ rest) (before ++ rest) := by
        simpa using delete before rest c
      exact .inr (.inr (.inr ⟨before ++ rest, hfurther, by simp⟩))
  | @replace before back c d hne =>
    have hsplit : front ++ [x] = before ++ [c] ++ back := by simpa using hxs
    rcases concat_eq_append hsplit with ⟨rfl, hlast⟩ | ⟨rest, rfl, rfl⟩
    · obtain ⟨rfl, hc⟩ := List.append_inj' hlast rfl
      cases hc
      exact .inr (.inr (.inl ⟨d, hne, rfl⟩))
    · have hfurther : Edit (before ++ [c] ++ rest) (before ++ d :: rest) := by
        simpa using replace before rest hne
      exact .inr (.inr (.inr ⟨before ++ d :: rest, hfurther, by simp⟩))

end Edit

namespace Edits

theorem trans (h : Edits n xs ys) (hs : Edits k ys zs) : Edits (n + k) xs zs := by
  induction h with
  | none xs => rwa [Nat.zero_add]
  | @next n xs ws ys h _ ih =>
    rw [Nat.add_right_comm]
    exact next h (ih hs)

theorem single (h : Edit xs ys) : Edits 1 xs ys := next h (none ys)

theorem symm (h : Edits n xs ys) : Edits n ys xs := by
  induction h with
  | none xs => exact none xs
  | next h _ ih => exact ih.trans (single h.symm)

theorem append (h : Edits n xs ys) (back : List Char) : Edits n (xs ++ back) (ys ++ back) := by
  induction h with
  | none xs => exact none _
  | next h _ ih => exact next (h.append back) ih

theorem length_le (h : Edits n xs ys) : xs.length ≤ ys.length + n := by
  induction h with
  | none xs => exact Nat.le_refl _
  | next h _ ih =>
    have hfirst := h.length_le
    omega

theorem zero_iff : Edits 0 xs ys ↔ xs = ys := by
  constructor
  · intro h
    cases h
    rfl
  · rintro rfl
    exact none xs

theorem of_length (xs : List Char) : Edits xs.length xs [] := by
  induction xs with
  | nil => exact none []
  | cons x xs ih => exact next (.delete [] xs x) ih

end Edits

namespace Within

theorem mono (h : Within bound xs ys) (hle : bound ≤ wider) : Within wider xs ys :=
  h.imp fun _ => .imp_left hle.trans'

theorem next (h : Edit xs ys) (hs : Within bound ys zs) : Within (bound + 1) xs zs := by
  obtain ⟨n, hn, hs⟩ := hs
  exact ⟨n + 1, by omega, .next h hs⟩

end Within

/-- Edits from one text to another, by what becomes of the last characters: the first text's is
deleted, the second text's is inserted, or the one becomes the other. -/
theorem Edits.of_concat (h : Edits n (front ++ [x]) (back ++ [y])) :
    Within (n - 1) front (back ++ [y]) ∨ Within (n - 1) (front ++ [x]) back ∨
      Within (n - if x = y then 0 else 1) front back := by
  induction n using Nat.strong_induction_on generalizing front x with
  | _ n ih =>
    generalize hxs : front ++ [x] = xs at h
    generalize hys : back ++ [y] = ys at h
    cases h with
    | none =>
      obtain ⟨rfl, hlast⟩ := List.append_inj' (hxs.trans hys.symm) rfl
      cases hlast
      exact .inr (.inr ⟨0, by simp, .none _⟩)
    | @next n _ zs _ h hs =>
      subst hxs hys
      rcases h.of_concat with rfl | ⟨c, rfl⟩ | ⟨c, hne, rfl⟩ | ⟨changed, hchange, rfl⟩
      · exact .inl ⟨n, by omega, hs⟩
      · rcases ih n (by omega) hs with ⟨k, hk, hs⟩ | hleft | hboth
        · -- What came in goes again: the edits in between are fewer, and start from the same text.
          rcases ih k (by omega) hs with hup | hleft | hboth
          · exact .inl (hup.mono (by omega))
          · exact .inr (.inl (hleft.mono (by omega)))
          · exact .inr (.inr (hboth.mono (by split_ifs <;> omega)))
        · exact .inr (.inl ((hleft.next (.insert_last (front ++ [x]) c)).mono (by omega)))
        · exact .inr (.inl (hboth.mono (by split_ifs <;> omega)))
      · rcases ih n (by omega) hs with hup | hleft | hboth
        · exact .inl (hup.mono (by omega))
        · exact .inr (.inl ((hleft.next (.replace front [] hne)).mono (by omega)))
        · exact .inr (.inr (hboth.mono (by split_ifs <;> omega)))
      · rcases ih n (by omega) hs with hup | hleft | hboth
        · exact .inl ((hup.next hchange).mono (by omega))
        · exact .inr (.inl ((hleft.next (hchange.append [x])).mono (by omega)))
        · exact .inr (.inr ((hboth.next hchange).mono (by omega)))

namespace LeastEdits

theorem symm (h : LeastEdits xs ys n) : LeastEdits ys xs n :=
  ⟨h.1.symm, fun _ hk => h.2 (Edits.symm hk)⟩

theorem le_of_within (h : LeastEdits xs ys n) (hs : Within bound xs ys) : (n : Int) ≤ bound := by
  obtain ⟨k, hk, hs⟩ := hs
  have hle := h.2 hs
  omega

/-- All characters go. -/
theorem nil_right (xs : List Char) : LeastEdits xs [] xs.length :=
  ⟨.of_length xs, fun k hk => by simpa using Edits.length_le hk⟩

/-- The rule for an entry of a row, from the one above, the one on its left and the one between. -/
theorem concat {above left diagonal : Nat} (habove : LeastEdits front (back ++ [y]) above)
    (hleft : LeastEdits (front ++ [x]) back left) (hdiagonal : LeastEdits front back diagonal) :
    LeastEdits (front ++ [x]) (back ++ [y])
      (min (min (above + 1) (left + 1)) (diagonal + if x = y then 0 else 1)) := by
  have hdelete : Edits (above + 1) (front ++ [x]) (back ++ [y]) :=
    .next (Edit.insert_last front x).symm habove.1
  have hinsert : Edits (left + 1) (front ++ [x]) (back ++ [y]) :=
    Edits.trans hleft.1 (.single (.insert_last back y))
  have hkeep : Edits (diagonal + if x = y then 0 else 1) (front ++ [x]) (back ++ [y]) := by
    refine Edits.trans (Edits.append hdiagonal.1 [x]) ?_
    split_ifs with h
    · rw [h]
      exact .none _
    · exact .single (.replace back [] h)
  constructor
  · exact min_rec' (Edits · _ _) (min_rec' (Edits · _ _) hdelete hinsert) hkeep
  · intro k hk
    rcases Edits.of_concat hk with h | h | h
    · have hle := habove.le_of_within h
      omega
    · have hle := hleft.le_of_within h
      omega
    · have hle := hdiagonal.le_of_within h
      split_ifs at hle ⊢ <;> omega

end LeastEdits

/-- The row of a start `xs` of the first text, from the start `front` of the second one on: it holds
the least number of edits to each start of the second text. -/
def RowOf (xs front ys : List Char) (row : List Nat) : Prop :=
  List.Forall₂ (fun q n => LeastEdits xs (front ++ q) n) ys.inits row

namespace RowOf

variable {row : List Nat}

theorem nil_iff : RowOf xs front [] row ↔ ∃ n, LeastEdits xs front n ∧ row = [n] := by
  simp [RowOf, List.forall₂_cons_left_iff]

theorem cons_iff : RowOf xs front (y :: ys) row ↔
    ∃ n rest, LeastEdits xs front n ∧ RowOf xs (front ++ [y]) ys rest ∧ row = n :: rest := by
  simp [RowOf, List.forall₂_cons_left_iff, List.forall₂_map_left_iff]

theorem exists_cons (h : RowOf xs front ys row) :
    ∃ n rest, LeastEdits xs front n ∧ row = n :: rest := by
  cases ys with
  | nil =>
    obtain ⟨n, hn, rfl⟩ := nil_iff.1 h
    exact ⟨n, [], hn, rfl⟩
  | cons y ys =>
    obtain ⟨n, rest, hn, -, rfl⟩ := cons_iff.1 h
    exact ⟨n, rest, hn, rfl⟩

/-- The first row: only insertions. -/
theorem first (ys : List Char) : RowOf [] [] ys (List.range (ys.length + 1)) := by
  have hlengths : List.range (ys.length + 1) = ys.inits.map List.length := by
    induction ys with
    | nil => rfl
    | cons y ys ih =>
      rw [List.length_cons, List.range_succ_eq_map, ih, List.inits_cons]
      simp [Function.comp_def]
  rw [RowOf, hlengths, List.forall₂_map_right_iff, List.forall₂_same]
  intro q _
  exact (LeastEdits.nil_right q).symm

theorem rowFrom {left : Nat} (h : RowOf xs front ys row)
    (hleft : LeastEdits (xs ++ [x]) front left) :
    RowOf (xs ++ [x]) front ys (left :: Text.rowFrom x left ys row) := by
  induction ys generalizing front left row with
  | nil =>
    obtain ⟨n, -, rfl⟩ := nil_iff.1 h
    exact nil_iff.2 ⟨left, hleft, rfl⟩
  | cons y ys ih =>
    obtain ⟨diagonal, rest, hdiagonal, hrest, rfl⟩ := cons_iff.1 h
    -- The new entry needs the next one of the old row, which the recursion takes up again.
    obtain ⟨above, below, habove, rfl⟩ := hrest.exists_cons
    exact cons_iff.2 ⟨left, _, hleft, ih hrest (habove.concat hleft hdiagonal), rfl⟩

theorem nextRow (h : RowOf xs [] ys row) : RowOf (xs ++ [x]) [] ys (Text.nextRow ys x row) := by
  obtain ⟨n, rest, hn, rfl⟩ := h.exists_cons
  have hfirst : n + 1 = (xs ++ [x]).length := by
    rw [IsLeast.unique hn (LeastEdits.nil_right xs), List.length_append, List.length_singleton]
  exact h.rowFrom (hfirst ▸ .nil_right (xs ++ [x]))

theorem lastRow (xs ys : List Char) : RowOf xs [] ys (Text.lastRow xs ys) := by
  induction xs using List.reverseRecOn with
  | nil => exact first ys
  | append_singleton xs x ih =>
    rw [lastRow_concat]
    exact ih.nextRow

theorem last (h : RowOf xs front ys row) (default : Nat) :
    LeastEdits xs (front ++ ys) (row.getLast?.getD default) := by
  induction ys generalizing front row default with
  | nil =>
    obtain ⟨n, hn, rfl⟩ := nil_iff.1 h
    simpa using hn
  | cons y ys ih =>
    obtain ⟨n, rest, -, hrest, rfl⟩ := cons_iff.1 h
    simpa [List.getLast?_cons] using ih hrest n

end RowOf

theorem leastEdits_lastEntry (xs ys : List Char) : LeastEdits xs ys (lastEntry xs ys) :=
  (RowOf.lastRow xs ys).last 0

theorem leastEdits_editDistance (xs ys : List Char) : LeastEdits xs ys (editDistance xs ys) := by
  rw [editDistance]
  split_ifs
  · exact (leastEdits_lastEntry ys xs).symm
  · exact leastEdits_lastEntry xs ys

theorem within_iff : Within bound xs ys ↔ (editDistance xs ys : Int) ≤ bound :=
  ⟨(leastEdits_editDistance xs ys).le_of_within,
    fun h => ⟨_, h, (leastEdits_editDistance xs ys).1⟩⟩

instance (bound : Int) (xs ys : List Char) : Decidable (Within bound xs ys) :=
  decidable_of_iff _ within_iff.symm

/-- Each edit changes the length by one at most. -/
theorem length_sub_le_editDistance (xs ys : List Char) :
    (((xs.length : Int) - ys.length).natAbs : Int) ≤ editDistance xs ys := by
  have hedits : Edits (editDistance xs ys) xs ys := (leastEdits_editDistance xs ys).1
  have hlonger := hedits.length_le
  have hshorter := hedits.symm.length_le
  omega

/-- The edit distance is the length of a shortest sequence of edits, and so a distance: it is the
same both ways, it is zero between equal texts alone, and a detour over a third text makes it no
smaller. -/
theorem editDistance_isLeast (xs ys zs : List Char) :
    IsLeast {n | Edits n xs ys} (editDistance xs ys) ∧
      editDistance xs ys = editDistance ys xs ∧ (editDistance xs ys = 0 ↔ xs = ys) ∧
      editDistance xs zs ≤ editDistance xs ys + editDistance ys zs := by
  have hleast := leastEdits_editDistance xs ys
  refine ⟨hleast, ?_, ?_, ?_⟩
  · exact IsLeast.unique hleast (leastEdits_editDistance ys xs).symm
  · constructor
    · intro hzero
      exact Edits.zero_iff.1 (hzero ▸ hleast.1)
    · intro heq
      exact Nat.le_zero.1 (hleast.2 (Edits.zero_iff.2 heq))
  · exact (leastEdits_editDistance xs zs).2
      (Edits.trans hleast.1 (leastEdits_editDistance ys zs).1)

end Text

end FreelanceBoard
