import Mathlib.Data.List.Perm.Basic
import Mathlib.Data.List.Nodup

/-! Lists of items that have a key. An item is put in the place of the first one with its key, or at
the end if there is none. -/
namespace FreelanceBoard

namespace Keyed

open scoped List

variable {α β κ κ' : Type} [DecidableEq κ] [DecidableEq κ'] {key : α → κ}

def find? (key : α → κ) (k : κ) (as : List α) : Option α :=
  as.find? fun a => decide (key a = k)

def put (key : α → κ) (a : α) : List α → List α
  | [] => [a]
  | b :: bs => if key b = key a then a :: bs else b :: put key a bs

def erase (key : α → κ) (k : κ) (as : List α) : List α :=
  as.filter fun a => decide (key a ≠ k)

theorem key_of_find? {k : κ} {as : List α} {a : α} (h : find? key k as = some a) :
    key a = k := by
  have hkey := List.find?_some h
  simpa using hkey

theorem mem_of_find? {k : κ} {as : List α} {a : α} (h : find? key k as = some a) : a ∈ as :=
  List.mem_of_find?_eq_some h

theorem find?_eq_none_iff {k : κ} {as : List α} :
    find? key k as = none ↔ k ∉ as.map key := by
  simp [find?]

/-! Items that are mapped, and their keys with them. -/
section

variable {g : κ → κ'} {keyOf : β → κ'} {f : α → β}

theorem find?_map (hg : Function.Injective g) {as : List α}
    (hf : ∀ a ∈ as, keyOf (f a) = g (key a)) (k : κ) :
    find? keyOf (g k) (as.map f) = (find? key k as).map f := by
  induction as with
  | nil => rfl
  | cons a as ih =>
    rw [List.forall_mem_cons] at hf
    rw [find?] at ih ⊢
    rw [List.map_cons, List.find?_cons, ih hf.2, find?, find?, List.find?_cons, hf.1]
    by_cases h : key a = k
    · simp [h]
    · simp [h, hg.ne h]

theorem map_put (hg : Function.Injective g) {a : α} {as : List α}
    (hf : ∀ b ∈ a :: as, keyOf (f b) = g (key b)) :
    (put key a as).map f = put keyOf (f a) (as.map f) := by
  induction as with
  | nil => rfl
  | cons b bs ih =>
    rw [List.forall_mem_cons, List.forall_mem_cons] at hf
    rw [put, List.map_cons, put, hf.1, hf.2.1]
    by_cases h : key b = key a
    · rw [if_pos h, if_pos (congrArg g h), List.map_cons]
    · rw [if_neg h, if_neg (hg.ne h), List.map_cons, ih (List.forall_mem_cons.2 ⟨hf.1, hf.2.2⟩)]

theorem map_erase (hg : Function.Injective g) {as : List α}
    (hf : ∀ a ∈ as, keyOf (f a) = g (key a)) (k : κ) :
    (erase key k as).map f = erase keyOf (g k) (as.map f) := by
  rw [erase, erase, List.filter_map]
  refine congrArg (List.map f) (List.filter_congr fun a ha => ?_)
  simp [hf a ha, hg.eq_iff]

theorem find?_comp (hg : Function.Injective g) (k : κ) (as : List α) :
    find? (g ∘ key) (g k) as = find? key k as := by
  have hmap : find? (g ∘ key) (g k) (as.map id) = (find? key k as).map id :=
    find?_map hg (fun a _ => (rfl : (g ∘ key) (id a) = g (key a))) k
  rwa [List.map_id, Option.map_id] at hmap

theorem put_comp (hg : Function.Injective g) (a : α) (as : List α) :
    put (g ∘ key) a as = put key a as := by
  have hmap : (put key a as).map id = put (g ∘ key) (id a) (as.map id) :=
    map_put hg fun _ _ => rfl
  rwa [List.map_id, List.map_id, eq_comm] at hmap

theorem erase_comp (hg : Function.Injective g) (k : κ) (as : List α) :
    erase (g ∘ key) (g k) as = erase key k as := by
  have hmap : (erase key k as).map id = erase (g ∘ key) (g k) (as.map id) :=
    map_erase hg (fun a _ => (rfl : (g ∘ key) (id a) = g (key a))) k
  rwa [List.map_id, List.map_id, eq_comm] at hmap

end

theorem find?_put_self (a : α) (as : List α) : find? key (key a) (put key a as) = some a := by
  induction as with
  | nil => simp [put, find?]
  | cons b bs ih =>
    rw [put]
    by_cases h : key b = key a
    · simp [h, find?]
    · rw [if_neg h, find?, List.find?_cons_of_neg (by simpa using h)]
      exact ih

theorem find?_put_of_ne {k : κ} {a : α} (h : key a ≠ k) (as : List α) :
    find? key k (put key a as) = find? key k as := by
  induction as with
  | nil => simp [put, find?, h]
  | cons b bs ih =>
    rw [put]
    by_cases hb : key b = key a
    · have hbk : key b ≠ k := fun e => h (hb.symm.trans e)
      simp [hb, find?, h]
    · rw [if_neg hb]
      rw [find?] at ih ⊢
      rw [List.find?_cons, ih]
      rfl

theorem find?_erase_self (k : κ) (as : List α) : find? key k (erase key k as) = none := by
  rw [find?_eq_none_iff]
  intro hmem
  obtain ⟨a, ha, hkey⟩ := List.mem_map.1 hmem
  have hne : key a ≠ k := by simpa using (List.mem_filter.1 ha).2
  exact hne hkey

theorem find?_erase_of_ne {k l : κ} (h : l ≠ k) (as : List α) :
    find? key k (erase key l as) = find? key k as := by
  induction as with
  | nil => rfl
  | cons a as ih =>
    rw [erase] at ih ⊢
    by_cases hl : key a = l
    · have hk : key a ≠ k := fun e => h (hl.symm.trans e)
      have hfirst : find? key k (a :: as) = find? key k as := by simp [find?, hk]
      rw [List.filter_cons_of_neg (by simpa using hl), ih, hfirst]
    · rw [List.filter_cons_of_pos (by simpa using hl)]
      rw [find?] at ih ⊢
      rw [List.find?_cons, ih]
      rfl

theorem mem_of_mem_put {a b : α} {as : List α} (h : b ∈ put key a as) : b = a ∨ b ∈ as := by
  induction as with
  | nil => exact .inl (List.mem_singleton.1 h)
  | cons c cs ih =>
    rw [put] at h
    by_cases hc : key c = key a
    · rw [if_pos hc, List.mem_cons] at h
      rcases h with h | h
      · exact .inl h
      · exact .inr (List.mem_cons_of_mem _ h)
    · rw [if_neg hc, List.mem_cons] at h
      rcases h with h | h
      · exact .inr (h ▸ List.mem_cons_self)
      · exact (ih h).imp_right (List.mem_cons_of_mem _)

/-- An item whose key is new goes to the end. -/
theorem put_of_notMem {a : α} {as : List α} (h : key a ∉ as.map key) : put key a as = as ++ [a] := by
  induction as with
  | nil => rfl
  | cons b bs ih =>
    rw [List.map_cons, List.mem_cons, not_or] at h
    rw [put, if_neg fun e => h.1 e.symm, ih h.2]
    rfl

/-- Putting an item where it is already changes nothing. -/
theorem put_of_find? {a : α} {as : List α} (h : find? key (key a) as = some a) : put key a as = as := by
  induction as with
  | nil => simp [find?] at h
  | cons b bs ih =>
    rw [put]
    by_cases hb : key b = key a
    · have hba : b = a := by simpa [find?, hb] using h
      rw [if_pos hb, hba]
    · rw [find?, List.find?_cons_of_neg (by simpa using hb)] at h
      rw [if_neg hb, ih h]

/-- What an item has in common with the one it replaces stays as it is. -/
theorem map_put_of_find? {f : α → β} {a b : α} {as : List α} (hb : find? key (key a) as = some b)
    (hf : f a = f b) : (put key a as).map f = as.map f := by
  induction as with
  | nil => simp [find?] at hb
  | cons c cs ih =>
    rw [put]
    by_cases h : key c = key a
    · have hcb : c = b := by simpa [find?, h] using hb
      rw [if_pos h, List.map_cons, List.map_cons, hf, hcb]
    · rw [find?, List.find?_cons_of_neg (by simpa using h)] at hb
      rw [if_neg h, List.map_cons, List.map_cons, ih hb]

theorem find?_eq_some_iff {k : κ} {as : List α} {a : α} (hkeys : (as.map key).Nodup) :
    find? key k as = some a ↔ a ∈ as ∧ key a = k := by
  constructor
  · intro h
    exact ⟨mem_of_find? h, key_of_find? h⟩
  · rintro ⟨ha, hk⟩
    cases h : find? key k as with
    | none => exact absurd (hk ▸ List.mem_map_of_mem ha) (find?_eq_none_iff.1 h)
    | some b =>
      have hb : key b = key a := (key_of_find? h).trans hk.symm
      exact congrArg some (List.inj_on_of_nodup_map hkeys (mem_of_find? h) ha hb)

/-- Where all keys are different, the order of the items does not matter for what is found. -/
theorem find?_of_perm {as bs : List α} (h : as.Perm bs) (hkeys : (bs.map key).Nodup) (k : κ) :
    find? key k as = find? key k bs := by
  have hkeys' : (as.map key).Nodup := (h.map key).nodup_iff.2 hkeys
  ext a
  rw [find?_eq_some_iff hkeys', find?_eq_some_iff hkeys, h.mem_iff]

/-- What is found under each key is all that there is to know of items that all have different keys. -/
theorem perm_of_find?_eq {as bs : List α} (has : (as.map key).Nodup) (hbs : (bs.map key).Nodup)
    (h : ∀ k, find? key k as = find? key k bs) : as.Perm bs := by
  refine (List.perm_ext_iff_of_nodup has.of_map hbs.of_map).2 fun a => ?_
  have hmem : ∀ cs : List α, (cs.map key).Nodup → (a ∈ cs ↔ find? key (key a) cs = some a) := by
    intro cs hcs
    rw [find?_eq_some_iff hcs]
    exact ⟨fun ha => ⟨ha, rfl⟩, And.left⟩
  rw [hmem as has, hmem bs hbs, h]

theorem put_perm_cons_erase (a : α) {as : List α} (hkeys : (as.map key).Nodup) :
    (put key a as).Perm (a :: erase key (key a) as) := by
  induction as with
  | nil => exact List.Perm.refl _
  | cons b bs ih =>
    rw [List.map_cons, List.nodup_cons] at hkeys
    rw [put, erase]
    by_cases hb : key b = key a
    · have hrest : ∀ c ∈ bs, decide (key c ≠ key a) = true := by
        intro c hc
        refine decide_eq_true fun e => hkeys.1 ?_
        rw [hb, ← e]
        exact List.mem_map_of_mem hc
      rw [if_pos hb, List.filter_cons_of_neg (by simpa using hb), List.filter_eq_self.2 hrest]
    · rw [if_neg hb, List.filter_cons_of_pos (by simpa using hb)]
      exact ((ih hkeys.2).cons b).trans (List.Perm.swap a b _)

theorem erase_of_perm {as bs : List α} (h : as.Perm bs) (k : κ) :
    (erase key k as).Perm (erase key k bs) := h.filter _

theorem put_of_perm {as bs : List α} (h : as.Perm bs) (hkeys : (bs.map key).Nodup) (a : α) :
    (put key a as).Perm (put key a bs) :=
  calc put key a as
    _ ~ a :: erase key (key a) as := put_perm_cons_erase a ((h.map key).nodup_iff.2 hkeys)
    _ ~ a :: erase key (key a) bs := (erase_of_perm h (key a)).cons a
    _ ~ put key a bs := (put_perm_cons_erase a hkeys).symm

theorem nodup_erase {as : List α} (hkeys : (as.map key).Nodup) (k : κ) :
    ((erase key k as).map key).Nodup := hkeys.sublist (List.filter_sublist.map _)

theorem nodup_put (a : α) {as : List α} (hkeys : (as.map key).Nodup) :
    ((put key a as).map key).Nodup := by
  have hnew : key a ∉ (erase key (key a) as).map key := by
    intro hmem
    obtain ⟨b, hb, hkey⟩ := List.mem_map.1 hmem
    rw [erase, List.mem_filter, decide_eq_true_eq] at hb
    exact hb.2 hkey
  have hperm := (put_perm_cons_erase a hkeys).map key
  rw [hperm.nodup_iff, List.map_cons, List.nodup_cons]
  exact ⟨hnew, nodup_erase hkeys (key a)⟩

end Keyed

end FreelanceBoard
