import FreelanceBoard.Server.Indices
import Mathlib.Data.List.Nodup
import Mathlib.Data.Set.Insert
import Mathlib.Logic.Function.Basic

/-! Clusters of indices and aliases, what is missing of some aliases on them, and the ways in which it
may be added bit by bit. -/
namespace FreelanceBoard

/-- The indices of a server with their mappings, and the indices behind each alias. -/
structure Cluster where
  mapping? : String → Option Value
  behind : String → Set String

namespace Cluster

open Indices

variable {aliases : List (String × String)} {C D E : Cluster} {collection name index : String}

def withIndex (C : Cluster) (index : String) (mapping : Value) : Cluster :=
  { C with mapping? := Function.update C.mapping? index (some mapping) }

def withAlias (C : Cluster) (index name : String) : Cluster :=
  { C with behind := Function.update C.behind name (insert index (C.behind name)) }

theorem mapping?_withIndex_self (C : Cluster) (index : String) (mapping : Value) :
    (C.withIndex index mapping).mapping? index = some mapping := Function.update_self ..

theorem mapping?_withIndex_of_ne (C : Cluster) {other : String} (h : other ≠ index) (mapping : Value) :
    (C.withIndex index mapping).mapping? other = C.mapping? other := Function.update_of_ne h ..

theorem behind_withAlias_self (C : Cluster) (index name : String) :
    (C.withAlias index name).behind name = insert index (C.behind name) := Function.update_self ..

theorem behind_withAlias_of_ne (C : Cluster) {other : String} (h : other ≠ name) (index : String) :
    (C.withAlias index name).behind other = C.behind other := Function.update_of_ne h ..

/-- No index and no alias bears a name. -/
def Free (C : Cluster) (name : String) : Prop := C.mapping? name = none ∧ C.behind name = ∅

/-- Each of some aliases is there. -/
def Complete (aliases : List (String × String)) (C : Cluster) : Prop :=
  ∀ a ∈ aliases, (C.behind a.2).Nonempty

/-- No index bears the name of one of some aliases, and no alias that of the first index of one. -/
structure RoomFor (aliases : List (String × String)) (C : Cluster) : Prop where
  noIndex : ∀ a ∈ aliases, C.mapping? a.2 = none
  noAlias : ∀ a ∈ aliases, C.behind (initialIndex a.2) = ∅

/-- One cluster is another with what is missing of some aliases: those that are not there point to
their first indices, of which those that are not there are made, and all else is as it was. -/
structure Completion (aliases : List (String × String)) (C D : Cluster) : Prop where
  aliased : ∀ a ∈ aliases, C.behind a.2 = ∅ → D.behind a.2 = {initialIndex a.2}
  created : ∀ a ∈ aliases, C.behind a.2 = ∅ → C.mapping? (initialIndex a.2) = none →
    D.mapping? (initialIndex a.2) = some (mappingOf a.1)
  sameAliases : ∀ name, ((∀ a ∈ aliases, a.2 ≠ name) ∨ (C.behind name).Nonempty) →
    D.behind name = C.behind name
  sameIndices : ∀ index, (C.mapping? index ≠ none ∨
      ∀ a ∈ aliases, C.behind a.2 = ∅ → index ≠ initialIndex a.2) →
    D.mapping? index = C.mapping? index

namespace Completion

theorem refl (h : C.Complete aliases) : Completion aliases C C where
  aliased a ha hnone := absurd hnone (h a ha).ne_empty
  created a ha hnone := absurd hnone (h a ha).ne_empty
  sameAliases _ _ := rfl
  sameIndices _ _ := rfl

theorem unique (hD : Completion aliases C D) (hE : Completion aliases C E) : D = E := by
  have hbehind : D.behind = E.behind := by
    funext name
    by_cases hname : (∀ a ∈ aliases, a.2 ≠ name) ∨ (C.behind name).Nonempty
    · rw [hD.sameAliases name hname, hE.sameAliases name hname]
    · simp only [not_or, not_forall, not_not, Set.not_nonempty_iff_eq_empty] at hname
      obtain ⟨⟨a, ha, rfl⟩, hnone⟩ := hname
      rw [hD.aliased a ha hnone, hE.aliased a ha hnone]
  have hmapping : D.mapping? = E.mapping? := by
    funext index
    by_cases hindex : C.mapping? index ≠ none ∨
        ∀ a ∈ aliases, C.behind a.2 = ∅ → index ≠ initialIndex a.2
    · rw [hD.sameIndices index hindex, hE.sameIndices index hindex]
    · simp only [not_or, not_forall, not_not] at hindex
      obtain ⟨hfree, a, ha, hnone, rfl⟩ := hindex
      rw [hD.created a ha hnone hfree, hE.created a ha hnone hfree]
  calc D = ⟨D.mapping?, D.behind⟩ := rfl
    _ = ⟨E.mapping?, E.behind⟩ := by rw [hmapping, hbehind]

end Completion

end Cluster

namespace Indices

theorem initialIndex_injective {name other : String} (h : initialIndex name = initialIndex other) :
    name = other := by
  simpa [initialIndex] using h

theorem ne_initialIndex (name : String) : name ≠ initialIndex name := by
  intro h
  have hlength := congrArg String.length h
  rw [initialIndex, String.length_append] at hlength
  have hsuffix : "-initial".length = 8 := rfl
  omega

/-- Aliases that differ, none of which is called like the first index of another. -/
structure Apart (aliases : List (String × String)) : Prop where
  distinct : (aliases.map Prod.snd).Nodup
  noInitial : ∀ a ∈ aliases, ∀ b ∈ aliases, a.2 ≠ b.2 → a.2 ≠ initialIndex b.2

namespace Apart

variable {aliases : List (String × String)} {a b : String × String}

theorem ne_initialIndex (h : Apart aliases) (ha : a ∈ aliases) (hb : b ∈ aliases) :
    a.2 ≠ initialIndex b.2 := by
  by_cases hname : a.2 = b.2
  · rw [hname]
    exact Indices.ne_initialIndex b.2
  · exact h.noInitial a ha b hb hname

theorem eq_of_name_eq (h : Apart aliases) (ha : a ∈ aliases) (hb : b ∈ aliases) (hname : a.2 = b.2) :
    a = b :=
  List.inj_on_of_nodup_map h.distinct ha hb hname

end Apart

end Indices

open Indices

/-- What may be asked in setting up some aliases on a cluster. An index is made where no index and no
alias is called so, and for an alias that is not there; that is then put on the index. -/
inductive Cluster.Admits (aliases : List (String × String)) (C : Cluster) : ServerCall → Prop
  | aliasExists (name : String) : Admits aliases C (.request (.aliasExists name))
  | indexExists (index : String) : Admits aliases C (.request (.indexExists index))
  | createIndex {a : String × String} (ha : a ∈ aliases) (hnone : C.behind a.2 = ∅)
      (hfree : C.Free (initialIndex a.2)) (hname : initialIndex a.2 ∉ aliases.map Prod.snd) :
    Admits aliases C (.request (.createIndex (initialIndex a.2) (mappingOf a.1)))
  | putAlias {a : String × String} (ha : a ∈ aliases) (hnone : C.behind a.2 = ∅)
      (hindex : C.mapping? (initialIndex a.2) ≠ none) :
    Admits aliases C (.request (.putAlias (initialIndex a.2) a.2))

/-- An index is made or an alias put. -/
def ServerCall.Alters : ServerCall → Prop
  | .request (.createIndex _ _) => True
  | .request (.putAlias _ _) => True
  | _ => False

namespace Cluster

variable {aliases : List (String × String)} {C D : Cluster} {a : String × String}

/-- Nothing is altered where nothing is missing. -/
theorem Admits.not_alters {call : ServerCall} (h : C.Admits aliases call) (hall : C.Complete aliases) :
    ¬ call.Alters := by
  cases h with
  | aliasExists name => exact id
  | indexExists index => exact id
  | createIndex ha hnone hfree hname => exact absurd hnone (hall _ ha).ne_empty
  | putAlias ha hnone hindex => exact absurd hnone (hall _ ha).ne_empty

/-- A cluster while some aliases are set up on it: what is missing of them makes the same of it as of
the cluster at the start. -/
structure Underway (aliases : List (String × String)) (start C : Cluster) : Prop where
  room : C.RoomFor aliases
  completion : ∀ D, Completion aliases C D → Completion aliases start D
  still : start.Complete aliases → C = start

namespace Underway

variable {start : Cluster}

theorem refl (h : C.RoomFor aliases) : Underway aliases C C := ⟨h, fun _ hD => hD, fun _ => rfl⟩

theorem not_complete (h : Underway aliases start C) (ha : a ∈ aliases) (hnone : C.behind a.2 = ∅) :
    ¬ start.Complete aliases := by
  intro hstart
  rw [h.still hstart] at hnone
  exact (hstart a ha).ne_empty hnone

/-- The first index of an alias is made. -/
theorem withIndex (h : Underway aliases start C) (hapart : Apart aliases) (ha : a ∈ aliases)
    (hnone : C.behind a.2 = ∅) (hfree : C.mapping? (initialIndex a.2) = none) :
    Underway aliases start (C.withIndex (initialIndex a.2) (mappingOf a.1)) where
  room :=
    { noIndex b hb := by
        rw [C.mapping?_withIndex_of_ne (hapart.ne_initialIndex hb ha)]
        exact h.room.noIndex b hb
      noAlias := h.room.noAlias }
  still hstart := absurd hstart (h.not_complete ha hnone)
  completion D hD := h.completion D
    { aliased := hD.aliased
      sameAliases := hD.sameAliases
      created b hb hbnone hbfree := by
        by_cases hname : a.2 = b.2
        · -- A completion keeps the index that is there now, as it was made to be.
          obtain rfl := hapart.eq_of_name_eq ha hb hname
          have hmade := C.mapping?_withIndex_self (initialIndex a.2) (mappingOf a.1)
          rw [hD.sameIndices _ (.inl (by simp [hmade])), hmade]
        · have hne : initialIndex b.2 ≠ initialIndex a.2 :=
            fun heq => hname (initialIndex_injective heq).symm
          exact hD.created b hb hbnone (by rwa [C.mapping?_withIndex_of_ne hne])
      sameIndices index hindex := by
        have hne : index ≠ initialIndex a.2 := by
          rintro rfl
          rcases hindex with hthere | hother
          · exact hthere hfree
          · exact hother a ha hnone rfl
        rw [← C.mapping?_withIndex_of_ne hne (mappingOf a.1)] at hindex ⊢
        exact hD.sameIndices index hindex }

/-- An alias is put on its first index. -/
theorem withAlias (h : Underway aliases start C) (hapart : Apart aliases) (ha : a ∈ aliases)
    (hnone : C.behind a.2 = ∅) (hindex : C.mapping? (initialIndex a.2) ≠ none) :
    Underway aliases start (C.withAlias (initialIndex a.2) a.2) where
  room :=
    { noIndex := h.room.noIndex
      noAlias b hb := by
        rw [C.behind_withAlias_of_ne (hapart.ne_initialIndex ha hb).symm]
        exact h.room.noAlias b hb }
  still hstart := absurd hstart (h.not_complete ha hnone)
  completion D hD := h.completion D
    { aliased b hb hbnone := by
        by_cases hname : b.2 = a.2
        · have hput := C.behind_withAlias_self (initialIndex a.2) a.2
          rw [hname, hD.sameAliases _ (.inr ⟨initialIndex a.2, by simp [hput]⟩), hput, hnone,
            insert_empty_eq]
        · exact hD.aliased b hb (by rwa [C.behind_withAlias_of_ne hname])
      created b hb hbnone hbfree := by
        -- An alias whose first index is not there yet is another one.
        have hname : b.2 ≠ a.2 := fun heq => hindex (heq ▸ hbfree)
        exact hD.created b hb (by rwa [C.behind_withAlias_of_ne hname]) hbfree
      sameAliases name hname := by
        have hne : name ≠ a.2 := by
          rintro rfl
          rcases hname with hother | hthere
          · exact hother a ha rfl
          · exact hthere.ne_empty hnone
        rw [← C.behind_withAlias_of_ne hne (initialIndex a.2)] at hname ⊢
        exact hD.sameAliases name hname
      sameIndices index hsame := by
        refine hD.sameIndices index (hsame.imp_right fun hother b hb hbnone => hother b hb ?_)
        by_cases hname : b.2 = a.2
        · rw [hname, hnone]
        · rwa [C.behind_withAlias_of_ne hname] at hbnone }

/-- Once no alias is missing, the cluster at the start is completed. -/
theorem completion_of_complete (h : Underway aliases start C) (hall : C.Complete aliases) :
    Completion aliases start C :=
  h.completion C (.refl hall)

end Underway

end Cluster

end FreelanceBoard
