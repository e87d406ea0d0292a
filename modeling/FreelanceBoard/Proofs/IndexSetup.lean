import FreelanceBoard.Proofs.Clusters
import FreelanceBoard.Proofs.CutRuns

/-! Setting up the indices of the board on a server that keeps indices and aliases. A run may be cut
off at any of its requests, and after however many such runs one that is not cut off leaves what it
would have left at first. -/
namespace FreelanceBoard

/-- What is relied on of a server that keeps indices and aliases: it says truly which are there, makes
an index where no index and no alias is called so, and puts an alias that is called like no index on
one that is there. Whether an alias counts as an index of its name does not matter. -/
structure KeepsIndices {σ : Type} (handle : Handler Server Failure σ) (view : σ → Cluster) : Prop where
  aliasExists : ∀ (s : σ) (name : String), ∃ v t,
    handle (.request (.aliasExists name)) s = (.ok (.ok v), t) ∧ view t = view s ∧
      (v.truthy = true ↔ ((view s).behind name).Nonempty)
  indexExists : ∀ (s : σ) (index : String), (view s).behind index = ∅ → ∃ v t,
    handle (.request (.indexExists index)) s = (.ok (.ok v), t) ∧ view t = view s ∧
      (v.truthy = true ↔ (view s).mapping? index ≠ none)
  created : ∀ (s : σ) (index : String) (mapping : Value), (view s).Free index → ∃ v t,
    handle (.request (.createIndex index mapping)) s = (.ok (.ok v), t) ∧
      view t = (view s).withIndex index mapping
  aliasPut : ∀ (s : σ) (index name : String), (view s).mapping? index ≠ none →
    (view s).mapping? name = none → ∃ v t,
    handle (.request (.putAlias index name)) s = (.ok (.ok v), t) ∧
      view t = (view s).withAlias index name

/-- Indices with their mappings and aliases with their indices, in lists. -/
structure IndexLists where
  indices : List (String × Value)
  aliases : List (String × String)

namespace IndexLists

def isIndex (s : IndexLists) (name : String) : Bool := (s.indices.lookup name).isSome

def isAlias (s : IndexLists) (name : String) : Bool := s.aliases.any fun a => a.1 == name

/-- The reply to what was done. -/
def acknowledged : Value := .object [("acknowledged", .bool true)]

/-- Only indices and aliases are asked for and changed. An alias counts as an index of its name. -/
def outcome : Request → IndexLists → Except ClientFailure Value × IndexLists
  | .aliasExists name, s => (.ok (.bool (s.isAlias name)), s)
  | .indexExists index, s => (.ok (.bool (s.isIndex index || s.isAlias index)), s)
  | .createIndex index mapping, s =>
    if s.isIndex index || s.isAlias index then (.error .badRequest, s)
    else (.ok acknowledged, { s with indices := (index, mapping) :: s.indices })
  | .putAlias index name, s =>
    if s.isIndex name then (.error .badRequest, s)
    else if s.isIndex index then
      (.ok acknowledged, { s with aliases := (name, index) :: s.aliases })
    else (.error .notFound, s)
  | _, s => (.error .badRequest, s)

def handle : Handler Server Failure IndexLists
  | .request r, s => (.ok (outcome r s).1, (outcome r s).2)
  | .pause _, s => (.ok (), s)
  | .report _, s => (.ok (), s)

def cluster (s : IndexLists) : Cluster where
  mapping? index := s.indices.lookup index
  behind name := {index | (name, index) ∈ s.aliases}

theorem isIndex_iff (s : IndexLists) (name : String) :
    s.isIndex name = true ↔ s.cluster.mapping? name ≠ none :=
  Option.isSome_iff_ne_none

theorem isAlias_iff (s : IndexLists) (name : String) :
    s.isAlias name = true ↔ (s.cluster.behind name).Nonempty := by
  rw [isAlias, List.any_eq_true]
  constructor
  · rintro ⟨⟨other, index⟩, hmem, hname⟩
    obtain rfl : other = name := by simpa using hname
    exact ⟨index, hmem⟩
  · rintro ⟨index, hmem⟩
    exact ⟨(name, index), hmem, by simp⟩

theorem isAlias_eq_false {s : IndexLists} {name : String} (h : s.cluster.behind name = ∅) :
    s.isAlias name = false := by
  rw [Bool.eq_false_iff]
  intro halias
  exact ((s.isAlias_iff name).1 halias).ne_empty h

theorem isIndex_eq_false {s : IndexLists} {name : String} (h : s.cluster.mapping? name = none) :
    s.isIndex name = false := by
  rw [Bool.eq_false_iff]
  intro hindex
  exact (s.isIndex_iff name).1 hindex h

theorem cluster_cons_index (s : IndexLists) (index : String) (mapping : Value) :
    cluster { s with indices := (index, mapping) :: s.indices } =
      s.cluster.withIndex index mapping := by
  rw [cluster, Cluster.withIndex, Cluster.mk.injEq]
  refine ⟨funext fun other => ?_, rfl⟩
  by_cases h : other = index
  · simp [h]
  · have hbeq : (other == index) = false := by simpa using h
    rw [Function.update_of_ne h, List.lookup_cons, hbeq]
    rfl

theorem cluster_cons_alias (s : IndexLists) (index name : String) :
    cluster { s with aliases := (name, index) :: s.aliases } =
      s.cluster.withAlias index name := by
  rw [cluster, Cluster.withAlias, Cluster.mk.injEq]
  refine ⟨rfl, funext fun other => ?_⟩
  by_cases h : other = name
  · subst h
    ext i
    simp [cluster]
  · rw [Function.update_of_ne h]
    ext i
    simp [cluster, h]

theorem keepsIndices : KeepsIndices handle cluster where
  aliasExists s name := ⟨_, s, rfl, rfl, s.isAlias_iff name⟩
  indexExists s index hnone := by
    refine ⟨_, s, rfl, rfl, ?_⟩
    rw [isAlias_eq_false hnone, Bool.or_false]
    exact s.isIndex_iff index
  created s index mapping hfree := by
    refine ⟨acknowledged, _, ?_, s.cluster_cons_index index mapping⟩
    simp [handle, outcome, isIndex_eq_false hfree.1, isAlias_eq_false hfree.2]
  aliasPut s index name hindex hname := by
    refine ⟨acknowledged, _, ?_, s.cluster_cons_alias index name⟩
    simp [handle, outcome, isIndex_eq_false hname, (s.isIndex_iff index).2 hindex]

/-- An index without a mapping, and two aliases of another. -/
def sample : IndexLists where
  indices := [("projects-initial", .null), ("users-2", Indices.userMapping)]
  aliases := [("users", "users-2"), ("people", "users-2")]

end IndexLists

namespace Indices

open Cluster Program

variable {σ : Type} {handle : Handler Server Failure σ} {view : σ → Cluster}
  {aliases : List (String × String)} {start : Cluster} {s : σ} {a : String × String}

/-- In which states a call is made while aliases are set up. -/
def Timely (view : σ → Cluster) (aliases : List (String × String)) (start : Cluster) (made : ServerCall)
    (s : σ) : Prop :=
  Underway aliases start (view s) ∧ (view s).Admits aliases made

theorem reaches_reply {P : ServerCall → σ → Prop} {r : Request} {v : Value} {t : σ}
    {Q : Value → σ → Prop} (hfits : P (.request r) s) (hreply : handle (.request r) s = (.ok (.ok v), t))
    (hQ : Q v t) : (Server.reply r).Reaches handle P s Q :=
  ⟨hfits, .ok v, t, hreply, hQ⟩

section Setup

variable (hserver : KeepsIndices handle view) (hapart : Apart aliases) (ha : a ∈ aliases)
  (hs : Underway aliases start (view s))

include hserver hapart ha hs

/-- The first index of an alias that is missing is there in the end. -/
theorem reaches_createMissing (hnone : (view s).behind a.2 = ∅) :
    (createMissing (initialIndex a.2) (mappingOf a.1)).Reaches handle (Timely view aliases start) s
      fun _ t => Underway aliases start (view t) ∧ (view t).behind = (view s).behind ∧
        (view t).mapping? (initialIndex a.2) ≠ none := by
  have hnoAlias := hs.room.noAlias a ha
  obtain ⟨v, t, hreply, hview, hthere⟩ := hserver.indexExists s _ hnoAlias
  refine (reaches_reply ⟨hs, .indexExists _⟩ hreply ?_).bind
  split
  · next htruthy =>
    rw [← hview] at hs hthere
    exact ⟨hs, by rw [hview], hthere.1 htruthy⟩
  · next hfalsy =>
    have hfree : (view s).Free (initialIndex a.2) :=
      ⟨not_not.1 fun h => hfalsy (hthere.2 h), hnoAlias⟩
    have hname : initialIndex a.2 ∉ aliases.map Prod.snd := by
      intro hmem
      obtain ⟨b, hb, hname⟩ := List.mem_map.1 hmem
      exact hapart.ne_initialIndex hb ha hname
    rw [← hview] at hs hnone hfree
    obtain ⟨w, u, hcreate, hmade⟩ := hserver.created t _ (mappingOf a.1) hfree
    refine (reaches_reply ⟨hs, .createIndex ha hnone hfree hname⟩ hcreate ?_).bind
    refine ⟨?_, ?_, ?_⟩
    · rw [hmade]
      exact hs.withIndex hapart ha hnone hfree.1
    · rw [hmade, ← hview]
      rfl
    · rw [hmade, mapping?_withIndex_self]
      exact Option.some_ne_none _

/-- One alias is set up, and those that are there stay. -/
theorem reaches_ensureAlias :
    (ensureAlias a.1 a.2).Reaches handle (Timely view aliases start) s fun _ t =>
      Underway aliases start (view t) ∧ ((view t).behind a.2).Nonempty ∧
        ∀ name, ((view s).behind name).Nonempty → ((view t).behind name).Nonempty := by
  obtain ⟨v, t, hreply, hview, hthere⟩ := hserver.aliasExists s a.2
  refine (reaches_reply ⟨hs, .aliasExists _⟩ hreply ?_).bind
  split
  · next htruthy =>
    rw [← hview] at hs hthere ⊢
    exact ⟨hs, hthere.1 htruthy, fun _ h => h⟩
  · next hfalsy =>
    have hnone : (view s).behind a.2 = ∅ :=
      Set.not_nonempty_iff_eq_empty.1 fun h => hfalsy (hthere.2 h)
    rw [← hview] at hs hnone ⊢
    refine Reaches.bind ((reaches_createMissing hserver hapart ha hs hnone).mono ?_)
    rintro - u ⟨hu, hbehind, hindex⟩
    rw [← hbehind] at hnone ⊢
    obtain ⟨w, x, hput, halias⟩ := hserver.aliasPut u _ _ hindex (hu.room.noIndex a ha)
    refine (reaches_reply ⟨hu, .putAlias ha hnone hindex⟩ hput ?_).bind
    show _ ∧ _ ∧ _
    rw [halias]
    have hself : ((view u).withAlias (initialIndex a.2) a.2).behind a.2 = {initialIndex a.2} := by
      rw [behind_withAlias_self, hnone, insert_empty_eq]
    refine ⟨hu.withAlias hapart ha hnone hindex, ?_, fun name hname => ?_⟩
    · rw [hself]
      exact Set.singleton_nonempty _
    · by_cases hother : name = a.2
      · rw [hother, hself]
        exact Set.singleton_nonempty _
      · rwa [behind_withAlias_of_ne _ hother]

end Setup

theorem reaches_ensureAll (hserver : KeepsIndices handle view) (hapart : Apart aliases)
    {todo : List (String × String)} (htodo : todo ⊆ aliases) (hs : Underway aliases start (view s)) :
    (ensureAll todo).Reaches handle (Timely view aliases start) s fun _ t =>
      Underway aliases start (view t) ∧ (view t).Complete todo ∧
        ∀ name, ((view s).behind name).Nonempty → ((view t).behind name).Nonempty := by
  induction todo generalizing s with
  | nil => exact ⟨hs, fun a ha => absurd ha List.not_mem_nil, fun _ h => h⟩
  | cons a rest ih =>
    obtain ⟨ha, hrest⟩ := List.cons_subset.1 htodo
    refine Reaches.bind ((reaches_ensureAlias hserver hapart ha hs).mono ?_)
    rintro - t ⟨ht, hthere, hkept⟩
    refine (ih hrest ht).mono ?_
    rintro - u ⟨hu, hall, hstay⟩
    refine ⟨hu, fun b hb => ?_, fun name hname => hstay name (hkept name hname)⟩
    rcases List.mem_cons.1 hb with rfl | hb
    · exact hstay b.2 hthere
    · exact hall b hb

variable {config : ServerConfig}

theorem reaches_ensure (hserver : KeepsIndices handle view) (hapart : Apart config.aliases)
    (hs : Underway config.aliases start (view s)) :
    (ensure config).Reaches handle (Timely view config.aliases start) s fun _ t =>
      Underway config.aliases start (view t) ∧ (view t).Complete config.aliases :=
  (reaches_ensureAll hserver hapart (List.Subset.refl _) hs).mono fun _ _ ht => ⟨ht.1, ht.2.1⟩

/-- What attempts at setting up the indices leave, one after another, each cut off or whole. -/
inductive Attempted (handle : Handler Server Failure σ) (config : ServerConfig) (s : σ) : σ → Prop
  | none : Attempted handle config s s
  | cutOff {t : σ} (h : Attempted handle config s t) (cut : Cut) :
    Attempted handle config s (cut.run handle (ensure config) t)
  | whole {t : σ} (h : Attempted handle config s t) :
    Attempted handle config s ((ensure config).run handle t).2

/-- No attempt alters what the set-up comes to. -/
theorem Attempted.underway (hserver : KeepsIndices handle view) (hapart : Apart config.aliases) {t : σ}
    (h : Attempted handle config s t) (hs : Underway config.aliases start (view s)) :
    Underway config.aliases start (view t) := by
  induction h with
  | none => exact hs
  | cutOff _ cut ih =>
    have hreach := reaches_ensure hserver hapart ih
    rcases hreach.run_cutting (failFast_ensure config) cut.failure cut.calls with ⟨_, h, -⟩ | ⟨-, h, -⟩
    · exact h
    · exact h
  | whole _ ih =>
    obtain ⟨⟨⟩, u, hrun, hu, -⟩ := (reaches_ensure hserver hapart ih).exists_run
    rw [hrun]
    exact hu

/-- However often setting up the indices was cut off, a run that is not makes of the cluster what a
run at the start would have made, and any run after that alters nothing. No run makes an index that is
there, or one that is called like an alias. -/
theorem setup_converges (hserver : KeepsIndices handle view) (hapart : Apart config.aliases)
    (hroom : (view s).RoomFor config.aliases) {u : σ} (hu : Attempted handle config s u) :
    AlwaysFits handle (fun made x => (view x).Admits config.aliases made) (ensure config) u ∧
      ∃ t₁ t, (ensure config).run handle s = (.ok (), t₁) ∧
        (ensure config).run handle u = (.ok (), t) ∧ view t = view t₁ ∧
        Completion config.aliases (view s) (view t) ∧ (view t).Complete config.aliases ∧
        ∀ w, Attempted handle config t w → view w = view t ∧
          AlwaysFits handle (fun made _ => ¬ made.Alters) (ensure config) w := by
  have hstart := Underway.refl hroom
  have hreach := reaches_ensure hserver hapart (hu.underway hserver hapart hstart)
  obtain ⟨⟨⟩, t₁, hrun₁, ht₁, hall₁⟩ := (reaches_ensure hserver hapart hstart).exists_run
  obtain ⟨⟨⟩, t, hrun, ht, hall⟩ := hreach.exists_run
  have hcompletion := ht.completion_of_complete hall
  refine ⟨(hreach.alwaysFits (failFast_ensure config)).mono fun _ _ h => h.2, t₁, t, hrun₁, hrun,
    hcompletion.unique (ht₁.completion_of_complete hall₁), hcompletion, hall, fun w hw => ?_⟩
  -- The cluster that is complete now is the start of what follows.
  have hlater := hw.underway hserver hapart (.refl ht.room)
  have hsame : view w = view t := hlater.still hall
  refine ⟨hsame, ?_⟩
  refine ((reaches_ensure hserver hapart hlater).alwaysFits (failFast_ensure config)).mono ?_
  rintro made x ⟨hx, hadmits⟩
  rw [hx.still hall] at hadmits
  exact hadmits.not_alters hall

/-- The first run is cut off between an index that it makes and the alias of that, the second before it
gets there. -/
theorem setup_converges_half_made :
    let s₁ := Cut.run IndexLists.handle ⟨7, .timeout⟩ (ensure {}) .sample
    let s₂ := Cut.run IndexLists.handle ⟨3, .connection⟩ (ensure {}) s₁
    KeepsIndices IndexLists.handle IndexLists.cluster ∧ Apart (ServerConfig.aliases {}) ∧
      IndexLists.sample.cluster.RoomFor (ServerConfig.aliases {}) ∧
      Attempted IndexLists.handle {} .sample s₂ ∧
      s₁.isIndex "proposals-initial" = true ∧ s₁.isAlias "proposals" = false ∧
      ∃ t₁ t, (ensure {}).run IndexLists.handle .sample = (.ok (), t₁) ∧
        (ensure {}).run IndexLists.handle s₂ = (.ok (), t) ∧ t.cluster = t₁.cluster ∧
        t.isAlias "proposals" = true := by
  intro s₁ s₂
  have hapart : Apart (ServerConfig.aliases {}) := ⟨by decide, by decide⟩
  have hroom : IndexLists.sample.cluster.RoomFor (ServerConfig.aliases {}) := by
    constructor
    · intro a ha
      simp only [ServerConfig.aliases, List.mem_cons, List.not_mem_nil, or_false] at ha
      rcases ha with rfl | rfl | rfl <;> rfl
    · intro a ha
      simp only [ServerConfig.aliases, List.mem_cons, List.not_mem_nil, or_false] at ha
      rcases ha with rfl | rfl | rfl <;> simp [IndexLists.cluster, IndexLists.sample, initialIndex]
  have hattempted : Attempted IndexLists.handle {} .sample s₂ := .cutOff (.cutOff .none _) _
  obtain ⟨-, t₁, t, hrun₁, hrun, hsame, -, hall, -⟩ :=
    setup_converges IndexLists.keepsIndices hapart hroom hattempted
  have hproposals := hall (Collection.proposals, "proposals") (by decide)
  exact ⟨IndexLists.keepsIndices, hapart, hroom, hattempted, rfl, rfl, t₁, t, hrun₁, hrun, hsame,
    (t.isAlias_iff _).2 hproposals⟩

end Indices

end FreelanceBoard
