import FreelanceBoard.Proofs.CatalogAnswers
import FreelanceBoard.Proofs.CatalogMemory
import FreelanceBoard.Proofs.DocumentServer

/-! The catalog on a search server. It comes to the same as the catalog on a store in memory: the
server merges updates into documents, but no field of a project that is replaced has anything left in
it of what was there. -/
namespace FreelanceBoard

/-- A document as a collection in memory has it. -/
def Document.entry (d : Document) : Entry := ⟨.text d.id, d.source⟩

namespace Memory

theorem serves_texts : Serves Value.IsText handle Holds where
  findById hs hname _ := serves.findById hs hname trivial
  find := serves.find
  insert hs hname hid _ := serves.insert hs hname hid trivial
  update hs hname _ := serves.update hs hname trivial
  updateMissing hs hname _ := serves.updateMissing hs hname trivial
  delete hs hname _ := serves.delete hs hname trivial

end Memory

namespace ServerStore

variable {σ : Type} {docs : σ → String → List Document} {config : ServerConfig} {s : σ}

theorem holds_empty (hempty : ∀ index ∈ config.indices, docs s index = []) :
    Holds docs config s Ledger.empty.contents := by
  intro name hname
  have hcontents : Ledger.empty.contents name = [] := by
    simp only [Collection.known, List.mem_cons, List.not_mem_nil, or_false] at hname
    rcases hname with rfl | rfl | rfl <;> rfl
  rw [hcontents]
  have hnone : Identified [] := ⟨fun r hr => absurd hr List.not_mem_nil, List.nodup_nil⟩
  refine ⟨hnone, fun index hindex => ?_⟩
  have hmem : index ∈ config.indices :=
    List.mem_map.2 ⟨_, ServerConfig.mem_aliases_of_indexOf hindex, rfl⟩
  rw [hempty index hmem]
  exact List.Perm.refl _

theorem Holds.entries_perm {C : String → List Fields} (h : Holds docs config s C) {m : Memory}
    (hm : m.Holds C) {name index : String} (hname : name ∈ Collection.known)
    (hindex : config.indexOf name = .ok index) :
    ((docs s index).map Document.entry).Perm (m.entries name) := by
  have hmap := ((h name hname).2 index hindex).map Document.entry
  have hentry : ∀ r ∈ C name, r.document.entry = r.entry := fun r hr => by
    rw [Document.entry, Fields.entry, (h name hname).1.idName_eq hr]
    rfl
  rw [List.map_map] at hmap
  rw [(hm name hname).1, ← List.map_congr_left hentry]
  exact hmap

end ServerStore

/-- A run of the catalog on a server that keeps documents has the same outcomes, step by step, as the
run on a store in memory that is issued the same ids, but for the order of the records in a list, and
it leaves the same documents under the same ids. A run being of any length, this is so after every
step. -/
theorem runAll_server_agrees {σ : Type} {server : SearchServer σ}
    {docs : σ → String → List Document} {score : Scoring} {config : ServerConfig}
    (hserver : KeepsDocuments server docs score) (hsize : 0 < config.searchSize)
    (hindices : config.indices.Nodup) {s : σ} (hempty : ∀ index ∈ config.indices, docs s index = [])
    (ids : Nat → String) {ops : List Operation} (hops : ∀ o ∈ ops, o.Allows Value.IsText) :
    let onServer := Operation.runAll (Board.withIds ids (server.store config)) ops (s, 0)
    let inMemory := Operation.runAll (Board.withIds ids Memory.handle) ops (Memory.empty, 0)
    List.Forall₂ SameUpToOrder onServer.1 inMemory.1 ∧
      ∀ name ∈ Collection.known, ∃ index, config.indexOf name = .ok index ∧
        ((docs onServer.2.1 index).map Document.entry).Perm (inMemory.2.1.entries name) := by
  intro onServer inMemory
  have hserves := ServerStore.serves hserver hsize hindices
  obtain ⟨L, honServer, hinMemory, houtcomes⟩ := Operation.runAll_alike hserves Memory.serves_texts
    ids hops (ServerStore.holds_empty hempty) Memory.holds_empty
  refine ⟨houtcomes, fun name hname => ?_⟩
  obtain ⟨index, hindex⟩ := config.exists_indexOf hname
  exact ⟨index, hindex, honServer.entries_perm hinMemory hname hindex⟩

/-- On pages of a single hit: a scope is replaced by one that has less in it, a freelancer is hired,
and a lookup fails. -/
theorem runAll_server_agrees_hired :
    let score : Scoring := fun _ _ => none
    let config : ServerConfig := { searchSize := 1 }
    let s : Indices := []
    let scope : Value := .object [("size", .text "large"), ("duration", .text "long")]
    let ops : List Operation :=
      [.addProject (.text "U1") (.text "Site") scope .null .null,
       .addProposal (.text "U2") (.text "p") .null .null,
       .updateProject (.text "U1") (.text "p")
         (.object [("scope", .object [("size", .text "small")])]),
       .hireFreelancer (.text "p") (.text "p0") (.text "U2"),
       .getUserActiveProjects (.text "U2"),
       .getProject (.text "none")]
    0 < config.searchSize ∧ config.indices.Nodup ∧
      (∀ index ∈ config.indices, s.documents index = []) ∧ (∀ o ∈ ops, o.Allows Value.IsText) ∧
      let onServer :=
        Operation.runAll (Board.withIds longerIds ((documentServer score).store config)) ops (s, 0)
      let inMemory := Operation.runAll (Board.withIds longerIds Memory.handle) ops (Memory.empty, 0)
      List.Forall₂ SameUpToOrder onServer.1 inMemory.1 ∧
        ∀ name ∈ Collection.known, ∃ index, config.indexOf name = .ok index ∧
          ((onServer.2.1.documents index).map Document.entry).Perm (inMemory.2.1.entries name) := by
  intro score config s scope ops
  have hsize : 0 < config.searchSize := by decide
  have hindices : config.indices.Nodup := by decide
  have hempty : ∀ index ∈ config.indices, s.documents index = [] := fun _ _ => rfl
  have hops : ∀ o ∈ ops, o.Allows Value.IsText := by
    intro o ho
    simp only [ops, List.mem_cons, List.not_mem_nil, or_false] at ho
    rcases ho with rfl | rfl | rfl | rfl | rfl | rfl
    · exact fun _ _ h => by cases h
    · exact ⟨⟨_, rfl⟩, fun _ _ h => by cases h⟩
    · exact ⟨_, rfl⟩
    · exact ⟨⟨_, rfl⟩, _, rfl⟩
    · exact ⟨_, rfl⟩
    · exact ⟨_, rfl⟩
  exact ⟨hsize, hindices, hempty, hops,
    runAll_server_agrees (keepsDocuments_documentServer score) hsize hindices hempty longerIds hops⟩

end FreelanceBoard
