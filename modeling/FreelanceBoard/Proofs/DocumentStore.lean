import FreelanceBoard.Proofs.RecordStore
import FreelanceBoard.Proofs.ServerSearch

/-! What is relied on of a search server that keeps documents, each under its id in an index. The
catalog can rely on a store on such a server, if each of its collections has an index of its own. -/
namespace FreelanceBoard

namespace Document

def merging (d : Document) (changes : Fields) : Document :=
  { d with source := Fields.merge changes d.source }

end Document

/-- A record as a document. -/
def Fields.document (r : Fields) : Document := ⟨r.idText, r⟩

@[simp] theorem Fields.id_document (r : Fields) : r.document.id = r.idText := rfl

/-- What is asked of the document of an id, and fails if there is none. -/
inductive Request.Asks (index id : String) : Request → Prop
  | get : Asks index id (.get index (.text id))
  | update (changes : Fields) : Asks index id (.update index (.text id) changes)
  | delete : Asks index id (.delete index (.text id))

/-- What is relied on of a server that keeps documents: besides what is of one that is searched, how
it answers what is asked of a single document. An update is merged into the document. In which order
the documents of an index are does not matter. -/
structure KeepsDocuments {σ : Type} (server : SearchServer σ) (docs : σ → String → List Document)
    (score : Scoring) : Prop extends AnswersSearches server docs score where
  got : ∀ (s : σ) (index id : String) (d : Document),
    Keyed.find? Document.id id (docs s index) = some d →
    ∃ reply t, server.handle (.request (.get index (.text id))) s = (.ok (.ok reply), t) ∧
      docs t = docs s ∧ reply.item "_source" = .ok (.object d.source)
  stored : ∀ (s : σ) (index id : String) (source : Fields),
    ∃ reply t, server.handle (.request (.put index (.text id) source)) s = (.ok (.ok reply), t) ∧
      ∀ other, (docs t other).Perm (Function.update (docs s) index
        (Keyed.put Document.id ⟨id, source⟩ (docs s index)) other)
  updated : ∀ (s : σ) (index id : String) (changes : Fields) (d : Document),
    Keyed.find? Document.id id (docs s index) = some d →
    ∃ reply t,
      server.handle (.request (.update index (.text id) changes)) s = (.ok (.ok reply), t) ∧
      ∀ other, (docs t other).Perm (Function.update (docs s) index
        (Keyed.put Document.id (d.merging changes) (docs s index)) other)
  deleted : ∀ (s : σ) (index id : String) (d : Document),
    Keyed.find? Document.id id (docs s index) = some d →
    ∃ reply t, server.handle (.request (.delete index (.text id))) s = (.ok (.ok reply), t) ∧
      ∀ other, (docs t other).Perm (Function.update (docs s) index
        (Keyed.erase Document.id id (docs s index)) other)
  missing : ∀ (s : σ) (index id : String) (r : Request), r.Asks index id →
    Keyed.find? Document.id id (docs s index) = none →
    ∃ t, server.handle (.request r) s = (.ok (.error .notFound), t) ∧ docs t = docs s

namespace ServerConfig

variable {config : ServerConfig}

def indices (config : ServerConfig) : List String := config.aliases.map Prod.snd

theorem exists_indexOf (config : ServerConfig) {name : String} (h : name ∈ Collection.known) :
    ∃ index, config.indexOf name = .ok index := by
  simp only [Collection.known, List.mem_cons, List.not_mem_nil, or_false] at h
  rcases h with rfl | rfl | rfl
  · exact ⟨config.projectIndex, rfl⟩
  · exact ⟨config.userIndex, rfl⟩
  · exact ⟨config.proposalIndex, rfl⟩

theorem mem_aliases_of_indexOf {name index : String} (h : config.indexOf name = .ok index) :
    (name, index) ∈ config.aliases := by
  rw [indexOf] at h
  cases hlookup : config.aliases.lookup name with
  | none => simp [hlookup] at h
  | some other =>
    rw [hlookup] at h
    obtain rfl : other = index := Except.ok.inj h
    obtain ⟨before, after, haliases, -⟩ := List.lookup_eq_some_iff.1 hlookup
    rw [haliases]
    exact List.mem_append_right _ List.mem_cons_self

/-- Collections with indices of their own are told apart by these. -/
theorem eq_of_indexOf_eq (hindices : config.indices.Nodup) {name other index : String}
    (h : config.indexOf name = .ok index) (hother : config.indexOf other = .ok index) :
    name = other :=
  congrArg Prod.fst (List.inj_on_of_nodup_map hindices (mem_aliases_of_indexOf h)
    (mem_aliases_of_indexOf hother) rfl)

end ServerConfig

namespace Identified

variable {sources others : List Fields}

theorem of_perm (h : Identified sources) (hperm : others.Perm sources) : Identified others where
  named source hsource := h.named source (hperm.subset hsource)
  distinct := (hperm.map Fields.idText).nodup_iff.2 h.distinct

theorem put (h : Identified sources) {r : Fields} (hr : r.lookup "id" = some (.text r.idText)) :
    Identified (Keyed.put Fields.idText r sources) where
  named source hsource := by
    rcases Keyed.mem_of_mem_put hsource with rfl | hsource
    · exact ⟨_, hr⟩
    · exact h.named source hsource
  distinct := Keyed.nodup_put r h.distinct

theorem erase (h : Identified sources) (id : String) :
    Identified (Keyed.erase Fields.idText id sources) where
  named source hsource := h.named source (List.mem_of_mem_filter hsource)
  distinct := Keyed.nodup_erase h.distinct id

/-! Their names are texts, so that they may be found by these as well. -/

theorem idName_eq (h : Identified sources) {r : Fields} (hr : r ∈ sources) :
    r.idName = .text r.idText :=
  Fields.idName_of_lookup (h.lookup_id hr)

theorem find?_idName (h : Identified sources) (id : String) :
    Keyed.find? Fields.idName (.text id) sources = Keyed.find? Fields.idText id sources := by
  have hmap := Keyed.find?_map (f := fun r => r) Name.text_injective (fun r hr => h.idName_eq hr) id
  rwa [List.map_id', Option.map_id'] at hmap

theorem put_idName (h : Identified sources) {r : Fields} (hr : r.lookup "id" = some (.text r.idText)) :
    Keyed.put Fields.idName r sources = Keyed.put Fields.idText r sources := by
  have hname : r.idName = .text r.idText := Fields.idName_of_lookup hr
  have hmap := Keyed.map_put (f := fun r => r) Name.text_injective
    (List.forall_mem_cons.2 ⟨hname, fun r hr => h.idName_eq hr⟩)
  rw [List.map_id', List.map_id'] at hmap
  exact hmap.symm

theorem erase_idName (h : Identified sources) (id : String) :
    Keyed.erase Fields.idName (.text id) sources = Keyed.erase Fields.idText id sources := by
  have hmap := Keyed.map_erase (f := fun r => r) Name.text_injective (fun r hr => h.idName_eq hr) id
  rw [List.map_id', List.map_id'] at hmap
  exact hmap.symm

end Identified

namespace ServerStore

variable {σ : Type} {server : SearchServer σ} {docs : σ → String → List Document}
  {score : Scoring} {config : ServerConfig} {s t : σ} {C : String → List Fields}
  {name index id : String}

/-- The indices of a store hold given records as documents. -/
def Holds (docs : σ → String → List Document) (config : ServerConfig) (s : σ)
    (C : String → List Fields) : Prop :=
  ∀ name ∈ Collection.known, Identified (C name) ∧
    ∀ index, config.indexOf name = .ok index → (docs s index).Perm ((C name).map Fields.document)

namespace Holds

theorem of_docs_eq (h : Holds docs config s C) (hdocs : docs t = docs s) : Holds docs config t C := by
  intro name hname
  rw [hdocs]
  exact h name hname

theorem sources_perm (h : Holds docs config s C) (hname : name ∈ Collection.known)
    (hindex : config.indexOf name = .ok index) :
    ((docs s index).map Document.source).Perm (C name) := by
  have hmap := ((h name hname).2 index hindex).map Document.source
  have hsources : ((C name).map Fields.document).map Document.source = C name := by
    rw [List.map_map]
    exact List.map_id _
  rwa [hsources] at hmap

theorem nodup_ids (h : Holds docs config s C) (hname : name ∈ Collection.known) :
    (((C name).map Fields.document).map Document.id).Nodup := by
  rw [List.map_map]
  exact (h name hname).1.distinct

/-- A document is there under the id of its record. -/
theorem find?_eq (h : Holds docs config s C) (hname : name ∈ Collection.known)
    (hindex : config.indexOf name = .ok index) (id : String) :
    Keyed.find? Document.id id (docs s index) =
      (Keyed.find? Fields.idText id (C name)).map Fields.document := by
  rw [Keyed.find?_of_perm ((h name hname).2 index hindex) (h.nodup_ids hname)]
  exact Keyed.find?_map Function.injective_id (fun r _ => r.id_document) id

/-- A change of one index is one of the records of its collection. -/
theorem change (h : Holds docs config s C) (hindices : config.indices.Nodup)
    (hindex : config.indexOf name = .ok index) {records : List Fields} (hrecords : Identified records)
    {changed : List Document} (hchanged : changed.Perm (records.map Fields.document))
    (hdocs : ∀ other, (docs t other).Perm (Function.update (docs s) index changed other)) :
    Holds docs config t (Function.update C name records) := by
  intro other hother
  by_cases hsame : other = name
  · rw [hsame, Function.update_self]
    refine ⟨hrecords, fun i hi => ?_⟩
    obtain rfl : index = i := Except.ok.inj (hindex.symm.trans hi)
    have hi := hdocs index
    rw [Function.update_self] at hi
    exact hi.trans hchanged
  · rw [Function.update_of_ne hsame]
    refine ⟨(h other hother).1, fun i hi => ?_⟩
    have hne : i ≠ index := by
      rintro rfl
      exact hsame (ServerConfig.eq_of_indexOf_eq hindices hi hindex)
    have hkept := hdocs i
    rw [Function.update_of_ne hne] at hkept
    exact hkept.trans ((h other hother).2 i hi)

/-- What the indices hold after a document has been put in the place of its record. -/
theorem put (h : Holds docs config s C) (hindices : config.indices.Nodup)
    (hname : name ∈ Collection.known) (hindex : config.indexOf name = .ok index) {r : Fields}
    (hr : r.lookup "id" = some (.text r.idText))
    (hdocs : ∀ other, (docs t other).Perm (Function.update (docs s) index
      (Keyed.put Document.id r.document (docs s index)) other)) :
    Holds docs config t (Function.update C name (Keyed.put Fields.idText r (C name))) := by
  refine h.change hindices hindex ((h name hname).1.put hr) ?_ hdocs
  have hmap : (Keyed.put Fields.idText r (C name)).map Fields.document =
      Keyed.put Document.id r.document ((C name).map Fields.document) :=
    Keyed.map_put Function.injective_id fun r _ => r.id_document
  rw [hmap]
  exact Keyed.put_of_perm ((h name hname).2 index hindex) (h.nodup_ids hname) _

theorem erase (h : Holds docs config s C) (hindices : config.indices.Nodup)
    (hname : name ∈ Collection.known) (hindex : config.indexOf name = .ok index)
    (hdocs : ∀ other, (docs t other).Perm (Function.update (docs s) index
      (Keyed.erase Document.id id (docs s index)) other)) :
    Holds docs config t (Function.update C name (Keyed.erase Fields.idText id (C name))) := by
  refine h.change hindices hindex ((h name hname).1.erase id) ?_ hdocs
  have hmap : (Keyed.erase Fields.idText id (C name)).map Fields.document =
      Keyed.erase Document.id id ((C name).map Fields.document) :=
    Keyed.map_erase Function.injective_id (fun r _ => r.id_document) id
  rw [hmap]
  exact Keyed.erase_of_perm ((h name hname).2 index hindex) id

end Holds

/-- A record is found by its id. -/
theorem run_findById (hserver : KeepsDocuments server docs score) (h : Holds docs config s C)
    (hname : name ∈ Collection.known) (hindex : config.indexOf name = .ok index) (id : String) :
    ∃ t, docs t = docs s ∧ (findById config name (.text id)).run server.handle s =
      (.ok ((Keyed.find? Fields.idText id (C name)).map .object), t) := by
  have hfind := h.find?_eq hname hindex id
  rw [findById, hindex, Program.bind_eq, Program.ofExcept, Program.done_bind, Program.bind_eq]
  cases hr : Keyed.find? Fields.idText id (C name) with
  | none =>
    rw [hr] at hfind
    obtain ⟨t, hreply, ht⟩ := hserver.missing s index id _ .get hfind
    rw [run_outcome hreply]
    exact ⟨t, ht, rfl⟩
  | some r =>
    rw [hr] at hfind
    obtain ⟨reply, t, hreply, ht, hitem⟩ := hserver.got s index id _ hfind
    have hsource : sourceOf reply = .ok (.object r) := hitem
    rw [run_outcome hreply]
    refine ⟨t, ht, ?_⟩
    simp only [hsource]
    rfl

theorem run_insert (hserver : KeepsDocuments server docs score) (h : Holds docs config s C)
    (hindices : config.indices.Nodup) (hname : name ∈ Collection.known)
    (hindex : config.indexOf name = .ok index) {r : Fields}
    (hr : r.lookup "id" = some (.text r.idText)) :
    ∃ t, Holds docs config t (Function.update C name (Keyed.put Fields.idText r (C name))) ∧
      (insert config name r).run server.handle s = (.ok (.object r), t) := by
  obtain ⟨reply, t, hreply, ht⟩ := hserver.stored s index r.idText r
  refine ⟨t, h.put hindices hname hindex hr ht, ?_⟩
  rw [insert, hr]
  simp only [hindex, Program.bind_eq, Program.ofExcept, Program.done_bind]
  rw [Server.reply, Program.call_bind, Program.run_call, hreply]
  rfl

/-- A record is found as it is after the update. -/
theorem run_update (hserver : KeepsDocuments server docs score) (h : Holds docs config s C)
    (hindices : config.indices.Nodup) (hname : name ∈ Collection.known)
    (hindex : config.indexOf name = .ok index) {r changes r' : Fields}
    (hr : Keyed.find? Fields.idText id (C name) = some r) (hmerge : Fields.merge changes r = r')
    (hid : r'.lookup "id" = some (.text id)) :
    ∃ t, Holds docs config t (Function.update C name (Keyed.put Fields.idText r' (C name))) ∧
      (update config name (.text id) changes).run server.handle s = (.ok (some (.object r')), t) := by
  have hfind := h.find?_eq hname hindex id
  rw [hr] at hfind
  obtain ⟨reply, t, hreply, hdocs⟩ := hserver.updated s index id changes _ hfind
  have hkey : r'.idText = id := Fields.idText_of_lookup hid
  have hmerged : r.document.merging changes = r'.document := by
    rw [Document.merging, Fields.document, Fields.document, hmerge, hkey, Keyed.key_of_find? hr]
  rw [hmerged] at hdocs
  have ht := h.put hindices hname hindex (hkey.symm ▸ hid) hdocs
  obtain ⟨u, hu, hrun⟩ := run_findById hserver ht hname hindex id
  rw [Function.update_self, ← hkey, Keyed.find?_put_self] at hrun
  refine ⟨u, ht.of_docs_eq hu, ?_⟩
  rw [update, hindex, Program.bind_eq, Program.ofExcept, Program.done_bind, Program.bind_eq,
    run_outcome hreply, ← hkey]
  exact hrun

theorem run_delete (hserver : KeepsDocuments server docs score) (h : Holds docs config s C)
    (hindices : config.indices.Nodup) (hname : name ∈ Collection.known)
    (hindex : config.indexOf name = .ok index) {r : Fields}
    (hr : Keyed.find? Fields.idText id (C name) = some r) :
    ∃ t, Holds docs config t (Function.update C name (Keyed.erase Fields.idText id (C name))) ∧
      (delete config name (.text id)).run server.handle s = (.ok true, t) := by
  have hfind := h.find?_eq hname hindex id
  rw [hr] at hfind
  obtain ⟨reply, t, hreply, ht⟩ := hserver.deleted s index id _ hfind
  refine ⟨t, h.erase hindices hname hindex ht, ?_⟩
  rw [delete, hindex, Program.bind_eq, Program.ofExcept, Program.done_bind, Program.bind_eq,
    run_outcome hreply]
  rfl

theorem run_update_missing (hserver : KeepsDocuments server docs score) (h : Holds docs config s C)
    (hname : name ∈ Collection.known) (hindex : config.indexOf name = .ok index)
    (changes : Fields) (hr : Keyed.find? Fields.idText id (C name) = none) :
    ∃ t, docs t = docs s ∧
      (update config name (.text id) changes).run server.handle s = (.ok none, t) := by
  have hfind := h.find?_eq hname hindex id
  rw [hr] at hfind
  obtain ⟨t, hreply, ht⟩ := hserver.missing s index id _ (.update changes) hfind
  refine ⟨t, ht, ?_⟩
  rw [update, hindex, Program.bind_eq, Program.ofExcept, Program.done_bind, Program.bind_eq,
    run_outcome hreply]
  rfl

/-- What is found are the records that the predicate admits. -/
theorem run_find_suits (hserver : AnswersSearches server docs score) (hsize : 0 < config.searchSize)
    (h : Holds docs config s C) (hname : name ∈ Collection.known)
    (hindex : config.indexOf name = .ok index) {p : Predicate} {keep : Fields → Bool}
    (hsuits : ∀ r ∈ C name, p.Suits (.object r))
    (hkeep : ∀ r ∈ C name, p.admits (.object r) = .ok (keep r)) :
    ∃ t, ∃ found : List Fields, docs t = docs s ∧
      (find config (server.pages s) name (some p)).run server.handle s =
        (.ok (found.map .object), t) ∧
      found.Perm ((C name).filter keep) := by
  have hperm := h.sources_perm hname hindex
  obtain ⟨t, ht, hrun⟩ := run_find hserver hsize hindex (some p)
    ((h name hname).1.of_perm hperm)
  have hsame : ∀ r ∈ C name, (queryOf (some p)).holds score (.object r) = keep r := by
    intro r hr
    have hquery := (Predicate.admits_eq_holds score p (hsuits r hr)).symm.trans (hkeep r hr)
    rw [queryOf, Query.holds, Query.holdsAll, Query.holdsAll, Bool.and_true]
    exact Except.ok.inj hquery
  refine ⟨t, _, ht, hrun, ?_⟩
  rw [← List.filter_congr hsame]
  exact ((List.mergeSort_perm _ _).trans hperm).filter _

/-- A store on a server that keeps documents can be relied on, whatever the size of a page. -/
theorem serves (hserver : KeepsDocuments server docs score) (hsize : 0 < config.searchSize)
    (hindices : config.indices.Nodup) :
    Serves Value.IsText (server.store config) (Holds docs config) where
  findById {s C name id} h hname hid := by
    obtain ⟨id, rfl⟩ := hid
    obtain ⟨index, hindex⟩ := config.exists_indexOf hname
    obtain ⟨t, ht, hrun⟩ := run_findById hserver h hname hindex id
    rw [← (h name hname).1.find?_idName, ← lookupIn_value] at hrun
    exact ⟨t, h.of_docs_eq ht, hrun⟩
  find {s C name p keep} h hname hsuits hkeep := by
    obtain ⟨index, hindex⟩ := config.exists_indexOf hname
    obtain ⟨t, found, ht, hrun, hfound⟩ :=
      run_find_suits hserver.toAnswersSearches hsize h hname hindex hsuits hkeep
    exact ⟨t, found, h.of_docs_eq ht, hrun, hfound⟩
  insert {s C name r} h hname hr hid := by
    obtain ⟨id, hid⟩ := hid
    rw [hid] at hr
    have hkey : r.lookup "id" = some (.text r.idText) := by rw [Fields.idText_of_lookup hr, hr]
    obtain ⟨index, hindex⟩ := config.exists_indexOf hname
    rw [(h name hname).1.put_idName hkey]
    exact run_insert hserver h hindices hname hindex hkey
  update {s C name id r changes r'} h hname hallowed hr _ hmerge hid := by
    obtain ⟨id, rfl⟩ := Name.exists_text hallowed
    obtain ⟨index, hindex⟩ := config.exists_indexOf hname
    have hkey : r'.lookup "id" = some (.text r'.idText) := by rw [Fields.idText_of_lookup hid, hid]; rfl
    rw [(h name hname).1.find?_idName] at hr
    rw [(h name hname).1.put_idName hkey]
    exact run_update hserver h hindices hname hindex hr hmerge hid
  updateMissing {s C name id changes} h hname hallowed hr := by
    obtain ⟨id, rfl⟩ := Name.exists_text hallowed
    obtain ⟨index, hindex⟩ := config.exists_indexOf hname
    rw [(h name hname).1.find?_idName] at hr
    obtain ⟨t, ht, hrun⟩ := run_update_missing hserver h hname hindex changes hr
    exact ⟨t, h.of_docs_eq ht, hrun⟩
  delete {s C name id r} h hname hallowed hr := by
    obtain ⟨id, rfl⟩ := Name.exists_text hallowed
    obtain ⟨index, hindex⟩ := config.exists_indexOf hname
    rw [(h name hname).1.find?_idName] at hr
    rw [(h name hname).1.erase_idName]
    exact run_delete hserver h hindices hname hindex hr

end ServerStore

end FreelanceBoard
