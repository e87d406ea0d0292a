import FreelanceBoard.Proofs.Exchanges
import Mathlib.Data.List.Forall2
import Mathlib.Order.Lattice

/-! What a scan asks its server for, and what it gives. It asks for one page more than are full, each
after the last hit of the page before, and gives the records of all hits in the order of their keys. -/
namespace FreelanceBoard

open Program Exchange

/-- A hit under a key, which says where it stands among others. -/
structure Ranked (κ : Type) where
  key : κ
  source : Value

namespace Ranked

variable {κ : Type}

/-- The place after which a page begins that comes after some hits, as the server writes it. -/
def placeAfter (written : κ → Value) (earlier : List (Ranked κ)) : Option Value :=
  earlier.getLast?.map fun hit => written hit.key

@[simp] theorem placeAfter_concat (written : κ → Value) (earlier : List (Ranked κ))
    (last : Ranked κ) : placeAfter written (earlier ++ [last]) = some (written last.key) := by
  simp [placeAfter]

variable [LinearOrder κ]

def onward (after : Option κ) (hits : List (Ranked κ)) : List (Ranked κ) :=
  hits.filter fun hit => decide (∀ key ∈ after, key < hit.key)

@[simp] theorem onward_none (hits : List (Ranked κ)) : onward none hits = hits := by simp [onward]

theorem onward_append {earlier rest : List (Ranked κ)}
    (h : (earlier ++ rest).Pairwise (·.key < ·.key)) :
    onward (earlier.getLast?.map Ranked.key) (earlier ++ rest) = rest := by
  rcases List.eq_nil_or_concat' earlier with rfl | ⟨init, last, rfl⟩
  · exact onward_none rest
  · obtain ⟨hearlier, -, hrest⟩ := List.pairwise_append.1 h
    obtain ⟨-, -, hlast⟩ := List.pairwise_append.1 hearlier
    have hbefore : ∀ hit ∈ init ++ [last], ¬ last.key < hit.key := by
      intro hit hmem
      rcases List.mem_append.1 hmem with hinit | hsame
      · exact not_lt_of_gt (hlast hit hinit last (List.mem_singleton_self _))
      · rw [List.mem_singleton.1 hsame]
        exact lt_irrefl _
    have hafter : ∀ hit ∈ rest, last.key < hit.key :=
      hrest last (List.mem_append_right _ (List.mem_singleton_self _))
    rw [onward, List.filter_append, List.filter_eq_nil_iff.2 (by simpa using hbefore),
      List.nil_append, List.filter_eq_self]
    simpa using hafter

end Ranked

open Ranked

def ListsRanked {κ : Type} (written : κ → Value) (hits : List (Ranked κ)) (reply : Value) : Prop :=
  ∃ items, ServerStore.hitsOf reply = .ok (.list items) ∧
    List.Forall₂ (fun item hit => item.item "_source" = .ok hit.source ∧
      item.item "sort" = .ok (written hit.key)) items hits

/-- A server holds some hits of a query under keys that place them in an order, and lists as many as it
is asked for, from the first one or from the one after a key on. The states in which the server does
so are the ready ones. -/
structure HoldsHits {σ κ : Type} [LinearOrder κ] (handle : Handler Server Failure σ)
    (ready : σ → Prop) (index : String) (q : Query) (order : SortOrder) (written : κ → Value)
    (hits : List (Ranked κ)) : Prop where
  ascending : hits.Pairwise (·.key < ·.key)
  answered : ∀ (s : σ) (size : Int) (after : Option κ), ready s → 0 < size →
    (∀ key ∈ after, key ∈ hits.map Ranked.key) → ∃ reply t,
      handle (.request (.search index q size (some order) (after.map written))) s =
        (.ok (.ok reply), t) ∧
      ready t ∧ ListsRanked written ((onward after hits).take size.toNat) reply

namespace ServerStore

variable {σ κ : Type} {handle : Handler Server Failure σ} {ready : σ → Prop} {index : String}
  {q : Query} {order : SortOrder} {written : κ → Value} {hits : List (Ranked κ)}

/-- The requests for the pages of some hits that come after the first `skipped` ones. -/
def pageRequests (index : String) (q : Query) (size : Int) (order : SortOrder) (written : κ → Value)
    (hits : List (Ranked κ)) (skipped count : Nat) : List Request :=
  (List.range count).map fun i =>
    .search index q size (some order) (placeAfter written (hits.take (skipped + i * size.toNat)))

theorem pageRequests_succ (size : Int) (skipped count : Nat) :
    pageRequests index q size order written hits skipped (count + 1) =
      .search index q size (some order) (placeAfter written (hits.take skipped)) ::
        pageRequests index q size order written hits (skipped + size.toNat) count := by
  rw [pageRequests, List.range_succ_eq_map, List.map_cons, List.map_map, Nat.zero_mul, Nat.add_zero]
  refine congrArg _ (List.map_congr_left fun i _ => ?_)
  have hskipped : skipped + (i + 1) * size.toNat = skipped + size.toNat + i * size.toNat := by
    rw [Nat.succ_mul]
    omega
  simp only [Function.comp_apply, Nat.succ_eq_add_one, hskipped]

section Listed

variable {items : List Value}

theorem sourcesOf_eq (h : List.Forall₂ (fun item hit => item.item "_source" = .ok hit.source ∧
    item.item "sort" = .ok (written hit.key)) items hits) :
    sourcesOf (.list items) = .ok (hits.map Ranked.source) := by
  rw [sourcesOf, Value.elements]
  induction h with
  | nil => rfl
  | cons hhead _ ih =>
    simp only [Value.collect, sourceOf, hhead.1, List.map_cons]
    rw [show Value.collect sourceOf _ = _ from ih]

theorem lastSort_eq {last : Ranked κ} (h : List.Forall₂ (fun item hit =>
    item.item "_source" = .ok hit.source ∧ item.item "sort" = .ok (written hit.key)) items hits)
    (hlast : hits.getLast? = some last) : lastSort (.list items) = .ok (written last.key) := by
  have hitem : ∃ item, items.getLast? = some item ∧
      item.item "sort" = .ok (written last.key) := by
    induction h with
    | nil => cases hlast
    | @cons item hit items hits hhead htail ih =>
      cases htail with
      | nil =>
        obtain rfl : hit = last := by simpa using hlast
        exact ⟨item, rfl, hhead.2⟩
      | cons hnext hrest => simpa [List.getLast?_cons_cons] using ih (by simpa using hlast)
  obtain ⟨item, hgetLast, hsort⟩ := hitem
  simp [lastSort, Value.lastItem, hgetLast, hsort]

end Listed

variable {config : ServerConfig} {collection : String}

section Step

variable {pages : Nat} {after : Option Value} {found : List Value} {s t u : σ} {reply : Value}
  {page : List (Ranked κ)}

theorem ran_scanFrom_last (hindex : config.indexOf collection = .ok index)
    (hreply : handle (.request (.search index q config.searchSize (some order) after)) s =
      (.ok (.ok reply), t)) (hpage : ListsRanked written page reply)
    (hshort : (page.length : Int) < config.searchSize) :
    Ran handle (scanFrom config collection q order (pages + 1) after found) s
      [sent (.search index q config.searchSize (some order) after) (.ok reply)]
      (.ok (found ++ page.map Ranked.source)) t := by
  obtain ⟨items, hitems, hall⟩ := hpage
  have hsearch := ran_runSearch_answered hindex hreply hitems
  rw [← hall.length_eq] at hshort
  rw [scanFrom, Program.bind_eq, ← List.append_nil [sent _ _]]
  refine hsearch.bind ?_
  simp only [Server.attempt, sourcesOf_eq hall, Fault.lift, Program.ofExcept, Program.bind_eq,
    Program.done_bind, Value.count, if_pos hshort]
  exact .done _ _ _

theorem ran_scanFrom_full (hindex : config.indexOf collection = .ok index)
    (hreply : handle (.request (.search index q config.searchSize (some order) after)) s =
      (.ok (.ok reply), t)) (hpage : ListsRanked written page reply)
    (hfull : config.searchSize ≤ page.length) {last : Ranked κ} (hlast : page.getLast? = some last)
    {log : List Exchange} {o : Except Failure (List Value)}
    (hrest : Ran handle (scanFrom config collection q order pages (some (written last.key))
      (found ++ page.map Ranked.source)) t log o u) :
    Ran handle (scanFrom config collection q order (pages + 1) after found) s
      (sent (.search index q config.searchSize (some order) after) (.ok reply) :: log) o u := by
  obtain ⟨items, hitems, hall⟩ := hpage
  have hsearch := ran_runSearch_answered hindex hreply hitems
  rw [← hall.length_eq, ← Int.not_lt] at hfull
  rw [scanFrom, Program.bind_eq]
  refine (hsearch.bind ?_ : Ran handle _ s ([sent _ (.ok reply)] ++ log) o u)
  simp only [Server.attempt, sourcesOf_eq hall, lastSort_eq hall hlast, Fault.lift,
    Program.ofExcept, Program.bind_eq, Program.done_bind, Value.count, if_neg hfull]
  exact hrest

end Step

variable [LinearOrder κ]

theorem exists_page (hserver : HoldsHits handle ready index q order written hits) {size : Int}
    (hsize : 0 < size) {earlier rest : List (Ranked κ)} (hhits : hits = earlier ++ rest) {s : σ}
    (hs : ready s) : ∃ reply t,
      handle (.request (.search index q size (some order) (placeAfter written earlier))) s =
        (.ok (.ok reply), t) ∧
      ready t ∧ ListsRanked written (rest.take size.toNat) reply := by
  have hkey : ∀ key ∈ earlier.getLast?.map Ranked.key, key ∈ hits.map Ranked.key := by
    intro key h
    obtain ⟨last, hlast, rfl⟩ := Option.map_eq_some_iff.1 h
    rw [hhits]
    exact List.mem_map_of_mem (List.mem_append_left _ (List.mem_of_getLast? hlast))
  have hpage := hserver.answered s size (earlier.getLast?.map Ranked.key) hs hsize hkey
  have hrest : onward (earlier.getLast?.map Ranked.key) hits = rest := by
    rw [hhits]
    exact onward_append (hhits ▸ hserver.ascending)
  rwa [hrest, Option.map_map] at hpage

/-- From a place on, a scan asks for the pages that are full and for one more, and gives all hits that
come after the place. -/
theorem ran_scanFrom (hserver : HoldsHits handle ready index q order written hits)
    (hindex : config.indexOf collection = .ok index) (hsize : 0 < config.searchSize) {pages : Nat}
    {earlier rest : List (Ranked κ)} (hhits : hits = earlier ++ rest)
    (hpages : rest.length / config.searchSize.toNat < pages) (found : List Value) {s : σ}
    (hs : ready s) :
    ∃ log t, ready t ∧
      Ran handle (scanFrom config collection q order pages (placeAfter written earlier) found) s log
        (.ok (found ++ rest.map Ranked.source)) t ∧
      AllAnswered (pageRequests index q config.searchSize order written hits earlier.length
        (rest.length / config.searchSize.toNat + 1)) log := by
  obtain ⟨k, hk⟩ : ∃ k, k = config.searchSize.toNat := ⟨_, rfl⟩
  rw [← hk] at hpages ⊢
  induction pages generalizing earlier rest found s with
  | zero => exact absurd hpages (Nat.not_lt_zero _)
  | succ pages ih =>
    obtain ⟨reply, t, hreply, ht, hpage⟩ := exists_page hserver hsize hhits hs
    have hearlier : hits.take earlier.length = earlier := by rw [hhits, List.take_left]
    rw [pageRequests_succ, hearlier]
    rw [← hk] at hpage
    rcases Nat.lt_or_ge rest.length k with hshort | hlong
    · have hnone : rest.length / k = 0 := Nat.div_eq_of_lt hshort
      rw [List.take_of_length_le (Nat.le_of_lt hshort)] at hpage
      rw [hnone]
      exact ⟨_, t, ht, ran_scanFrom_last hindex hreply hpage (by omega), .cons ⟨reply, rfl⟩ .nil⟩
    · have hcount : (rest.take k).length = k := by rw [List.length_take, Nat.min_eq_left hlong]
      obtain ⟨init, last, hlast⟩ : ∃ init last, rest.take k = init ++ [last] := by
        rcases List.eq_nil_or_concat' (rest.take k) with hnil | hconcat
        · rw [hnil, List.length_nil] at hcount
          omega
        · exact hconcat
      have hgetLast : (rest.take k).getLast? = some last := by simp [hlast]
      have hplace : placeAfter written (earlier ++ rest.take k) = some (written last.key) := by
        rw [hlast, ← List.append_assoc, placeAfter_concat]
      have hleft : (rest.drop k).length / k + 1 = rest.length / k := by
        rw [List.length_drop, ← Nat.div_eq_sub_div (by omega) hlong]
      have hsplit : hits = (earlier ++ rest.take k) ++ rest.drop k := by
        rw [hhits, List.append_assoc, List.take_append_drop]
      obtain ⟨log, u, hu, hran, hlog⟩ := ih hsplit (found ++ (rest.take k).map Ranked.source) ht
        (by omega)
      rw [List.append_assoc, ← List.map_append, List.take_append_drop, hplace] at hran
      rw [List.length_append, hcount, hleft] at hlog
      rw [← hk]
      exact ⟨_, u, hu, ran_scanFrom_full hindex hreply hpage (by omega) hgetLast hran,
        .cons ⟨reply, rfl⟩ hlog⟩

/-- A scan asks for the pages that are full and for one more, and gives all hits. -/
theorem ran_scan (hserver : HoldsHits handle ready index q order written hits)
    (hindex : config.indexOf collection = .ok index) (hsize : 0 < config.searchSize) {pages : Nat}
    (hpages : hits.length / config.searchSize.toNat < pages) {s : σ} (hs : ready s) :
    ∃ log t, ready t ∧
      Ran handle (scan config pages collection q order) s log (.ok (hits.map Ranked.source)) t ∧
      AllAnswered (pageRequests index q config.searchSize order written hits 0
        (hits.length / config.searchSize.toNat + 1)) log :=
  ran_scanFrom hserver hindex hsize (List.nil_append hits).symm hpages [] hs

end ServerStore

end FreelanceBoard
