import FreelanceBoard.Text.Tokens

/-! The tokens of a text are its runs of word characters that cannot be made longer. The lower-case form
of a text is cut into such runs and what stands between them in one way only, and the tokens are the
runs of that cut, in order. -/
namespace FreelanceBoard

namespace Text

/-- Characters that come first, and then runs, each with the characters after it. -/
structure Cut where
  before : List Char
  parts : List (List Char × List Char)

namespace Cut

/-- The characters that are cut, in order. -/
def whole (k : Cut) : List Char := k.before ++ k.parts.flatMap fun part => part.1 ++ part.2

def runs (k : Cut) : List (List Char) := k.parts.map Prod.fst

/-- The runs are of characters of the class `p`, and stand between others: none is empty, or could be
made longer by what is next to it. -/
structure Maximal (p : Char → Bool) (k : Cut) : Prop where
  first : ∀ c ∈ k.before, p c = false
  run : ∀ part ∈ k.parts, part.1 ≠ [] ∧ ∀ c ∈ part.1, p c = true
  after : ∀ part ∈ k.parts, ∀ c ∈ part.2, p c = false
  apart : ∀ part ∈ k.parts.dropLast, part.2 ≠ []

/-- One more character before the first run. -/
def skipping (k : Cut) (c : Char) : Cut := { k with before := c :: k.before }

/-- One more run, with what comes first after it. -/
def opening (k : Cut) (run : List Char) : Cut := ⟨[], (run, k.before) :: k.parts⟩

variable {p : Char → Bool} {k : Cut} {c : Char} {run : List Char}

@[simp] theorem whole_skipping : (k.skipping c).whole = c :: k.whole := rfl

@[simp] theorem runs_skipping : (k.skipping c).runs = k.runs := rfl

@[simp] theorem whole_opening : (k.opening run).whole = run ++ k.whole := by
  simp [whole, opening]

@[simp] theorem runs_opening : (k.opening run).runs = run :: k.runs := rfl

namespace Maximal

theorem nil (p : Char → Bool) : (⟨[], []⟩ : Cut).Maximal p where
  first := List.forall_mem_nil _
  run := List.forall_mem_nil _
  after := List.forall_mem_nil _
  apart := List.forall_mem_nil _

theorem skipping (h : k.Maximal p) (hc : p c = false) : (k.skipping c).Maximal p where
  first := List.forall_mem_cons.2 ⟨hc, h.first⟩
  run := h.run
  after := h.after
  apart := h.apart

theorem opening (h : k.Maximal p) (hne : run ≠ []) (hrun : ∀ c ∈ run, p c = true)
    (hbefore : k.parts ≠ [] → k.before ≠ []) : (k.opening run).Maximal p where
  first := List.forall_mem_nil _
  run := List.forall_mem_cons.2 ⟨⟨hne, hrun⟩, h.run⟩
  after := List.forall_mem_cons.2 ⟨h.first, h.after⟩
  apart := by
    by_cases hparts : k.parts = []
    · intro part hpart
      rw [Cut.opening, hparts] at hpart
      cases hpart
    · have hlast : (k.opening run).parts.dropLast = (run, k.before) :: k.parts.dropLast :=
        List.dropLast_cons_of_ne_nil hparts
      rw [hlast]
      exact List.forall_mem_cons.2 ⟨hbefore hparts, h.apart⟩

/-- What comes after the first run is cut as well. -/
theorem tail {before after : List Char} {parts : List (List Char × List Char)}
    (h : (⟨before, (run, after) :: parts⟩ : Cut).Maximal p) : (⟨after, parts⟩ : Cut).Maximal p where
  first := h.after _ List.mem_cons_self
  run part hpart := h.run part (List.mem_cons_of_mem _ hpart)
  after part hpart := h.after part (List.mem_cons_of_mem _ hpart)
  apart := by
    by_cases hparts : parts = []
    · intro part hpart
      rw [hparts] at hpart
      cases hpart
    · intro part hpart
      refine h.apart part ?_
      rw [List.dropLast_cons_of_ne_nil hparts]
      exact List.mem_cons_of_mem _ hpart

end Maximal

end Cut

variable {p : Char → Bool} {current cs : List Char}

theorem closeRun_of_ne_nil (h : current ≠ []) : closeRun current = [current.reverse] := if_neg h

theorem runsFrom_append_of_all {run : List Char} (h : ∀ c ∈ run, p c = true) (current cs : List Char) :
    runsFrom p current (run ++ cs) = runsFrom p (run.reverse ++ current) cs := by
  induction run generalizing current with
  | nil => rfl
  | cons c run ih =>
    rw [List.forall_mem_cons] at h
    rw [List.cons_append, runsFrom, if_pos h.1, ih h.2, List.reverse_cons, List.append_assoc]
    rfl

/-- Characters of another class end an open run. -/
theorem runsFrom_append_of_none {gap : List Char} (h : ∀ c ∈ gap, p c = false)
    (hend : gap = [] → cs = []) (current : List Char) :
    runsFrom p current (gap ++ cs) = closeRun current ++ runs p cs := by
  induction gap generalizing current with
  | nil =>
    rw [hend rfl]
    exact (List.append_nil _).symm
  | cons c gap ih =>
    rw [List.forall_mem_cons] at h
    rw [List.cons_append, runsFrom, if_neg (by simp [h.1])]
    by_cases hgap : gap = []
    · rw [hgap]
      rfl
    · rw [ih h.2 (fun hnil => absurd hnil hgap)]
      rfl

theorem runs_append_of_none {gap : List Char} (h : ∀ c ∈ gap, p c = false) (cs : List Char) :
    runs p (gap ++ cs) = runs p cs := by
  by_cases hgap : gap = []
  · rw [hgap]
    rfl
  · exact runsFrom_append_of_none h (fun hnil => absurd hnil hgap) []

/-- The runs that are read are those of a cut; the one that is still open comes first. -/
theorem exists_cut_runsFrom (hcurrent : ∀ c ∈ current, p c = true) (cs : List Char) :
    ∃ k : Cut, k.Maximal p ∧ k.whole = current.reverse ++ cs ∧ k.runs = runsFrom p current cs := by
  induction cs generalizing current with
  | nil =>
    by_cases hnil : current = []
    · subst hnil
      exact ⟨⟨[], []⟩, .nil p, rfl, rfl⟩
    · have hrun : ∀ c ∈ current.reverse, p c = true := fun c hc => hcurrent c (List.mem_reverse.1 hc)
      refine ⟨(⟨[], []⟩ : Cut).opening current.reverse,
        (Cut.Maximal.nil p).opening (by simpa using hnil) hrun (fun h => absurd rfl h), ?_, ?_⟩
      · rw [Cut.whole_opening]
        rfl
      · rw [Cut.runs_opening, runsFrom, closeRun_of_ne_nil hnil]
        rfl
  | cons c cs ih =>
    rw [runsFrom]
    by_cases hc : p c = true
    · obtain ⟨k, hk, hwhole, hruns⟩ := ih (List.forall_mem_cons.2 ⟨hc, hcurrent⟩)
      refine ⟨k, hk, ?_, ?_⟩
      · rw [hwhole, List.reverse_cons, List.append_assoc]
        rfl
      · rw [if_pos hc, hruns]
    · obtain ⟨k, hk, hwhole, hruns⟩ := @ih [] (List.forall_mem_nil _)
      have hskip := hk.skipping (by simpa using hc)
      rw [if_neg hc, ← hruns]
      by_cases hnil : current = []
      · subst hnil
        exact ⟨k.skipping c, hskip, congrArg (c :: ·) hwhole, rfl⟩
      · have hrun : ∀ d ∈ current.reverse, p d = true := fun d hd => hcurrent d (List.mem_reverse.1 hd)
        refine ⟨(k.skipping c).opening current.reverse,
          hskip.opening (by simpa using hnil) hrun (fun _ => List.cons_ne_nil _ _), ?_, ?_⟩
        · rw [Cut.whole_opening, Cut.whole_skipping, hwhole]
          rfl
        · rw [Cut.runs_opening, closeRun_of_ne_nil hnil]
          rfl

/-- Of what is cut the runs of the cut are read. -/
theorem Cut.Maximal.runs_whole {k : Cut} (h : k.Maximal p) : Text.runs p k.whole = k.runs := by
  obtain ⟨before, parts⟩ := k
  induction parts generalizing before with
  | nil => exact runs_append_of_none h.first []
  | cons part parts ih =>
    obtain ⟨run, after⟩ := part
    obtain ⟨hne, hrun⟩ := h.run _ List.mem_cons_self
    have hend : after = [] → (parts.flatMap fun part => part.1 ++ part.2) = [] := by
      intro hafter
      by_cases hparts : parts = []
      · rw [hparts]
        rfl
      · refine absurd hafter (h.apart (run, after) ?_)
        rw [List.dropLast_cons_of_ne_nil hparts]
        exact List.mem_cons_self
    have hrest := ih after h.tail
    rw [Cut.whole, runs_append_of_none h.tail.first] at hrest
    calc Text.runs p (Cut.whole ⟨before, (run, after) :: parts⟩)
        = Text.runs p (run ++ (after ++ parts.flatMap fun part => part.1 ++ part.2)) := by
          rw [Cut.whole, runs_append_of_none h.first, List.flatMap_cons, List.append_assoc]
      _ = runsFrom p run.reverse (after ++ parts.flatMap fun part => part.1 ++ part.2) := by
          rw [Text.runs, runsFrom_append_of_all hrun, List.append_nil]
      _ = [run] ++ parts.map Prod.fst := by
          rw [runsFrom_append_of_none h.tail.first hend, hrest,
            closeRun_of_ne_nil (by simpa using hne), List.reverse_reverse]
          rfl

theorem runs_eq_iff {found : List (List Char)} :
    runs p cs = found ↔ ∃ k : Cut, k.Maximal p ∧ k.whole = cs ∧ k.runs = found := by
  constructor
  · rintro rfl
    exact exists_cut_runsFrom (List.forall_mem_nil _) cs
  · rintro ⟨k, hk, rfl, rfl⟩
    exact hk.runs_whole

/-- The tokens of a text are exactly the runs of word characters of its lower-case form, in order, where
this is cut into runs that are not empty and what stands between them: no word characters, and at least
one character between two runs. -/
theorem tokens_eq_iff {text : String} {found : List (List Char)} :
    tokens text = found ↔
      ∃ k : Cut, k.Maximal isWordChar ∧ k.whole = lower text.toList ∧ k.runs = found :=
  runs_eq_iff

/-- The mark that the dotted capital I leaves ends a run. -/
example : tokens "İx, a_1" = ["i".toList, "x".toList, "a_1".toList] := by decide +kernel

end Text

end FreelanceBoard
