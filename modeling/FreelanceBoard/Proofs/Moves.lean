import FreelanceBoard.Proofs.Ledger

/-! Changes of single records, those of two sides mixed with each other. A change that may as well come
before those of the other side is brought to the front; where this can be done with all changes of
one side, or with all but one on either side, one side is through before the other begins. -/
namespace FreelanceBoard

inductive Kind where
  | project
  | user
  | proposal
  deriving DecidableEq

namespace Kind

@[reducible] def Item : Kind → Type
  | project => Posting
  | user => Account
  | proposal => Proposal

end Kind

structure Place where
  kind : Kind
  id : Name
  deriving DecidableEq

/-- What is stored, by kind and id. -/
abbrev Desk := (x : Place) → Option x.kind.Item

/-- A change of what is stored at one place, which is made only if that is as it should be. -/
structure Move where
  place : Place
  guard : Option place.kind.Item → Prop
  act : Option place.kind.Item → Option place.kind.Item

namespace Move

variable {x y : Move} {D E F : Desk}

def Leads (x : Move) (D E : Desk) : Prop :=
  x.guard (D x.place) ∧ E = Function.update D x.place (x.act (D x.place))

/-- Whatever comes of the second move and then the first also comes of the first and then the
second. -/
def Before (x y : Move) : Prop :=
  ∀ D E F, y.Leads D E → x.Leads E F → ∃ E', x.Leads D E' ∧ y.Leads E' F

def Commutes (x y : Move) : Prop := x.Before y ∧ y.Before x

@[simp] theorem before_of_ne (h : x.place ≠ y.place) : x.Before y := by
  rintro D _ _ ⟨hy, rfl⟩ ⟨hx, rfl⟩
  rw [Function.update_of_ne h] at hx ⊢
  refine ⟨_, ⟨hx, rfl⟩, ?_, ?_⟩
  · rwa [Function.update_of_ne h.symm]
  · rw [Function.update_of_ne h.symm, Function.update_comm h]

section

variable {k : Kind} {i j : Name}

/-- Where two moves may be exchanged at one place, they may be exchanged. -/
theorem before_of_place {g g' : Option k.Item → Prop} {f f' : Option k.Item → Option k.Item}
    (h : i = j → ∀ o, g' o → g (f' o) → g o ∧ g' (f o) ∧ f' (f o) = f (f' o)) :
    Before ⟨⟨k, i⟩, g, f⟩ ⟨⟨k, j⟩, g', f'⟩ := by
  by_cases hij : i = j
  · subst hij
    rintro D _ _ ⟨hy, rfl⟩ ⟨hx, rfl⟩
    dsimp only at hy hx ⊢
    rw [Function.update_self] at hx
    obtain ⟨hg, hg', hact⟩ := h rfl _ hy hx
    refine ⟨_, ⟨hg, rfl⟩, ?_, ?_⟩
    · dsimp only
      rwa [Function.update_self]
    · dsimp only
      rw [Function.update_self, Function.update_self, Function.update_idem,
        Function.update_idem, hact]
  · exact before_of_ne fun e => hij (congrArg Place.id e)

/-- Finds an item that is as it should be, and leaves it. -/
def look (k : Kind) (i : Name) (g : k.Item → Prop) : Move :=
  ⟨⟨k, i⟩, fun o => ∃ a, o = some a ∧ g a, id⟩

def put (k : Kind) (i : Name) (a : k.Item) : Move := ⟨⟨k, i⟩, fun _ => True, fun _ => some a⟩

/-- Changes an item if there is one. -/
def alter (k : Kind) (i : Name) (f : k.Item → k.Item) : Move :=
  ⟨⟨k, i⟩, fun _ => True, Option.map f⟩

/-- Changes an item, which is `blank` if there was none. -/
def enter (k : Kind) (i : Name) (blank : k.Item) (f : k.Item → k.Item) : Move :=
  ⟨⟨k, i⟩, fun _ => True, fun o => some (f (o.getD blank))⟩

def remove (k : Kind) (i : Name) : Move := ⟨⟨k, i⟩, fun _ => True, fun _ => none⟩

variable {g g' : k.Item → Prop} {f f' : k.Item → k.Item} {a b : k.Item}

@[simp] theorem place_look : (look k i g).place = ⟨k, i⟩ := by rfl

@[simp] theorem place_put : (put k i a).place = ⟨k, i⟩ := by rfl

@[simp] theorem place_alter : (alter k i f).place = ⟨k, i⟩ := by rfl

@[simp] theorem place_enter : (enter k i a f).place = ⟨k, i⟩ := by rfl

@[simp] theorem place_remove : (remove k i).place = ⟨k, i⟩ := by rfl

@[simp] theorem look_before_look : (look k i g).Before (look k j g') :=
  before_of_place fun _ _ hy hx => ⟨hx, hy, rfl⟩

theorem leads_look_iff {D E : Desk} :
    (look k i g).Leads D E ↔ (∃ a, D ⟨k, i⟩ = some a ∧ g a) ∧ E = D :=
  and_congr_right fun _ => Eq.congr_right (Function.update_eq_self _ D)

@[simp] theorem look_before_alter (h : ∀ a, g (f a) → g a) : (look k i g).Before (alter k j f) := by
  refine before_of_place fun _ o _ hx => ?_
  obtain ⟨b, hb, hg⟩ := hx
  obtain ⟨a, rfl, rfl⟩ := Option.map_eq_some_iff.1 hb
  exact ⟨⟨a, rfl, h a hg⟩, trivial, rfl⟩

@[simp] theorem alter_before_look (h : ∀ a, g a → g (f a)) : (alter k i f).Before (look k j g) := by
  refine before_of_place fun _ o hy _ => ?_
  obtain ⟨a, rfl, hg⟩ := hy
  exact ⟨trivial, ⟨f a, rfl, h a hg⟩, rfl⟩

@[simp] theorem alter_before_alter (h : ∀ a, f' (f a) = f (f' a)) :
    (alter k i f).Before (alter k j f') := by
  refine before_of_place fun _ o _ _ => ⟨trivial, trivial, ?_⟩
  rw [Option.map_map, Option.map_map]
  exact congrArg (fun h => o.map h) (funext h)

@[simp] theorem look_before_remove : (look k i g).Before (remove k j) := by
  refine before_of_place fun _ o _ hx => ?_
  obtain ⟨_, hnone, _⟩ := hx
  cases hnone

@[simp] theorem alter_before_remove : (alter k i f).Before (remove k j) :=
  before_of_place fun _ _ _ _ => ⟨trivial, trivial, rfl⟩

@[simp] theorem remove_before_remove : (remove k i).Before (remove k j) :=
  before_of_place fun _ _ _ _ => ⟨trivial, trivial, rfl⟩

theorem enter_before_enter (h : i = j → ∀ a, f' (f a) = f (f' a)) (hab : i = j → a = b) :
    (enter k i a f).Before (enter k j b f') := by
  refine before_of_place fun hij o _ _ => ⟨trivial, trivial, ?_⟩
  rw [Option.getD_some, Option.getD_some, hab hij, h hij]

theorem enter_before_alter (h : i = j → ∀ a, f' (f a) = f (f' a)) (ha : f' a = a) :
    (enter k i a f).Before (alter k j f') := by
  refine before_of_place fun hij o _ _ => ⟨trivial, trivial, ?_⟩
  cases o with
  | none => exact congrArg some ((h hij a).trans (congrArg f ha))
  | some b => exact congrArg some (h hij b)

end

end Move

/-- Moves one after the other. -/
def Runs : List Move → Desk → Desk → Prop
  | [], D, F => D = F
  | x :: xs, D, F => ∃ E, x.Leads D E ∧ Runs xs E F

/-- The moves of two sides, each in its own order. -/
inductive Shuffled : List Move → List Move → Desk → Desk → Prop
  | nil (D : Desk) : Shuffled [] [] D D
  | left {x : Move} {xs ys : List Move} {D E F : Desk} (h : x.Leads D E)
      (rest : Shuffled xs ys E F) : Shuffled (x :: xs) ys D F
  | right {y : Move} {xs ys : List Move} {D E F : Desk} (h : y.Leads D E)
      (rest : Shuffled xs ys E F) : Shuffled xs (y :: ys) D F

namespace Runs

variable {xs ys : List Move} {D E F : Desk}

theorem append (hxs : Runs xs D E) (hys : Runs ys E F) : Runs (xs ++ ys) D F := by
  induction xs generalizing D with
  | nil =>
    cases hxs
    exact hys
  | cons x xs ih =>
    obtain ⟨_, hx, hrest⟩ := hxs
    exact ⟨_, hx, ih hrest⟩

theorem of_append (h : Runs (xs ++ ys) D F) : ∃ E, Runs xs D E ∧ Runs ys E F := by
  induction xs generalizing D with
  | nil => exact ⟨D, rfl, h⟩
  | cons x xs ih =>
    obtain ⟨_, hx, hrest⟩ := h
    obtain ⟨E, hxs, hys⟩ := ih hrest
    exact ⟨E, ⟨_, hx, hxs⟩, hys⟩

theorem unique (h : Runs xs D E) (h' : Runs xs D F) : E = F := by
  induction xs generalizing D with
  | nil => exact h.symm.trans h'
  | cons x xs ih =>
    obtain ⟨_, ⟨-, rfl⟩, hrest⟩ := h
    obtain ⟨_, ⟨-, rfl⟩, hrest'⟩ := h'
    exact ih hrest hrest'

theorem eq_of_forall_ne (h : Runs xs D F) {p : Place} (hp : ∀ x ∈ xs, x.place ≠ p) : F p = D p := by
  induction xs generalizing D with
  | nil =>
    cases h
    rfl
  | cons x xs ih =>
    obtain ⟨_, ⟨_, rfl⟩, hrest⟩ := h
    rw [ih hrest fun y hy => hp y (List.mem_cons_of_mem x hy),
      Function.update_of_ne (hp x List.mem_cons_self).symm]

section

variable {k : Kind} {i : Name} {a : k.Item}

theorem look {g : k.Item → Prop} (ha : D ⟨k, i⟩ = some a) (hg : g a) : Runs [.look k i g] D D :=
  ⟨D, ⟨⟨a, ha, hg⟩, (Function.update_eq_self _ D).symm⟩, rfl⟩

theorem put : Runs [.put k i a] D (Function.update D ⟨k, i⟩ (some a)) := ⟨_, ⟨trivial, rfl⟩, rfl⟩

theorem alter {f : k.Item → k.Item} (ha : D ⟨k, i⟩ = some a) :
    Runs [.alter k i f] D (Function.update D ⟨k, i⟩ (some (f a))) :=
  ⟨_, ⟨trivial, congrArg (Function.update D _) (congrArg (Option.map f) ha).symm⟩, rfl⟩

theorem alter_same {f : k.Item → k.Item} (ha : D ⟨k, i⟩ = some a) (hf : f a = a) :
    Runs [.alter k i f] D D := by
  have halter : Runs [.alter k i f] D (Function.update D ⟨k, i⟩ (some (f a))) := alter ha
  rwa [hf, ← ha, Function.update_eq_self] at halter

theorem alter_none {f : k.Item → k.Item} (hnone : D ⟨k, i⟩ = none) : Runs [.alter k i f] D D := by
  have hsame : Function.update D ⟨k, i⟩ ((D ⟨k, i⟩).map f) = D := by
    rw [hnone, Option.map_none, ← hnone, Function.update_eq_self]
  exact ⟨D, ⟨trivial, hsame.symm⟩, rfl⟩

theorem enter {blank : k.Item} {f : k.Item → k.Item} (ha : (D ⟨k, i⟩).getD blank = a) :
    Runs [.enter k i blank f] D (Function.update D ⟨k, i⟩ (some (f a))) :=
  ⟨_, ⟨trivial, congrArg (Function.update D _) (congrArg (fun b => some (f b)) ha).symm⟩, rfl⟩

theorem remove : Runs [.remove k i] D (Function.update D ⟨k, i⟩ none) := ⟨_, ⟨trivial, rfl⟩, rfl⟩

theorem remove_none (hnone : D ⟨k, i⟩ = none) : Runs [.remove k i] D D := by
  have hremove : Runs [.remove k i] D (Function.update D ⟨k, i⟩ none) := remove
  rwa [← hnone, Function.update_eq_self] at hremove

end

end Runs

namespace Shuffled

variable {x y : Move} {xs ys zs : List Move} {D E F : Desk}

theorem symm (h : Shuffled xs ys D F) : Shuffled ys xs D F := by
  induction h with
  | nil D => exact .nil D
  | left hx _ ih => exact .right hx ih
  | right hy _ ih => exact .left hy ih

theorem runs_left (hzs : Runs zs D E) (h : Shuffled xs ys E F) : Shuffled (zs ++ xs) ys D F := by
  induction zs generalizing D with
  | nil =>
    cases hzs
    exact h
  | cons z zs ih =>
    obtain ⟨_, hz, hrest⟩ := hzs
    exact .left hz (ih hrest)

theorem runs_right (hzs : Runs zs D E) (h : Shuffled xs ys E F) : Shuffled xs (zs ++ ys) D F :=
  (runs_left hzs h.symm).symm

theorem of_runs (h : Runs xs D F) : Shuffled xs [] D F := by
  have hnil := runs_left h (.nil F)
  rwa [List.append_nil] at hnil

theorem runs_of_nil (h : Shuffled [] ys D F) : Runs ys D F := by
  induction ys generalizing D with
  | nil =>
    cases h
    rfl
  | cons y ys ih =>
    cases h with
    | right hy hrest => exact ⟨_, hy, ih hrest⟩

/-- A move that may come before all of the other side is brought to the front. -/
theorem bring (h : Shuffled (x :: xs) ys D F) (hx : ∀ y ∈ ys, x.Before y) :
    ∃ E, x.Leads D E ∧ Shuffled xs ys E F := by
  induction ys generalizing D with
  | nil =>
    cases h with
    | left h hrest => exact ⟨_, h, hrest⟩
  | cons y ys ih =>
    cases h with
    | left h hrest => exact ⟨_, h, hrest⟩
    | right hy hrest =>
      obtain ⟨E, hE, hshuffled⟩ := ih hrest fun z hz => hx z (List.mem_cons_of_mem y hz)
      obtain ⟨E', hfirst, hthen⟩ := hx y List.mem_cons_self _ _ _ hy hE
      exact ⟨E', hfirst, .right hthen hshuffled⟩

theorem bringAll (h : Shuffled (zs ++ xs) ys D F) (hzs : ∀ z ∈ zs, ∀ y ∈ ys, z.Before y) :
    ∃ E, Runs zs D E ∧ Shuffled xs ys E F := by
  induction zs generalizing D with
  | nil => exact ⟨D, rfl, h⟩
  | cons z zs ih =>
    obtain ⟨_, hz, hrest⟩ := bring h (hzs z List.mem_cons_self)
    obtain ⟨E, hruns, hshuffled⟩ := ih hrest fun w hw => hzs w (List.mem_cons_of_mem z hw)
    exact ⟨E, ⟨_, hz, hruns⟩, hshuffled⟩

/-- Where all moves of one side may come before those of the other, they do. -/
theorem serial (h : Shuffled xs ys D F) (hxs : ∀ x ∈ xs, ∀ y ∈ ys, x.Before y) :
    Runs (xs ++ ys) D F := by
  rw [← xs.append_nil] at h
  obtain ⟨E, hruns, hshuffled⟩ := bringAll h hxs
  exact hruns.append hshuffled.runs_of_nil

/-- The other side has to wait as long as its next move cannot be made. -/
theorem of_blocked (h : Shuffled (x :: xs) (y :: ys) D F) (hy : ¬ y.guard (D y.place)) :
    ∃ E, x.Leads D E ∧ Shuffled xs (y :: ys) E F := by
  cases h with
  | left hx hrest => exact ⟨_, hx, hrest⟩
  | right h _ => exact absurd h.1 hy

end Shuffled

theorem Runs.swap {xs ys : List Move} {D F : Desk} (h : Runs (ys ++ xs) D F)
    (hxs : ∀ x ∈ xs, ∀ y ∈ ys, x.Before y) : Runs (xs ++ ys) D F := by
  obtain ⟨_, hys, hruns⟩ := h.of_append
  have hshuffled := Shuffled.runs_right hys (Shuffled.of_runs hruns)
  rw [List.append_nil] at hshuffled
  exact hshuffled.serial hxs

namespace Shuffled

variable {x y z : Move} {as bs cs ds xs ys : List Move} {D F : Desk}

/-- The other side looks at something first, and then has to wait for a move. -/
theorem serial_of_blocked (h : Shuffled (as ++ x :: bs) (z :: y :: ys) D F)
    (hz : ∀ a ∈ as ++ x :: bs, a.Commutes z) (has : ∀ a ∈ as, ∀ b ∈ y :: ys, a.Before b)
    (hbs : ∀ a ∈ bs, ∀ b ∈ y :: ys, a.Before b)
    (hblocked : ∀ E, Runs (z :: as) D E → ¬ y.guard (E y.place)) :
    Runs ((as ++ x :: bs) ++ z :: y :: ys) D F := by
  obtain ⟨_, hfirst, hrest⟩ := h.symm.bring fun a ha => (hz a ha).2
  obtain ⟨E, hruns, hrest⟩ := hrest.symm.bringAll has
  obtain ⟨_, hx, hrest⟩ := hrest.of_blocked (hblocked E ⟨_, hfirst, hruns⟩)
  obtain ⟨E', hmine, hothers⟩ := (hrest.serial hbs).of_append
  have hall : Runs ([z] ++ (as ++ x :: bs)) D E' := ⟨_, hfirst, hruns.append ⟨_, hx, hmine⟩⟩
  have hswapped : Runs ((as ++ x :: bs) ++ [z]) D E' := by
    refine hall.swap fun a ha b hb => ?_
    obtain rfl := List.mem_singleton.1 hb
    exact (hz a ha).1
  simpa using hswapped.append hothers

/-- Where all moves can be exchanged but one of either side, the order of these two decides which
side comes first. -/
theorem eitherFirst_of_middle (h : Shuffled (as ++ x :: bs) (cs ++ y :: ds) D F)
    (hx : ∀ a ∈ as ++ bs, ∀ b ∈ cs ++ y :: ds, a.Commutes b)
    (hy : ∀ b ∈ cs ++ ds, x.Commutes b) :
    Runs ((as ++ x :: bs) ++ (cs ++ y :: ds)) D F ∨
      Runs ((cs ++ y :: ds) ++ (as ++ x :: bs)) D F := by
  have has : ∀ a ∈ as, ∀ b ∈ cs ++ y :: ds, a.Commutes b :=
    fun a ha => hx a (List.mem_append_left bs ha)
  have hbs : ∀ a ∈ bs, ∀ b ∈ cs ++ y :: ds, a.Commutes b :=
    fun a ha => hx a (List.mem_append_right as ha)
  have hcs : ∀ a ∈ x :: bs, ∀ b ∈ cs, a.Commutes b := by
    intro a ha b hb
    rcases List.mem_cons.1 ha with rfl | ha
    · exact hy b (List.mem_append_left ds hb)
    · exact hbs a ha b (List.mem_append_left _ hb)
  have hds : ∀ a ∈ x :: bs, ∀ b ∈ ds, a.Commutes b := by
    intro a ha b hb
    rcases List.mem_cons.1 ha with rfl | ha
    · exact hy b (List.mem_append_right cs hb)
    · exact hbs a ha b (List.mem_append_right cs (List.mem_cons_of_mem y hb))
  obtain ⟨_, hruns, hrest⟩ := bringAll h fun a ha b hb => (has a ha b hb).1
  obtain ⟨_, hruns', hrest'⟩ := bringAll hrest.symm fun b hb a ha => (hcs a ha b hb).2
  cases hrest'.symm with
  | left hfirst hthen =>
    left
    have hlast : Runs (bs ++ y :: ds) _ F :=
      hthen.serial fun a ha b hb => (hbs a ha b (List.mem_append_right cs hb)).1
    obtain ⟨_, hmine, hothers⟩ := hlast.of_append
    have hmiddle : Runs (cs ++ x :: bs) _ _ := hruns'.append ⟨_, hfirst, hmine⟩
    have hswapped := hmiddle.swap fun a ha b hb => (hcs a ha b hb).1
    have hall := (hruns.append hswapped).append hothers
    simpa using hall
  | right hfirst hthen =>
    right
    have hlast : Runs (ds ++ x :: bs) _ F :=
      hthen.symm.serial fun b hb a ha => (hds a ha b hb).2
    obtain ⟨_, hothers, hmine⟩ := hlast.of_append
    have hmiddle : Runs (as ++ (cs ++ y :: ds)) _ _ :=
      hruns.append (hruns'.append ⟨_, hfirst, hothers⟩)
    have hswapped := hmiddle.swap fun b hb a ha => (has a ha b hb).2
    have hall := hswapped.append hmine
    simpa using hall

theorem eitherFirst (h : Shuffled xs ys D F) (hxs : xs.Perm (x :: as)) (hys : ys.Perm (y :: bs))
    (hx : ∀ a ∈ as, ∀ b ∈ y :: bs, a.Commutes b) (hy : ∀ b ∈ bs, x.Commutes b) :
    Runs (xs ++ ys) D F ∨ Runs (ys ++ xs) D F := by
  obtain ⟨l, r, rfl⟩ := List.append_of_mem (hxs.mem_iff.2 List.mem_cons_self)
  obtain ⟨l', r', rfl⟩ := List.append_of_mem (hys.mem_iff.2 List.mem_cons_self)
  have has : (l ++ r).Perm as := (List.perm_middle.symm.trans hxs).cons_inv
  have hbs : (l' ++ r').Perm bs := (List.perm_middle.symm.trans hys).cons_inv
  refine h.eitherFirst_of_middle ?_ fun b hb => hy b (hbs.mem_iff.1 hb)
  exact fun a ha b hb => hx a (has.mem_iff.1 ha) b (hys.mem_iff.1 hb)

end Shuffled

end FreelanceBoard
