import FreelanceBoard.Number.Double
import Mathlib.Data.Rat.Floor
import Mathlib.Algebra.Order.Field.Basic
import Mathlib.Tactic.Linarith
import Mathlib.Tactic.Positivity

/-! How whole numbers become doubles. Up to `2 ^ 53` each is kept as it is; beyond, rounding never
goes below the greatest power of two in a number, and from `2 ^ 1024 - 2 ^ 970` on there is no
double any more. -/
namespace FreelanceBoard

namespace Double

theorem nearestInt_intCast (k : Int) : nearestInt k = k := by
  simp [nearestInt, Rat.floor_intCast]

/-- Rounding does not cross a whole number from above. -/
theorem le_nearestInt {k : Int} {q : Rat} (h : (k : Rat) ≤ q) : k ≤ nearestInt q := by
  have hfloor : k ≤ q.floor := Rat.le_floor_iff.2 h
  simp only [nearestInt]
  split_ifs <;> omega

/-- Rounding does not cross a whole number from below. -/
theorem nearestInt_le {k : Int} {q : Rat} (h : q ≤ k) : nearestInt q ≤ k := by
  have hfloor : (q.floor : Rat) ≤ q := Rat.floor_le q
  rcases h.lt_or_eq with hlt | rfl
  · have hk : q.floor < k := by exact_mod_cast hfloor.trans_lt hlt
    simp only [nearestInt]
    split_ifs <;> omega
  · exact (nearestInt_intCast k).le

/-- Halfway above an odd number the even neighbour is the upper one. -/
theorem lt_nearestInt_iff {k : Int} (hodd : k % 2 = 1) {q : Rat} :
    k < nearestInt q ↔ (k : Rat) + 1 / 2 ≤ q := by
  have hfloor : (q.floor : Rat) ≤ q := Rat.floor_le q
  have hceil : q < q.floor + 1 := by exact_mod_cast Rat.lt_floor_add_one q
  rcases lt_trichotomy q.floor k with hlt | heq | hgt
  · have hk : (q.floor : Rat) + 1 ≤ k := by exact_mod_cast hlt
    have hle : nearestInt q ≤ k := nearestInt_le (by linarith)
    constructor
    · intro h
      omega
    · intro h
      linarith
  · simp only [nearestInt, heq]
    rw [heq] at hfloor
    split_ifs with hlow hhigh
    · exact ⟨fun h => absurd h (lt_irrefl k), fun h => by linarith⟩
    · exact ⟨fun _ => by linarith, fun _ => by omega⟩
    · exact ⟨fun _ => by linarith, fun _ => by omega⟩
  · have hk : (k : Rat) + 1 ≤ q.floor := by exact_mod_cast hgt
    have hle : k + 1 ≤ nearestInt q := le_nearestInt (by push_cast; linarith)
    exact ⟨fun _ => by linarith, fun _ => by omega⟩

/-- Rounding treats both signs alike. -/
theorem nearestInt_neg (q : Rat) : nearestInt (-q) = -nearestInt q := by
  have hfloor : (q.floor : Rat) ≤ q := Rat.floor_le q
  have hceil : q < q.floor + 1 := by exact_mod_cast Rat.lt_floor_add_one q
  rcases hfloor.lt_or_eq with hlt | heq
  · have hneg : (-q).floor = -q.floor - 1 := by
      have h := Int.floor_eq_iff (z := -q.floor - 1) (a := -q)
      refine h.2 ⟨?_, ?_⟩ <;> push_cast <;> linarith
    simp only [nearestInt, hneg]
    push_cast
    split_ifs <;> first | omega | linarith
  · have hq : nearestInt q = q.floor := by
      rw [← heq, nearestInt_intCast, Rat.floor_intCast]
    have hn : nearestInt (-q) = -q.floor := by
      rw [← heq, ← Int.cast_neg, nearestInt_intCast, Rat.floor_intCast]
    rw [hq, hn]

/-- The multiple of the distance between doubles that is nearest to `q`, however large it is. -/
def rounded (q : Rat) : Rat := nearestInt (q / quantum q) * quantum q

theorem abs_eq (q : Rat) : q.abs = |q| := by
  rw [Rat.abs]
  split_ifs with h
  · exact (abs_of_nonneg h).symm
  · exact (abs_of_nonpos (by linarith)).symm

theorem rounded_neg (q : Rat) : rounded (-q) = -rounded q := by
  have hexponent : binaryExponent (-q) = binaryExponent q := by
    simp [binaryExponent, abs_eq]
  rw [rounded, rounded, quantum, hexponent, ← quantum, neg_div, nearestInt_neg]
  push_cast
  ring

section Natural

variable {n : Nat}

theorem binaryExponent_natCast (h : n ≠ 0) : binaryExponent n = n.log2 := by
  have hpow : (2 : Rat) ^ (n.log2 : Int) ≤ n := by
    rw [zpow_natCast]
    exact_mod_cast Nat.log2_self_le h
  have hone : Nat.log2 1 = 0 := by decide
  simp only [binaryExponent, abs_eq, Rat.num_natCast, Rat.den_natCast, Int.natAbs_natCast, hone,
    Nat.cast_zero, sub_zero, Nat.abs_cast, hpow, if_true]

theorem quantum_natCast (h : n ≠ 0) : quantum n = 2 ^ ((n.log2 : Int) - 52) := by
  rw [quantum, binaryExponent_natCast h, max_eq_left (by omega)]

theorem quantum_pos (q : Rat) : 0 < quantum q := zpow_pos (by norm_num) _

/-- A number that is a multiple of its distance between doubles is kept. -/
theorem rounded_of_multiple {q : Rat} {k : Int} (h : q = k * quantum q) : rounded q = q := by
  have hdiv : q / quantum q = k := by
    rw [div_eq_iff (quantum_pos q).ne', ← h]
  rw [rounded, hdiv, nearestInt_intCast, ← h]

theorem rounded_of_le (h : n ≤ 2 ^ 53) : rounded n = n := by
  rcases Nat.eq_zero_or_pos n with rfl | hpos
  · exact rounded_of_multiple (k := 0) (by simp)
  rcases h.lt_or_eq with hlt | rfl
  · have hlog : n.log2 < 53 := (Nat.log2_lt hpos.ne').2 hlt
    obtain ⟨d, hd⟩ : ∃ d, n.log2 + d = 52 := ⟨52 - n.log2, by omega⟩
    refine rounded_of_multiple (k := n * 2 ^ d) ?_
    rw [quantum_natCast hpos.ne', show (n.log2 : Int) - 52 = -d by omega, zpow_neg, zpow_natCast]
    push_cast
    field_simp
  · refine rounded_of_multiple (k := 2 ^ 52) ?_
    rw [quantum_natCast hpos.ne', Nat.log2_two_pow]
    norm_num

/-- A number lies between two neighbouring powers of two, and so does what it is rounded to. -/
theorem div_quantum_bounds (h : n ≠ 0) :
    ((2 ^ 52 : Int) : Rat) ≤ n / quantum n ∧ (n : Rat) / quantum n ≤ (2 ^ 53 : Int) := by
  have hlow : ((2 ^ n.log2 : Nat) : Rat) ≤ n := by exact_mod_cast Nat.log2_self_le h
  have hhigh : (n : Rat) ≤ (2 ^ (n.log2 + 1) : Nat) := by exact_mod_cast Nat.lt_log2_self.le
  have hpos := quantum_pos n
  rw [le_div_iff₀ hpos, div_le_iff₀ hpos, quantum_natCast h, zpow_sub₀ (by norm_num),
    zpow_natCast]
  push_cast at hlow hhigh ⊢
  constructor
  · calc (2 : Rat) ^ 52 * (2 ^ n.log2 / 2 ^ (52 : Int)) = 2 ^ n.log2 := by norm_num; ring
      _ ≤ n := hlow
  · calc (n : Rat) ≤ 2 ^ (n.log2 + 1) := hhigh
      _ = 2 ^ 53 * (2 ^ n.log2 / 2 ^ (52 : Int)) := by rw [pow_succ]; norm_num; ring

theorem two_pow_mul_quantum (h : n ≠ 0) (d : Nat) :
    (2 : Rat) ^ (52 + d) * quantum n = 2 ^ (n.log2 + d) := by
  rw [quantum_natCast h, ← zpow_natCast, ← zpow_natCast, ← zpow_add₀ (by norm_num)]
  congr 1
  push_cast
  ring

theorem two_pow_log2_le_rounded (h : n ≠ 0) : (2 : Rat) ^ n.log2 ≤ rounded n := by
  have hnear : 2 ^ 52 ≤ nearestInt (n / quantum n) := le_nearestInt (div_quantum_bounds h).1
  have hcast : (2 : Rat) ^ 52 ≤ nearestInt (n / quantum n) := by exact_mod_cast hnear
  calc (2 : Rat) ^ n.log2 = 2 ^ 52 * quantum n := (two_pow_mul_quantum h 0).symm
    _ ≤ rounded n := mul_le_mul_of_nonneg_right hcast (quantum_pos n).le

theorem rounded_le_two_pow (h : n ≠ 0) : rounded n ≤ (2 : Rat) ^ (n.log2 + 1) := by
  have hnear : nearestInt (n / quantum n) ≤ 2 ^ 53 := nearestInt_le (div_quantum_bounds h).2
  have hcast : (nearestInt (n / quantum n) : Rat) ≤ 2 ^ 53 := by exact_mod_cast hnear
  calc rounded n ≤ 2 ^ 53 * quantum n := mul_le_mul_of_nonneg_right hcast (quantum_pos n).le
    _ = 2 ^ (n.log2 + 1) := two_pow_mul_quantum h 1

/-- No number of more than 53 binary digits is rounded to one that has less of them. -/
theorem two_pow_53_le_rounded (h : 2 ^ 53 ≤ n) : (2 : Rat) ^ 53 ≤ rounded n := by
  have hpos : n ≠ 0 := by omega
  have hlog : 53 ≤ n.log2 := (Nat.le_log2 hpos).2 h
  exact (pow_le_pow_right₀ (by norm_num) hlog).trans (two_pow_log2_le_rounded hpos)

/-- The bound of the doubles is reached by rounding up from halfway below it. -/
theorem limit_le_rounded_iff : limit ≤ rounded n ↔ (2 ^ 54 - 1) * 2 ^ 970 ≤ n := by
  have hlimit : limit = (2 : Rat) ^ 1024 := zpow_natCast 2 1024
  have hhalf : (2 : Nat) ^ 1023 ≤ (2 ^ 54 - 1) * 2 ^ 970 := calc
    (2 : Nat) ^ 1023 = 2 ^ 53 * 2 ^ 970 := by rw [← pow_add]
    _ ≤ (2 ^ 54 - 1) * 2 ^ 970 := Nat.mul_le_mul_right _ (by norm_num)
  have hwhole : (2 ^ 54 - 1) * 2 ^ 970 ≤ (2 : Nat) ^ 1024 := calc
    (2 ^ 54 - 1) * 2 ^ 970 ≤ 2 ^ 54 * 2 ^ 970 := Nat.mul_le_mul_right _ (by norm_num)
    _ = (2 : Nat) ^ 1024 := by rw [← pow_add]
  have htop : (2 : Rat) ^ 1024 = (2 ^ 53 : Int) * 2 ^ 971 := by
    push_cast
    exact pow_add 2 53 971
  rw [hlimit]
  rcases Nat.eq_zero_or_pos n with rfl | hpos
  · rw [rounded_of_le (Nat.zero_le _), Nat.cast_zero]
    exact iff_of_false (not_le.2 (by positivity)) (not_le.2 (by positivity))
  rcases lt_trichotomy n.log2 1023 with hlt | heq | hgt
  · have hlog : n.log2 + 1 < 1024 := Nat.succ_lt_succ hlt
    have hbelow : ∀ k, n.log2 < k → n < 2 ^ k := fun k => (Nat.log2_lt hpos.ne').1
    have hr : rounded n < 2 ^ 1024 := calc
      rounded n ≤ (2 : Rat) ^ (n.log2 + 1) := rounded_le_two_pow hpos.ne'
      _ < 2 ^ 1024 := pow_lt_pow_right₀ (by norm_num) hlog
    exact iff_of_false (not_le.2 hr) (not_le.2 ((hbelow 1023 hlt).trans_le hhalf))
  · have hquantum : quantum n = 2 ^ 971 := by
      rw [quantum_natCast hpos.ne', heq]
      exact zpow_natCast 2 971
    have hnear : (2 : Rat) ^ 1024 ≤ rounded n ↔
        (2 ^ 53 - 1 : Int) < nearestInt ((n : Rat) / 2 ^ 971) := by
      rw [rounded, hquantum, htop, mul_le_mul_iff_of_pos_right (by positivity), Int.cast_le,
        Int.sub_one_lt_iff]
    have hhalfway : (((2 ^ 53 - 1 : Int) : Rat) + 1 / 2) * 2 ^ 971 =
        ((2 ^ 54 - 1) * 2 ^ 970 : Nat) := by
      rw [Nat.cast_mul, Nat.cast_pow, Nat.cast_ofNat, pow_succ' (2 : Rat) 970, ← mul_assoc]
      norm_num
    rw [hnear, lt_nearestInt_iff (by norm_num), le_div_iff₀ (by positivity), hhalfway,
      Nat.cast_le]
  · have habove : ∀ k, k ≤ n.log2 → 2 ^ k ≤ n := fun k => (Nat.le_log2 hpos.ne').1
    have hr : (2 : Rat) ^ 1024 ≤ rounded n :=
      (pow_le_pow_right₀ (by norm_num) hgt).trans (two_pow_log2_le_rounded hpos.ne')
    exact iff_of_true hr (hwhole.trans (habove 1024 hgt))

end Natural

theorem rounded_intCast (n : Int) :
    0 ≤ n ∧ rounded n = rounded n.natAbs ∨ n < 0 ∧ rounded n = -rounded n.natAbs := by
  rcases le_or_gt 0 n with h | h
  · have hn : ((n.natAbs : Int) : Rat) = n := by rw [Int.natAbs_of_nonneg h]
    exact .inl ⟨h, by rw [← hn, Int.cast_natCast]⟩
  · have hn : -((n.natAbs : Int) : Rat) = n := by
      rw [Int.ofNat_natAbs_of_nonpos h.le, Int.cast_neg, neg_neg]
    exact .inr ⟨h, by rw [← hn, Int.cast_natCast, rounded_neg]⟩

theorem rounded_natCast_nonneg (n : Nat) : 0 ≤ rounded n := by
  have hnear : (0 : Int) ≤ nearestInt (n / quantum n) :=
    le_nearestInt (by simpa using div_nonneg n.cast_nonneg (quantum_pos n).le)
  exact mul_nonneg (by exact_mod_cast hnear) (quantum_pos n).le

theorem abs_rounded_intCast (n : Int) : |rounded n| = rounded n.natAbs := by
  have hnonneg := rounded_natCast_nonneg n.natAbs
  rcases rounded_intCast n with ⟨-, h⟩ | ⟨-, h⟩
  · rw [h, abs_of_nonneg hnonneg]
  · rw [h, abs_neg, abs_of_nonneg hnonneg]

/-- Whole numbers of up to 53 binary digits are their own doubles. -/
theorem rounded_intCast_of_le {n : Int} (h : n.natAbs ≤ 2 ^ 53) : rounded n = n := by
  rcases rounded_intCast n with ⟨hn, hr⟩ | ⟨hn, hr⟩ <;>
    rw [hr, rounded_of_le h, ← Int.cast_natCast]
  · rw [Int.natAbs_of_nonneg hn]
  · rw [Int.ofNat_natAbs_of_nonpos hn.le, Int.cast_neg, neg_neg]

theorem ofRat_eq (q : Rat) :
    ofRat q = if limit ≤ (rounded q).abs then .infinite (decide (q < 0))
      else if rounded q = 0 then zero (decide (q < 0)) else .finite (rounded q) := rfl

theorem ofInt?_eq (n : Int) :
    ofInt? n = if limit ≤ (rounded n).abs then none
      else some (if rounded n = 0 then zero (decide ((n : Rat) < 0)) else .finite (rounded n)) := by
  -- Its own equation takes seconds to derive.
  delta ofInt?
  rw [ofRat_eq]
  split_ifs with h hzero
  · rfl
  · cases decide ((n : Rat) < 0) <;> rfl
  · rfl

/-- Which whole numbers are too large to have a double. -/
theorem ofInt?_eq_none_iff {n : Int} : ofInt? n = none ↔ (2 ^ 54 - 1) * 2 ^ 970 ≤ n.natAbs := by
  rw [← limit_le_rounded_iff, ← abs_rounded_intCast, ← abs_eq, ofInt?_eq]
  by_cases h : limit ≤ (rounded n).abs <;> simp [h]

/-- The double of a whole number marks the point that the number is rounded to. -/
theorem point?_of_ofInt? {n : Int} {x : Double} (h : ofInt? n = some x) :
    x.point? = some (.rat (rounded n)) := by
  rw [ofInt?_eq] at h
  split_ifs at h with hlimit hzero
  · rw [← Option.some.inj h, hzero]
    cases decide ((n : Rat) < 0) <;> rfl
  · rw [← Option.some.inj h]
    rfl

section Order

variable {a : Int} (ha : a.natAbs < 2 ^ 53) (n : Int)

include ha

/-- Rounding a bound moves it past no whole number of less than 53 binary digits. -/
theorem lt_rounded_iff : (a : Rat) < rounded n ↔ a < n := by
  by_cases hn : n.natAbs ≤ 2 ^ 53
  · rw [rounded_intCast_of_le hn, Int.cast_lt]
  have hfar := two_pow_53_le_rounded (Nat.le_of_not_le hn)
  rcases rounded_intCast n with ⟨hpos, hr⟩ | ⟨hneg, hr⟩
  · have hlt : (a : Rat) < 2 ^ 53 := by
      have hint : a < 2 ^ 53 := by omega
      exact_mod_cast hint
    exact iff_of_true (by linarith) (by omega)
  · have hlt : -(2 ^ 53 : Rat) < a := by
      have hint : -(2 ^ 53 : Int) < a := by omega
      exact_mod_cast hint
    exact iff_of_false (by linarith) (by omega)

theorem rounded_lt_iff : rounded n < (a : Rat) ↔ n < a := by
  have hneg := lt_rounded_iff (a := -a) (by simpa using ha) (-n)
  rw [Int.cast_neg, Int.cast_neg, rounded_neg] at hneg
  rw [← neg_lt_neg_iff, hneg, neg_lt_neg_iff]

end Order

end Double

end FreelanceBoard
