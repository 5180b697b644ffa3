import Mathlib.Algebra.Order.Field.Power
import Mathlib.Algebra.Order.Ring.Rat
import Mathlib.Data.Nat.Digits.Defs
import Mathlib.Tactic.GCongr
import Mathlib.Tactic.Linarith
import Mathlib.Tactic.Positivity
import Mathlib.Tactic.Ring
import Offside.Number

/-!
# Rounding decimals

The bits of a decimal are those of the binary64 number nearest to it, and of two nearest ones those
with an even last place.  Numbers are rational here.  In the order of their bits they grow, so a number
is nearest if its two neighbours are no nearer: rounding compares with these, and what is above
the largest number is compared with infinity as if that were the next power of two.
-/

namespace Offside.Number

/-! ## The numbers that bits stand for -/

/-- What the bits of a positive binary64 number are worth.  The exponents go on beyond the largest one,
so the bits of infinity are worth the next power of two. -/
def value (bits : ℕ) : ℚ :=
  if bits < 2 ^ 52 then bits * 2 ^ (-1074 : ℤ)
  else ((2 ^ 52 + bits % 2 ^ 52 : ℕ) : ℚ) * 2 ^ ((bits / 2 ^ 52 : ℕ) - 1075 : ℤ)

variable {x y : ℚ} {bits other e m num den : ℕ} {place : ℤ}

theorem value_eq (most : m ≤ 2 ^ 53) (normal : e = 0 ∨ 2 ^ 52 ≤ m) :
    value (e * 2 ^ 52 + m) = m * 2 ^ (e - 1074 : ℤ) := by
  unfold value
  by_cases subnormal : e * 2 ^ 52 + m < 2 ^ 52
  · obtain rfl : e = 0 := by omega
    rw [if_pos subnormal]
    simp
  rw [if_neg subnormal]
  by_cases carries : m = 2 ^ 53
  · subst carries
    have quotient : (e * 2 ^ 52 + 2 ^ 53) / 2 ^ 52 = e + 2 := by omega
    have remainder : (e * 2 ^ 52 + 2 ^ 53) % 2 ^ 52 = 0 := by omega
    have exponent : ((e + 2 : ℕ) - 1075 : ℤ) = (e - 1074 : ℤ) + 1 := by omega
    rw [quotient, remainder, exponent, zpow_add_one₀ (by norm_num)]
    push_cast
    ring
  · have quotient : (e * 2 ^ 52 + m) / 2 ^ 52 = e + 1 := by omega
    have sum : 2 ^ 52 + (e * 2 ^ 52 + m) % 2 ^ 52 = m := by omega
    have exponent : ((e + 1 : ℕ) - 1075 : ℤ) = (e - 1074 : ℤ) := by omega
    rw [quotient, sum, exponent]

theorem exists_eq (bits : ℕ) :
    ∃ e m, bits = e * 2 ^ 52 + m ∧ m < 2 ^ 53 ∧ (e = 0 ∨ 2 ^ 52 ≤ m) := by
  by_cases subnormal : bits < 2 ^ 52
  · exact ⟨0, bits, by omega, by omega, .inl rfl⟩
  · exact ⟨bits / 2 ^ 52 - 1, 2 ^ 52 + bits % 2 ^ 52, by omega, by omega, .inr (by omega)⟩

theorem value_strictMono : StrictMono value := by
  apply strictMono_nat_of_lt_succ
  intro bits
  obtain ⟨e, m, rfl, most, normal⟩ := exists_eq bits
  rw [Nat.add_assoc, value_eq (by omega) normal, value_eq (by omega) (by omega)]
  have unit : (0 : ℚ) < 2 ^ (e - 1074 : ℤ) := by positivity
  push_cast
  linarith

/-! ## Rounding to a natural number -/

/-- `m` is as near to `y` as any natural number, and even where another one is as near. -/
structure Rounds (y : ℚ) (m : ℕ) : Prop where
  below : 2 * (m : ℚ) ≤ 2 * y + 1
  above : 2 * y ≤ 2 * m + 1
  even : 2 * (m : ℚ) = 2 * y + 1 ∨ 2 * y = 2 * m + 1 → m % 2 = 0

theorem Rounds.le {n : ℕ} (rounds : Rounds y m) (less : y < n) : m ≤ n := by
  have : (2 * m : ℚ) < 2 * n + 1 := by linarith [rounds.below]
  have : 2 * m < 2 * n + 1 := by exact_mod_cast this
  omega

theorem Rounds.ge {n : ℕ} (rounds : Rounds y m) (least : (n : ℚ) ≤ y) : n ≤ m := by
  have : (2 * n : ℚ) ≤ 2 * m + 1 := by linarith [rounds.above]
  have : 2 * n ≤ 2 * m + 1 := by exact_mod_cast this
  omega

theorem rounds_roundDiv (num : ℕ) (positive : 0 < den) :
    Rounds (num / den) (roundDiv num den) := by
  have positive' : (0 : ℚ) < den := by exact_mod_cast positive
  have here : (num / den : ℚ) = (num / den : ℕ) + (num % den : ℕ) / den := by
    rw [div_eq_iff positive'.ne', add_mul, div_mul_cancel₀ _ positive'.ne']
    exact_mod_cast (Nat.div_add_mod' num den).symm
  have least : 0 ≤ ((num % den : ℕ) / den : ℚ) := by positivity
  have most : ((num % den : ℕ) / den : ℚ) < 1 := by
    rw [div_lt_one positive']
    exact_mod_cast Nat.mod_lt num positive
  have less : 2 * (num % den) < den ↔ 2 * ((num % den : ℕ) / den : ℚ) < 1 := by
    rw [← mul_div_assoc, div_lt_one positive']
    exact_mod_cast Iff.rfl
  have more : den < 2 * (num % den) ↔ 1 < 2 * ((num % den : ℕ) / den : ℚ) := by
    rw [← mul_div_assoc, one_lt_div positive']
    exact_mod_cast Iff.rfl
  rw [here]
  unfold roundDiv
  simp only [less, more]
  generalize ((num % den : ℕ) / den : ℚ) = part at least most
  generalize num / den = quotient
  have next : ((quotient + 1 : ℕ) : ℚ) = quotient + 1 := Nat.cast_succ quotient
  split
  next =>
    refine ⟨by linarith, by linarith, ?_⟩
    rintro (same | same) <;> linarith
  split
  next =>
    refine ⟨by linarith, by linarith, ?_⟩
    rintro (same | same) <;> linarith
  split
  next even => exact ⟨by linarith, by linarith, fun _ => even⟩
  next odd => exact ⟨by linarith, by linarith, fun _ => by omega⟩

theorem rounds_roundScaled (num : ℕ) (positive : 0 < den) (scale : ℤ) :
    Rounds (num / den / 2 ^ scale) (roundScaled num den scale) := by
  unfold roundScaled
  split
  next nonneg =>
    have rounded := rounds_roundDiv num (Nat.mul_pos positive (Nat.two_pow_pos scale.toNat))
    push_cast at rounded
    rwa [← zpow_natCast, Int.toNat_of_nonneg nonneg, ← div_div] at rounded
  next negative =>
    have rounded := rounds_roundDiv (num * 2 ^ (-scale).toNat) positive
    push_cast at rounded
    rwa [← zpow_natCast, Int.toNat_of_nonneg (by omega), zpow_neg, ← div_eq_mul_inv,
      div_right_comm] at rounded

/-! ## The last place -/

/-- A place of two powers is the last one of a significand of 53 bits for `x`. -/
structure LastPlace (x : ℚ) (place : ℤ) : Prop where
  least : -1074 ≤ place
  above : x < 2 ^ (place + 53)
  normal : place = -1074 ∨ 2 ^ (place + 52) ≤ x

theorem log2_bounds (positive : 0 < num) :
    (2 : ℚ) ^ (num.log2 : ℤ) ≤ num ∧ (num : ℚ) < 2 ^ (num.log2 + 1 : ℤ) := by
  constructor
  · exact_mod_cast Nat.log2_self_le positive.ne'
  · exact_mod_cast @Nat.lt_log2_self num

theorem two_pow_mul (a b : ℤ) : (2 : ℚ) ^ a * 2 ^ b = 2 ^ (a + b) :=
  (zpow_add₀ (by norm_num) a b).symm

theorem decide_lt_eq_true_iff (num : ℕ) (positive : 0 < den) (scale : ℤ) :
    (if 0 ≤ scale then decide (num < den * Nat.pow 2 (scale.toNat + 52))
      else decide (num * Nat.pow 2 (-scale).toNat < den * Nat.pow 2 52)) = true ↔
        (num / den : ℚ) < 2 ^ (scale + 52) := by
  have positive' : (0 : ℚ) < den := by exact_mod_cast positive
  rw [div_lt_iff₀ positive', mul_comm]
  split
  next nonneg =>
    obtain ⟨n, rfl⟩ := Int.eq_ofNat_of_zero_le nonneg
    rw [decide_eq_true_eq, Int.toNat_natCast]
    exact_mod_cast Iff.rfl
  next negative =>
    obtain ⟨n, rfl⟩ : ∃ n : ℕ, scale = -n := ⟨(-scale).toNat, by omega⟩
    rw [decide_eq_true_eq, neg_neg, Int.toNat_natCast, ← two_pow_mul, zpow_neg, mul_assoc,
      ← div_eq_inv_mul, zpow_natCast, lt_div_iff₀ (by positivity), mul_comm den]
    exact_mod_cast Iff.rfl

theorem lastPlace_max (above : x < 2 ^ (place + 53)) (normal : 2 ^ (place + 52) ≤ x) :
    LastPlace x (max place (-1074)) := by
  obtain high | low := le_total (-1074) place
  · rw [max_eq_left high]
    exact ⟨high, above, .inr normal⟩
  · rw [max_eq_right low]
    refine ⟨le_rfl, above.trans_le ?_, .inl rfl⟩
    gcongr
    norm_num

theorem lastPlace_spec (numPositive : 0 < num) (positive : 0 < den) :
    LastPlace (num / den) (lastPlace num den) := by
  have positive' : (0 : ℚ) < den := by exact_mod_cast positive
  obtain ⟨numLeast, numMost⟩ := log2_bounds numPositive
  obtain ⟨denLeast, denMost⟩ := log2_bounds positive
  unfold lastPlace
  simp only [decide_lt_eq_true_iff num positive]
  generalize guessed : (num.log2 : ℤ) - den.log2 - 52 = guess
  split
  next small =>
    refine lastPlace_max (by rwa [show guess - 1 + 53 = guess + 52 by omega]) ?_
    rw [le_div_iff₀ positive']
    calc (2 : ℚ) ^ (guess - 1 + 52) * den ≤ 2 ^ (guess - 1 + 52) * 2 ^ (den.log2 + 1 : ℤ) := by
          gcongr
      _ = 2 ^ (num.log2 : ℤ) := by rw [two_pow_mul]; congr 1; omega
      _ ≤ num := numLeast
  next large =>
    refine lastPlace_max ?_ (not_lt.1 large)
    rw [div_lt_iff₀ positive']
    calc (num : ℚ) < 2 ^ (num.log2 + 1 : ℤ) := numMost
      _ = 2 ^ (guess + 53) * 2 ^ (den.log2 : ℤ) := by rw [two_pow_mul]; congr 1; omega
      _ ≤ 2 ^ (guess + 53) * den := by gcongr

/-! ## Rounding to bits -/

/-- `x` lies on this side of the middle between `bits` and any other bits, and in the middle only if
`bits` is even. -/
structure Central (x : ℚ) (bits : ℕ) : Prop where
  below : ∀ other < bits, value other + value bits ≤ 2 * x
  above : ∀ other, bits < other → 2 * x ≤ value bits + value other
  even : ∀ other, other ≠ bits → value other + value bits = 2 * x → bits % 2 = 0

theorem central_of_neighbours
    (below : ∀ other, bits = other + 1 → value other + value bits ≤ 2 * x)
    (above : 2 * x ≤ value bits + value (bits + 1))
    (even : (∃ other, bits = other + 1 ∧ value other + value bits = 2 * x) ∨
      2 * x = value bits + value (bits + 1) → bits % 2 = 0) : Central x bits where
  below other less := by
    obtain ⟨k, rfl⟩ := Nat.exists_eq_add_one_of_ne_zero (Nat.ne_zero_of_lt less)
    have := value_strictMono.monotone (Nat.le_of_lt_succ less)
    linarith [below k rfl]
  above other less := by
    have := value_strictMono.monotone less
    linarith
  even other ne same := by
    obtain less | more := lt_or_gt_of_ne ne
    · obtain ⟨k, rfl⟩ := Nat.exists_eq_add_one_of_ne_zero (Nat.ne_zero_of_lt less)
      have := value_strictMono.monotone (Nat.le_of_lt_succ less)
      exact even (.inl ⟨k, rfl, le_antisymm (below k rfl) (by linarith)⟩)
    · have := value_strictMono.monotone more
      exact even (.inr (le_antisymm above (by linarith)))

/-- The last place is half as wide below a power of two. -/
theorem value_of_succ_eq (most : m ≤ 2 ^ 53) (normal : e = 0 ∨ 2 ^ 52 ≤ m)
    (next : e * 2 ^ 52 + m = other + 1) :
    value other = (m - 1) * 2 ^ (e - 1074 : ℤ) ∨
      e ≠ 0 ∧ m = 2 ^ 52 ∧ value other < m * 2 ^ (e - 1074 : ℤ) := by
  by_cases boundary : e = 0 ∨ 2 ^ 52 + 1 ≤ m
  · left
    rw [show other = e * 2 ^ 52 + (m - 1) by omega, value_eq (by omega) (by omega),
      Nat.cast_sub (by omega), Nat.cast_one]
  · right
    refine ⟨by omega, by omega, ?_⟩
    rw [← value_eq most normal]
    exact value_strictMono (by omega)

/-- The last place is twice as wide above a power of two. -/
theorem value_succ (most : m ≤ 2 ^ 53) (normal : e = 0 ∨ 2 ^ 52 ≤ m) :
    value (e * 2 ^ 52 + m + 1) = (m + 1) * 2 ^ (e - 1074 : ℤ) ∨
      m = 2 ^ 53 ∧ m * 2 ^ (e - 1074 : ℤ) < value (e * 2 ^ 52 + m + 1) := by
  by_cases boundary : m < 2 ^ 53
  · left
    rw [Nat.add_assoc, value_eq boundary (by omega), Nat.cast_succ]
  · right
    refine ⟨by omega, ?_⟩
    rw [← value_eq most normal]
    exact value_strictMono (Nat.lt_succ_self _)

theorem central_of_rounds (last : LastPlace x place) (rounds : Rounds (x / 2 ^ place) m) :
    Central x ((place + 1074).toNat * 2 ^ 52 + m) := by
  obtain ⟨least, most, normal⟩ := last
  obtain ⟨e, rfl⟩ : ∃ e : ℕ, place = e - 1074 := ⟨(place + 1074).toNat, by omega⟩
  have unit : (0 : ℚ) < 2 ^ (e - 1074 : ℤ) := by positivity
  obtain ⟨y, rfl⟩ : ∃ y, x = y * 2 ^ (e - 1074 : ℤ) := ⟨_, (div_mul_cancel₀ x unit.ne').symm⟩
  rw [mul_div_cancel_right₀ y unit.ne'] at rounds
  rw [← two_pow_mul, mul_comm, mul_lt_mul_iff_right₀ unit] at most
  rw [← two_pow_mul, mul_comm, mul_le_mul_iff_left₀ unit] at normal
  have mMost : m ≤ 2 ^ 53 := rounds.le (by exact_mod_cast most)
  have mNormal : e = 0 ∨ 2 ^ 52 ≤ m :=
    normal.imp (by omega) fun large => rounds.ge (by exact_mod_cast large)
  have parity : (e * 2 ^ 52 + m) % 2 = m % 2 := by omega
  have lower {other : ℕ} := @value_of_succ_eq other e m mMost mNormal
  have upper := value_succ mMost mNormal
  rw [show ((e - 1074 : ℤ) + 1074).toNat = e by omega]
  have below := mul_le_mul_of_nonneg_right rounds.below unit.le
  have above := mul_le_mul_of_nonneg_right rounds.above unit.le
  refine central_of_neighbours ?_ ?_ ?_ <;> rw [value_eq mMost mNormal]
  · intro other next
    obtain same | ⟨ne, rfl, less⟩ := lower next
    · linarith
    · have large := mul_le_mul_of_nonneg_right (normal.resolve_left (by omega)) unit.le
      norm_num at large less ⊢
      linarith
  · obtain same | ⟨rfl, more⟩ := upper
    · linarith
    · have small := mul_lt_mul_of_pos_right most unit
      norm_num at small more ⊢
      linarith
  · rw [parity]
    rintro (⟨other, next, tie⟩ | tie)
    · obtain same | ⟨ne, rfl, less⟩ := lower next
      · exact rounds.even (.inl (mul_right_cancel₀ unit.ne' (by linarith)))
      · rfl
    · obtain same | ⟨rfl, more⟩ := upper
      · exact rounds.even (.inr (mul_right_cancel₀ unit.ne' (by linarith)))
      · rfl

theorem abs_sub_le_iff_of_lt {a b : ℚ} (less : a < b) :
    (|x - b| ≤ |x - a| ↔ a + b ≤ 2 * x) ∧ (|x - a| ≤ |x - b| ↔ 2 * x ≤ a + b) := by
  rw [← sq_le_sq, ← sq_le_sq]
  refine ⟨⟨fun h => ?_, fun h => ?_⟩, ⟨fun h => ?_, fun h => ?_⟩⟩ <;> nlinarith

theorem Central.closest (central : Central x bits) (other : ℕ) :
    |x - value bits| ≤ |x - value other| := by
  obtain less | rfl | more := lt_trichotomy other bits
  · exact (abs_sub_le_iff_of_lt (value_strictMono less)).1.2 (central.below other less)
  · exact le_rfl
  · exact (abs_sub_le_iff_of_lt (value_strictMono more)).2.2 (central.above other more)

theorem Central.even_of_abs_eq (central : Central x bits) (ne : other ≠ bits)
    (tie : |x - value bits| = |x - value other|) : bits % 2 = 0 := by
  apply central.even other ne
  obtain same | opposite := abs_eq_abs.1 tie
  · exact absurd (value_strictMono.injective (by linarith)) ne
  · linarith

/-! ## Overflow -/

/-- What `x` is rounded to.  From half a last place above the largest number on it is infinity, and
else a number as near as any, with an even last place where another one is as near. -/
structure Nearest (x : ℚ) (bits : ℕ) : Prop where
  le : bits ≤ infinityBits
  infinite : bits = infinityBits ↔ 2 ^ (1024 : ℤ) - 2 ^ (970 : ℤ) ≤ x
  closest : bits < infinityBits → ∀ other < infinityBits, |x - value bits| ≤ |x - value other|
  even : bits < infinityBits → ∀ other < infinityBits, other ≠ bits →
    |x - value bits| = |x - value other| → bits % 2 = 0

theorem value_infinityBits : value infinityBits = 2 ^ (1024 : ℤ) := by
  rw [show infinityBits = 2045 * 2 ^ 52 + 2 ^ 53 by decide, value_eq le_rfl (.inr (by norm_num)),
    Nat.cast_pow, Nat.cast_ofNat, ← zpow_natCast]
  exact two_pow_mul 53 971

theorem value_pred_infinityBits :
    value (infinityBits - 1) + 2 * 2 ^ (970 : ℤ) = 2 ^ (1024 : ℤ) := by
  rw [show infinityBits - 1 = 2045 * 2 ^ 52 + (2 ^ 53 - 1) by decide,
    value_eq (by norm_num) (.inr (by norm_num)), Nat.cast_sub (by norm_num), Nat.cast_pow,
    Nat.cast_ofNat, Nat.cast_one, ← zpow_natCast, sub_mul, one_mul]
  have top : (2 : ℚ) ^ (53 : ℤ) * 2 ^ (971 : ℤ) = 2 ^ (1024 : ℤ) := two_pow_mul 53 971
  have twice : (2 : ℚ) ^ (1 : ℤ) * 2 ^ (970 : ℤ) = 2 ^ (971 : ℤ) := two_pow_mul 1 970
  rw [zpow_one] at twice
  rw [← top, twice]
  exact sub_add_cancel _ _

theorem Central.nearest (central : Central x bits) : Nearest x (min bits infinityBits) where
  le := min_le_right _ _
  infinite := by
    have top := value_infinityBits
    have largest := value_pred_infinityBits
    have positive : 0 < infinityBits := by decide
    rw [min_eq_right_iff]
    constructor
    · intro infinite
      have := value_strictMono.monotone infinite
      linarith [central.below (infinityBits - 1) (by omega)]
    · intro beyond
      by_contra finite
      have least : bits ≤ infinityBits - 1 := by omega
      have := value_strictMono.monotone least
      have above := central.above infinityBits (by omega)
      have even := central.even infinityBits (by omega) (by linarith)
      have last : value bits = value (infinityBits - 1) := by linarith
      rw [value_strictMono.injective last] at even
      exact absurd even (by decide)
  closest small other _ := by
    rw [min_eq_left (by omega)]
    exact central.closest other
  even small other _ ne tie := by
    rw [min_eq_left (by omega)] at ne tie ⊢
    exact central.even_of_abs_eq ne tie

theorem Nearest.eq (nearest : Nearest x bits) (also : Nearest x other) : bits = other := by
  by_cases infinite : 2 ^ (1024 : ℤ) - 2 ^ (970 : ℤ) ≤ x
  · rw [nearest.infinite.2 infinite, also.infinite.2 infinite]
  have finite := lt_of_le_of_ne nearest.le (mt nearest.infinite.1 infinite)
  have finite' := lt_of_le_of_ne also.le (mt also.infinite.1 infinite)
  have tie := le_antisymm (nearest.closest finite other finite') (also.closest finite' bits finite)
  by_contra ne
  wlog less : bits < other generalizing bits other
  · exact this also nearest finite' finite tie.symm (Ne.symm ne) (by omega)
  -- Both are even, so an odd number lies between them and is nearer.
  have even := nearest.even finite other finite' (Ne.symm ne) tie
  have even' := also.even finite' bits finite ne tie.symm
  have between := nearest.closest finite (bits + 1) (by omega)
  have lower := (abs_sub_le_iff_of_lt (value_strictMono (Nat.lt_succ_self bits))).2.1 between
  have upper := (abs_sub_le_iff_of_lt (value_strictMono less)).1.1 tie.ge
  have := value_strictMono (show bits + 1 < other by omega)
  linarith

/-! ## Decimals -/

theorem central_zero (small : x ≤ 2 ^ (-1075 : ℤ)) : Central x 0 := by
  have zero : value 0 = 0 := by simp [value]
  have one : value 1 = 2 ^ (1 : ℤ) * 2 ^ (-1075 : ℤ) := by
    rw [two_pow_mul]
    simp [value]
  rw [zpow_one] at one
  refine central_of_neighbours (by omega) ?_ (fun _ => rfl)
  rw [zero, one]
  linarith

theorem nearest_infinityBits (large : 2 ^ (1024 : ℤ) ≤ x) : Nearest x infinityBits where
  le := le_rfl
  infinite := by
    have gap : (0 : ℚ) ≤ 2 ^ (970 : ℤ) := by positivity
    exact iff_of_true rfl ((sub_le_self _ gap).trans large)
  closest small := absurd small (lt_irrefl _)
  even small := absurd small (lt_irrefl _)

theorem nearest_nearestBits (num : ℕ) (positive : 0 < den) :
    Nearest (num / den) (nearestBits num den) := by
  unfold nearestBits
  split
  next isZero =>
    subst isZero
    exact (central_zero (by simp)).nearest
  next notZero =>
    have last := lastPlace_spec (Nat.pos_of_ne_zero notZero) positive
    exact (central_of_rounds last (rounds_roundScaled num positive _)).nearest

theorem decimalPlaces_bounds (positive : 0 < m) :
    10 ^ (decimalPlaces m - 1) ≤ m ∧ m < 10 ^ decimalPlaces m := by
  have some : 0 < decimalPlaces m := Nat.length_toDigits_pos
  refine ⟨?_, (Nat.length_toDigits_le_iff (by omega) some).1 le_rfl⟩
  by_contra less
  by_cases single : decimalPlaces m = 1
  · rw [single] at less
    omega
  · have := (Nat.length_toDigits_le_iff (by omega) (by omega)).2 (not_le.1 less)
    exact absurd this (by unfold decimalPlaces at *; omega)

theorem magnitude_bounds (positive : 0 < m) (exponent : ℤ) :
    (10 : ℚ) ^ (decimalPlaces m + exponent - 1) ≤ m * 10 ^ exponent ∧
      (m : ℚ) * 10 ^ exponent ≤ 10 ^ (decimalPlaces m + exponent) := by
  obtain ⟨least, most⟩ := decimalPlaces_bounds positive
  have some : 0 < decimalPlaces m := Nat.length_toDigits_pos
  constructor
  · rw [show decimalPlaces m + exponent - 1 = (decimalPlaces m - 1 : ℕ) + exponent by omega,
      zpow_add₀ (by norm_num), zpow_natCast]
    gcongr
    exact_mod_cast least
  · rw [zpow_add₀ (by norm_num), zpow_natCast]
    gcongr
    exact_mod_cast most.le

/-- The bits of a decimal are those that it is rounded to. -/
theorem nearest_decimalBits (mantissa : ℕ) (exponent : ℤ) :
    Nearest (mantissa * 10 ^ exponent) (decimalBits mantissa exponent) := by
  unfold decimalBits
  dsimp only
  split
  next isZero =>
    subst isZero
    exact (central_zero (by simp)).nearest
  next notZero =>
  obtain ⟨least, most⟩ := magnitude_bounds (Nat.pos_of_ne_zero notZero) exponent
  split
  next huge =>
    apply nearest_infinityBits
    have cutoff : 2 ^ 1024 ≤ 10 ^ 310 := by decide +kernel
    calc (2 : ℚ) ^ (1024 : ℤ) ≤ 10 ^ (310 : ℤ) := by exact_mod_cast cutoff
      _ ≤ 10 ^ (decimalPlaces mantissa + exponent - 1) := by
        apply zpow_le_zpow_right₀ (by norm_num)
        omega
      _ ≤ mantissa * 10 ^ exponent := least
  split
  next tiny =>
    refine (central_zero ?_).nearest
    have cutoff : 2 ^ 1075 ≤ 10 ^ 331 := by decide +kernel
    calc (mantissa * 10 ^ exponent : ℚ) ≤ 10 ^ (decimalPlaces mantissa + exponent) := most
      _ ≤ 10 ^ (-331 : ℤ) := by
        apply zpow_le_zpow_right₀ (by norm_num)
        omega
      _ ≤ 2 ^ (-1075 : ℤ) := by
        rw [zpow_neg, zpow_neg]
        apply inv_anti₀ (by positivity)
        exact_mod_cast cutoff
  split
  next whole =>
    obtain ⟨n, rfl⟩ := Int.eq_ofNat_of_zero_le whole
    have nearest := nearest_nearestBits (mantissa * 10 ^ n) Nat.one_pos
    push_cast at nearest
    rwa [div_one] at nearest
  next fraction =>
    obtain ⟨n, rfl⟩ : ∃ n : ℕ, exponent = -n := ⟨(-exponent).toNat, by omega⟩
    have positive : 0 < 10 ^ n := Nat.pow_pos (by norm_num)
    have nearest := nearest_nearestBits mantissa positive
    push_cast at nearest
    rwa [zpow_neg, ← div_eq_mul_inv, neg_neg, Int.toNat_natCast, zpow_natCast]

/-- Decimals of one value are rounded alike, whatever their digits. -/
theorem decimalBits_congr {mantissa mantissa' : ℕ} {exponent exponent' : ℤ}
    (same : (mantissa * 10 ^ exponent : ℚ) = mantissa' * 10 ^ exponent') :
    decimalBits mantissa exponent = decimalBits mantissa' exponent' :=
  (nearest_decimalBits mantissa exponent).eq (same ▸ nearest_decimalBits mantissa' exponent')

theorem lt_of_magnitudeBits?_eq_some {text : List Char} (read : magnitudeBits? text = some bits) :
    bits < 2 ^ 63 := by
  have notNumber : infinityBits + Nat.pow 2 51 < 2 ^ 63 := by decide
  have infinite : infinityBits < 2 ^ 63 := by decide
  unfold magnitudeBits? at read
  simp only at read
  split at read
  next => rwa [← Option.some.inj read]
  next =>
  split at read
  next => rwa [← Option.some.inj read]
  next =>
    obtain ⟨parts, -, rfl⟩ := Option.map_eq_some_iff.1 read
    exact (nearest_decimalBits parts.mantissa parts.exponent).le.trans_lt infinite

end Offside.Number
