import Mathlib
import SearchTable.Number.Binary
/-!
# Rounding to the nearest number

The finite ranks of a format are a ladder of rational values (`value`), and a greater rank has a
greater value (`value_strictMono`).  The ladder goes on above the rank of infinity with the same
rule, so rounding is described without a bound first: the rank nearest to a quotient is as near as
any other one (`exists_nearest`), and the rank of infinity stands for all those that lie above it.
A quotient that is the value of a rank is rounded to that rank (`nearestRank_eq`).

The last place of a quotient is found from the lengths of its parts by a guess that is one too high
at most; `lastPlace_eq` says that this is the binary logarithm of the quotient.
-/

namespace SearchTable.Number

variable {w : Width} {rank num den : Nat}

/-! ## Values -/

/-- The value of a finite rank. -/
def value (w : Width) (rank : Nat) : ℚ := significand w rank * 2 ^ exponent w rank

theorem two_zpow_pos (n : Int) : (0 : ℚ) < 2 ^ n := zpow_pos (by norm_num) n

theorem zpow_toNat {e : Int} (he : 0 ≤ e) : ((Nat.pow 2 e.toNat : Nat) : ℚ) = 2 ^ e := by
  obtain ⟨n, rfl⟩ := Int.eq_ofNat_of_zero_le he
  simp

theorem binade_pos (w : Width) : 0 < w.binade := by cases w <;> decide

theorem cast_binade (w : Width) : (w.binade : ℚ) = 2 ^ ((w.precision : Int) - 1) := by
  cases w <;> norm_num [Width.binade, Width.precision]

theorem den_quotient_pos (w : Width) (rank : Nat) : 0 < (quotient w rank).2 := by
  rw [quotient]
  split
  · exact Nat.one_pos
  · exact Nat.two_pow_pos _

/-- The quotient of a rank is its value. -/
theorem quotient_eq (w : Width) (rank : Nat) :
    ((quotient w rank).1 : ℚ) / (quotient w rank).2 = value w rank := by
  rw [quotient, value]
  split
  · rename_i he
    rw [Nat.cast_mul, zpow_toNat he, Nat.cast_one, div_one]
  · rename_i he
    rw [zpow_toNat (by omega), zpow_neg, div_inv_eq_mul]

theorem significand_pos (hrank : 0 < rank) : 0 < significand w rank := by
  have hpos := binade_pos w
  rw [significand]
  split <;> omega

theorem value_pos (hrank : 0 < rank) : 0 < value w rank :=
  mul_pos (by exact_mod_cast significand_pos hrank) (two_zpow_pos _)

theorem value_zero (w : Width) : value w 0 = 0 := by
  simp [value, significand, binade_pos]

/-! ## The ladder -/

/-- The significand of a normal rank has all of its bits, and that of a subnormal rank has not. -/
theorem significand_bounds (w : Width) (rank : Nat) :
    significand w rank < 2 * w.binade ∧
      (w.binade ≤ significand w rank ∨ exponent w rank = w.minExponent) := by
  have hpos := binade_pos w
  have hmod := Nat.mod_lt rank hpos
  rw [significand, exponent]
  split
  · exact ⟨by omega, .inr rfl⟩
  · exact ⟨by omega, .inl (by omega)⟩

theorem minExponent_le_exponent (w : Width) (rank : Nat) : w.minExponent ≤ exponent w rank := by
  rw [exponent]
  split
  · exact le_rfl
  · rename_i hrank
    have hdiv := Nat.div_pos (not_lt.1 hrank) (binade_pos w)
    omega

/-- A rank is put together from its exponent and its significand. -/
theorem rank_eq (w : Width) (rank : Nat) :
    (exponent w rank - w.minExponent).toNat * w.binade + significand w rank = rank := by
  rw [exponent, significand]
  split
  · simp
  · rename_i hrank
    have hdiv := Nat.div_pos (not_lt.1 hrank) (binade_pos w)
    have hsplit := Nat.div_add_mod rank w.binade
    obtain ⟨n, hn⟩ := Nat.exists_eq_succ_of_ne_zero hdiv.ne'
    have hplace :
        (w.minExponent + ((rank / w.binade : Nat) : Int) - 1 - w.minExponent).toNat = n := by
      omega
    rw [hplace]
    rw [hn, Nat.mul_succ, Nat.mul_comm] at hsplit
    omega

/-- The value of a rank that is put together from an exponent and a significand.  The significand
may also be the first one that is too great; the rank is then the first one of the next exponent. -/
theorem value_of_parts {m : Nat} {e : Int} (hhigh : m ≤ 2 * w.binade) (he : w.minExponent ≤ e)
    (hlow : w.binade ≤ m ∨ e = w.minExponent) :
    value w ((e - w.minExponent).toNat * w.binade + m) = m * 2 ^ e := by
  have hpos := binade_pos w
  obtain ⟨k, hk⟩ := Int.eq_ofNat_of_zero_le (sub_nonneg.2 he)
  rw [hk, Int.toNat_natCast]
  by_cases hsubnormal : k * w.binade + m < w.binade
  · have hk0 : k = 0 := by
      by_contra hne
      have := Nat.le_mul_of_pos_left w.binade (Nat.pos_of_ne_zero hne)
      omega
    subst hk0
    have he0 : e = w.minExponent := by omega
    simp only [Nat.zero_mul, Nat.zero_add] at hsubnormal ⊢
    rw [value, significand, exponent, if_pos hsubnormal, if_pos hsubnormal, he0]
  · rw [value, significand, exponent, if_neg hsubnormal, if_neg hsubnormal,
      Nat.mul_add_mod_self_right, Nat.add_comm (k * w.binade), Nat.add_mul_div_right _ _ hpos]
    have hnormal : w.binade ≤ m := by
      rcases hlow with h | h
      · exact h
      · have hk0 : k = 0 := by omega
        simpa [hk0] using hsubnormal
    rcases hhigh.lt_or_eq with hlt | rfl
    · have hdiv : m / w.binade = 1 := by
        rw [Nat.div_eq_iff hpos]
        omega
      have hmod : w.binade + m % w.binade = m := by
        have := Nat.div_add_mod m w.binade
        rw [hdiv] at this
        omega
      rw [hdiv, hmod]
      congr 2
      push_cast
      omega
    · have hsame : w.minExponent + ((2 + k : Nat) : Int) - 1 = e + 1 := by
        push_cast
        omega
      rw [Nat.mul_mod_left, Nat.mul_div_cancel _ hpos, hsame, zpow_add_one₀ two_ne_zero]
      push_cast
      ring

/-- The next rank has the next significand of the same exponent. -/
theorem value_succ (w : Width) (rank : Nat) :
    value w (rank + 1) = (significand w rank + 1) * 2 ^ exponent w rank := by
  obtain ⟨hhigh, hlow⟩ := significand_bounds w rank
  have hvalue := value_of_parts (m := significand w rank + 1) (by omega)
    (minExponent_le_exponent w rank) (hlow.imp_left (by omega))
  rw [← Nat.add_assoc, rank_eq] at hvalue
  simpa using hvalue

/-- A greater rank has a greater value. -/
theorem value_strictMono (w : Width) : StrictMono (value w) := by
  refine strictMono_nat_of_lt_succ fun rank => ?_
  rw [value_succ, value]
  exact mul_lt_mul_of_pos_right (lt_add_one _) (two_zpow_pos _)

theorem value_inj {other : Nat} : value w rank = value w other ↔ rank = other :=
  (value_strictMono w).injective.eq_iff

theorem value_eq_zero_iff : value w rank = 0 ↔ rank = 0 := by
  rw [← value_zero w, value_inj]

/-- Every multiple of a power of two that is not too fine and has no more bits than a significand is
the value of a rank. -/
theorem exists_value_eq {m : Nat} {e : Int} (hhigh : m ≤ 2 * w.binade) (he : w.minExponent ≤ e) :
    ∃ rank, value w rank = m * 2 ^ e := by
  obtain ⟨k, hk⟩ := Int.eq_ofNat_of_zero_le (sub_nonneg.2 he)
  -- A significand that is too short is doubled until it fills its bits or the exponent is least.
  induction k generalizing m e with
  | zero => exact ⟨_, value_of_parts hhigh he (.inr (by omega))⟩
  | succ k ih =>
    by_cases hlow : w.binade ≤ m
    · exact ⟨_, value_of_parts hhigh he (.inl hlow)⟩
    · obtain ⟨rank, hrank⟩ := ih (m := 2 * m) (e := e - 1) (by omega) (by omega) (by omega)
      refine ⟨rank, hrank.trans ?_⟩
      rw [zpow_sub_one₀ two_ne_zero]
      push_cast
      ring

theorem value_infinityRank (w : Width) :
    value w w.infinityRank = w.binade * 2 ^ (w.minExponent + (2 ^ w.exponentBits - 2)) := by
  have hvalue := value_of_parts (w := w) (m := w.binade)
    (e := w.minExponent + (2 ^ w.exponentBits - 2)) (by omega) (by cases w <;> decide)
    (.inl le_rfl)
  rw [← hvalue]
  cases w <;> rfl

/-! ## The last place -/

/-- The difference of the lengths of two numbers is the logarithm of their quotient, or one more. -/
theorem log_quotient (hnum : 0 < num) (hden : 0 < den) :
    Int.log 2 ((num : ℚ) / den) = (num.log2 : Int) - den.log2 ∨
      Int.log 2 ((num : ℚ) / den) = (num.log2 : Int) - den.log2 - 1 := by
  have hpos : (0 : ℚ) < (num : ℚ) / den := by positivity
  have hn : (2 : ℚ) ^ (num.log2 : Int) ≤ num := by
    rw [zpow_natCast]
    exact_mod_cast Nat.log2_self_le hnum.ne'
  have hn' : (num : ℚ) < 2 ^ ((num.log2 : Int) + 1) := by
    have h := Nat.lt_log2_self (n := num)
    exact_mod_cast h
  have hd : (2 : ℚ) ^ (den.log2 : Int) ≤ den := by
    rw [zpow_natCast]
    exact_mod_cast Nat.log2_self_le hden.ne'
  have hd' : (den : ℚ) < 2 ^ ((den.log2 : Int) + 1) := by
    have h := Nat.lt_log2_self (n := den)
    exact_mod_cast h
  have hdpos : (0 : ℚ) < den := by exact_mod_cast hden
  have hlow : (num.log2 : Int) - den.log2 - 1 ≤ Int.log 2 ((num : ℚ) / den) := by
    refine (Int.zpow_le_iff_le_log (by norm_num) hpos).1 ?_
    rw [Nat.cast_ofNat, le_div_iff₀ hdpos]
    calc (2 : ℚ) ^ ((num.log2 : Int) - den.log2 - 1) * den
        ≤ 2 ^ ((num.log2 : Int) - den.log2 - 1) * 2 ^ ((den.log2 : Int) + 1) :=
          mul_le_mul_of_nonneg_left hd'.le (two_zpow_pos _).le
      _ = 2 ^ (num.log2 : Int) := by
          rw [← zpow_add₀ two_ne_zero]
          congr 1
          omega
      _ ≤ num := hn
  have hhigh : Int.log 2 ((num : ℚ) / den) < (num.log2 : Int) - den.log2 + 1 := by
    refine (Int.lt_zpow_iff_log_lt (by norm_num) hpos).1 ?_
    rw [Nat.cast_ofNat, div_lt_iff₀ hdpos]
    calc (num : ℚ) < 2 ^ ((num.log2 : Int) + 1) := hn'
      _ = 2 ^ ((num.log2 : Int) - den.log2 + 1) * 2 ^ (den.log2 : Int) := by
          rw [← zpow_add₀ two_ne_zero]
          congr 1
          omega
      _ ≤ 2 ^ ((num.log2 : Int) - den.log2 + 1) * den :=
          mul_le_mul_of_nonneg_left hd (two_zpow_pos _).le
  omega

/-- The test of the guess compares the quotient with a power of two. -/
theorem fits_iff (hnum : 0 < num) (hden : 0 < den) (guess : Int) :
    (if 0 ≤ guess then den * Nat.pow 2 guess.toNat * w.binade ≤ num
      else den * w.binade ≤ num * Nat.pow 2 (-guess).toNat) ↔
      guess + ((w.precision : Int) - 1) ≤ Int.log 2 ((num : ℚ) / den) := by
  have hpos : (0 : ℚ) < (num : ℚ) / den := by positivity
  have hdpos : (0 : ℚ) < den := by exact_mod_cast hden
  rw [← Int.zpow_le_iff_le_log (by norm_num) hpos, Nat.cast_ofNat, le_div_iff₀ hdpos,
    zpow_add₀ two_ne_zero, ← cast_binade]
  split
  · rename_i hguess
    rw [← zpow_toNat hguess, ← Nat.cast_mul, ← Nat.cast_mul, Nat.cast_le, mul_comm _ den, mul_assoc]
  · rename_i hguess
    rw [← neg_neg guess, zpow_neg, ← zpow_toNat (by omega : 0 ≤ -guess), inv_mul_eq_div,
      div_mul_eq_mul_div, div_le_iff₀ (by exact_mod_cast Nat.two_pow_pos _), ← Nat.cast_mul,
      ← Nat.cast_mul, Nat.cast_le, mul_comm w.binade, neg_neg]

/-- The last place of a quotient follows from its logarithm. -/
theorem lastPlace_eq (hnum : 0 < num) (hden : 0 < den) :
    lastPlace w num den =
      max w.minExponent (Int.log 2 ((num : ℚ) / den) - ((w.precision : Int) - 1)) := by
  have hfits := fits_iff (w := w) hnum hden
    ((num.log2 : Int) - (den.log2 : Int) - ((w.precision : Int) - 1))
  have hlog := log_quotient hnum hden
  simp only [lastPlace, hfits]
  congr 1
  split <;> omega

/-- Measured in its last place, a quotient has no more bits than a significand, and as many unless
the last place is the least one. -/
theorem lastPlace_bounds (hnum : 0 < num) (hden : 0 < den) :
    (num : ℚ) / den < 2 * w.binade * 2 ^ lastPlace w num den ∧
      (w.binade * 2 ^ lastPlace w num den ≤ (num : ℚ) / den ∨
        lastPlace w num den = w.minExponent) := by
  have hpos : (0 : ℚ) < (num : ℚ) / den := by positivity
  have hplace := lastPlace_eq (w := w) hnum hden
  have htwo : (2 : ℚ) * w.binade = 2 ^ (w.precision : Int) := by
    rw [cast_binade, mul_comm, ← zpow_add_one₀ two_ne_zero, sub_add_cancel]
  constructor
  · rw [htwo, ← zpow_add₀ two_ne_zero]
    have hlog := (Int.lt_zpow_iff_log_lt (b := 2) (by norm_num) hpos
      (x := (w.precision : Int) + lastPlace w num den)).2 (by omega)
    exact_mod_cast hlog
  · by_cases hleast : lastPlace w num den = w.minExponent
    · exact .inr hleast
    · left
      rw [cast_binade, ← zpow_add₀ two_ne_zero]
      have hlog := (Int.zpow_le_iff_le_log (b := 2) (by norm_num) hpos
        (x := (w.precision : Int) - 1 + lastPlace w num den)).2 (by omega)
      exact_mod_cast hlog

/-! ## Nearest ranks -/

/-- No rank has a value that is nearer to a number. -/
def IsNearest (w : Width) (q : ℚ) (rank : Nat) : Prop :=
  ∀ other, |q - value w rank| ≤ |q - value w other|

namespace IsNearest

variable {q : ℚ} {other : Nat}

theorem eq_of_value (h : IsNearest w q rank) (hq : q = value w other) : rank = other := by
  have hzero := h other
  rw [hq, sub_self, abs_zero, abs_nonpos_iff, sub_eq_zero] at hzero
  exact value_inj.1 hzero.symm

theorem lt_value (h : IsNearest w q rank) (hlt : rank < other) : q < value w other := by
  by_contra hle
  have hvalue := value_strictMono w hlt
  have hnear := h other
  rw [abs_of_nonneg (by linarith), abs_of_nonneg (by linarith)] at hnear
  linarith

theorem le_of_le_value (h : IsNearest w q rank) (hq : q ≤ value w other) : rank ≤ other := by
  by_contra hlt
  have hvalue := value_strictMono w (not_le.1 hlt)
  have hnear := h other
  rw [abs_of_nonpos (by linarith), abs_of_nonpos (by linarith)] at hnear
  linarith

/-- Two ranks are equally near only to the middle between neighbours. -/
theorem eq_middle (h : IsNearest w q rank) (h' : IsNearest w q other) (hlt : rank < other) :
    other = rank + 1 ∧ q = (value w rank + value w other) / 2 := by
  have hvalue := value_strictMono w hlt
  have hmiddle : q = (value w rank + value w other) / 2 := by
    rcases abs_eq_abs.1 (le_antisymm (h other) (h' rank)) with heq | heq <;> linarith
  refine ⟨?_, hmiddle⟩
  -- A rank between the two would be nearer than both.
  by_contra hne
  have hbelow := value_strictMono w (show rank < rank + 1 by omega)
  have habove := value_strictMono w (show rank + 1 < other by omega)
  have hnear := h (rank + 1)
  rw [abs_of_nonneg (a := q - value w rank) (by linarith), le_abs] at hnear
  rcases hnear with hnear | hnear <;> linarith

end IsNearest

theorem divNearest_near (num : Nat) (hden : 0 < den) :
    |(num : ℚ) / den - divNearest num den| ≤ 1 / 2 := by
  have hdpos : (0 : ℚ) < den := by exact_mod_cast hden
  have hquotient : (num : ℚ) / den = (num / den : Nat) + (num % den : Nat) / den := by
    rw [eq_comm, eq_div_iff hdpos.ne', add_mul, div_mul_cancel₀ _ hdpos.ne', mul_comm]
    exact_mod_cast Nat.div_add_mod num den
  have hhalf (r : Nat) : (r : ℚ) / den ≤ 1 / 2 ↔ 2 * r ≤ den := by
    rw [div_le_div_iff₀ hdpos two_pos, one_mul, mul_comm]
    norm_cast
  have hhalf' (r : Nat) : 1 / 2 ≤ (r : ℚ) / den ↔ den ≤ 2 * r := by
    rw [div_le_div_iff₀ two_pos hdpos, one_mul, mul_comm]
    norm_cast
  have hrest : ((num % den : Nat) : ℚ) / den < 1 := by
    rw [div_lt_one hdpos]
    exact_mod_cast Nat.mod_lt num hden
  have hrest' : 0 ≤ ((num % den : Nat) : ℚ) / den := by positivity
  have hbelow := hhalf (num % den)
  have habove := hhalf' (num % den)
  rw [hquotient, divNearest, abs_le]
  generalize ((num % den : Nat) : ℚ) / den = rest at *
  split_ifs with hless hmore
  · have hrest := hbelow.2 hless.le
    constructor <;> linarith
  · have hrest := habove.2 hmore.le
    push_cast
    constructor <;> linarith
  · have hrest := hbelow.2 (not_lt.1 hmore)
    have hrest' := habove.2 (not_lt.1 hless)
    rcases Nat.mod_two_eq_zero_or_one (num / den) with h | h <;>
    · rw [h]
      push_cast
      constructor <;> linarith

/-- The rounded quotient in the definition of the nearest rank is as near as a half of the last
place allows. -/
theorem divNearest_lastPlace_near (num : Nat) (hden : 0 < den) (e : Int) :
    |(num : ℚ) / den - (if 0 ≤ e then divNearest num (den * Nat.pow 2 e.toNat)
      else divNearest (num * Nat.pow 2 (-e).toNat) den : Nat) * 2 ^ e| ≤ 2 ^ e / 2 := by
  have hunit := two_zpow_pos e
  have hscale {q m : ℚ} (h : |q - m| ≤ 1 / 2) : |q * 2 ^ e - m * 2 ^ e| ≤ 2 ^ e / 2 := by
    rw [← sub_mul, abs_mul, abs_of_pos hunit]
    linarith [mul_le_mul_of_nonneg_right h hunit.le]
  split
  · rename_i he
    have hscaled : 0 < den * Nat.pow 2 e.toNat := Nat.mul_pos hden (Nat.two_pow_pos _)
    have hnear := hscale (divNearest_near num hscaled)
    have hquotient :
        (num : ℚ) / (den * Nat.pow 2 e.toNat : Nat) * 2 ^ e = (num : ℚ) / den := by
      rw [Nat.cast_mul, zpow_toNat he, ← div_div, div_mul_cancel₀ _ hunit.ne']
    rwa [hquotient] at hnear
  · rename_i he
    have hnear := hscale (divNearest_near (num * Nat.pow 2 (-e).toNat) hden)
    have hquotient :
        ((num * Nat.pow 2 (-e).toNat : Nat) : ℚ) / den * 2 ^ e = (num : ℚ) / den := by
      rw [Nat.cast_mul, zpow_toNat (by omega), zpow_neg, mul_div_right_comm, mul_assoc,
        inv_mul_cancel₀ hunit.ne', mul_one]
    rwa [hquotient] at hnear

section Parts

variable {m : Nat} {e : Int} (hhigh : m ≤ 2 * w.binade) (he : w.minExponent ≤ e)
  (hlow : w.binade ≤ m ∨ e = w.minExponent)

include hhigh he hlow

/-- The ranks below a rank that is put together are a whole last place away, unless its significand
is the least one of its exponent. -/
theorem value_le_of_lt_parts {other : Nat}
    (h : other < (e - w.minExponent).toNat * w.binade + m) :
    value w other ≤ (m - 1) * 2 ^ e ∨
      m = w.binade ∧ e ≠ w.minExponent ∧ value w other ≤ m * 2 ^ e := by
  by_cases hsame : 0 < m ∧ (w.binade ≤ m - 1 ∨ e = w.minExponent)
  · left
    have hle := (value_strictMono w).monotone
      (show other ≤ (e - w.minExponent).toNat * w.binade + (m - 1) by omega)
    rwa [value_of_parts (by omega) he hsame.2, Nat.cast_sub hsame.1, Nat.cast_one] at hle
  · right
    have hne : e ≠ w.minExponent := by
      rintro rfl
      simp only [sub_self, Int.toNat_zero] at h
      omega
    exact ⟨by omega, hne, value_of_parts hhigh he hlow ▸ (value_strictMono w h).le⟩

/-- The ranks above it are a whole last place away, unless it is the first one of the next
exponent. -/
theorem le_value_of_parts_lt {other : Nat}
    (h : (e - w.minExponent).toNat * w.binade + m < other) :
    (m + 1) * 2 ^ e ≤ value w other ∨ m = 2 * w.binade ∧ m * 2 ^ e ≤ value w other := by
  by_cases hsame : m + 1 ≤ 2 * w.binade
  · left
    have hle := (value_strictMono w).monotone
      (show (e - w.minExponent).toNat * w.binade + (m + 1) ≤ other from h)
    rwa [value_of_parts hsame he (hlow.imp_left (by omega)), Nat.cast_add, Nat.cast_one] at hle
  · right
    exact ⟨by omega, value_of_parts hhigh he hlow ▸ (value_strictMono w h).le⟩

/-- No rank is nearer to a number than one that is at most half a last place away. -/
theorem isNearest_of_parts {q : ℚ} (hnear : |q - m * 2 ^ e| ≤ 2 ^ e / 2)
    (hleast : w.binade * 2 ^ e ≤ q ∨ e = w.minExponent) (hmost : q ≤ 2 * w.binade * 2 ^ e) :
    IsNearest w q ((e - w.minExponent).toNat * w.binade + m) := by
  intro other
  obtain ⟨hbelow, habove⟩ := abs_le.1 hnear
  rw [value_of_parts hhigh he hlow]
  rcases lt_trichotomy other ((e - w.minExponent).toNat * w.binade + m) with hlt | rfl | hgt
  · rcases value_le_of_lt_parts hhigh he hlow hlt with hfar | ⟨rfl, hne, hle⟩
    · exact hnear.trans (le_abs.2 (.inl (by linarith)))
    · rw [abs_of_nonneg (sub_nonneg.2 (hleast.resolve_right hne))]
      exact le_abs.2 (.inl (by linarith))
  · rw [value_of_parts hhigh he hlow]
  · rcases le_value_of_parts_lt hhigh he hlow hgt with hfar | ⟨rfl, hle⟩
    · exact hnear.trans (le_abs.2 (.inr (by linarith)))
    · push_cast at hle ⊢
      rw [abs_of_nonpos (sub_nonpos.2 hmost)]
      exact le_abs.2 (.inr (by linarith))

end Parts

/-- The nearest rank, if it is finite, is as near to the quotient as any other rank; otherwise the
nearest rank on the ladder without an end is the rank of infinity or one above it. -/
theorem exists_nearest (w : Width) (hnum : 0 < num) (hden : 0 < den) :
    ∃ n, nearestRank w num den = min w.infinityRank n ∧ IsNearest w ((num : ℚ) / den) n := by
  obtain ⟨hmost, hleast⟩ := lastPlace_bounds (w := w) hnum hden
  have hnear := divNearest_lastPlace_near num hden (lastPlace w num den)
  have he : w.minExponent ≤ lastPlace w num den := by
    rw [lastPlace_eq hnum hden]
    exact le_max_left _ _
  simp only [nearestRank]
  generalize lastPlace w num den = e at *
  generalize (if 0 ≤ e then divNearest num (den * Nat.pow 2 e.toNat)
      else divNearest (num * Nat.pow 2 (-e).toNat) den) = m at *
  obtain ⟨hbelow, habove⟩ := abs_le.1 hnear
  have hunit := two_zpow_pos e
  -- Places are counted in units of the last one.
  have hcount {a b : Nat} (h : (a : ℚ) * 2 ^ e < b * 2 ^ e + 2 ^ e) : a ≤ b := by
    rw [← add_one_mul, mul_lt_mul_iff_left₀ hunit] at h
    exact Nat.lt_succ_iff.1 (by exact_mod_cast h)
  have hhigh : m ≤ 2 * w.binade := hcount (by push_cast; linarith)
  have hlow : w.binade ≤ m ∨ e = w.minExponent :=
    hleast.imp_left fun hleast => hcount (by linarith)
  exact ⟨_, rfl, isNearest_of_parts hhigh he hlow hnear hleast hmost.le⟩

/-- A nearest rank that is finite is the nearest one of the ladder. -/
theorem isNearest_nearestRank (hnum : 0 < num) (hden : 0 < den)
    (hfinite : nearestRank w num den < w.infinityRank) :
    IsNearest w ((num : ℚ) / den) (nearestRank w num den) := by
  obtain ⟨n, hmin, hnear⟩ := exists_nearest w hnum hden
  have hn : nearestRank w num den = n := by omega
  rwa [hn]

/-- A quotient that is the value of a finite rank is rounded to the rank. -/
theorem nearestRank_eq (hrank : 0 < rank) (hfinite : rank < w.infinityRank) (hden : 0 < den)
    (h : (num : ℚ) / den = value w rank) : nearestRank w num den = rank := by
  have hnum : 0 < num := by
    refine Nat.pos_of_ne_zero fun hzero => (value_pos (w := w) hrank).ne ?_
    rw [← h, hzero, Nat.cast_zero, zero_div]
  obtain ⟨n, hmin, hnear⟩ := exists_nearest w hnum hden
  rw [hmin, hnear.eq_of_value h, Nat.min_eq_right hfinite.le]

end SearchTable.Number
