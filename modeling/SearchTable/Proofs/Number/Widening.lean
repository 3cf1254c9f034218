import SearchTable.Proofs.Number.Rounding
/-!
# Widening a number and narrowing it again

Every value of the single format is a value of the double format, and so are the middles between
neighbours (`exists_value_double`, `exists_value_middle`).  Three things follow.  A single-precision
number that is stored with double precision comes back as it was (`Binary.convert_convert`).
Widened numbers are the same exactly when the numbers are (`Binary.same_convert`).  And a quotient
whose nearest double is a single-precision number has that number as its nearest single, too
(`IsNearest.single_of_double`), since only the middle between two singles could be rounded twice
with another outcome than once, and it is a double itself.
-/

namespace SearchTable.Number

variable {w : Width} {rank num den : Nat}

/-! ## Values of both formats -/

theorem value_single_infinityRank_lt :
    value .single Width.single.infinityRank < value .double Width.double.infinityRank := by
  have hbinade : (Width.single.binade : ℚ) < Width.double.binade := by
    exact_mod_cast (by decide : Width.single.binade < Width.double.binade)
  rw [value_infinityRank, value_infinityRank]
  exact mul_lt_mul'' hbinade (zpow_lt_zpow_right₀ one_lt_two (by decide)) (Nat.cast_nonneg _)
    (two_zpow_pos _).le

/-- Every value of the single format is a value of the double format. -/
theorem exists_value_double (rank : Nat) : ∃ wide, value .double wide = value .single rank := by
  have hhigh := (significand_bounds .single rank).1
  have hleast := minExponent_le_exponent .single rank
  have hbinade : Width.single.binade ≤ Width.double.binade := by decide
  have hexponent : Width.double.minExponent ≤ Width.single.minExponent := by decide
  exact exists_value_eq (by omega) (by omega)

/-- A rank of the double format with a value that a finite single has is finite. -/
theorem lt_infinityRank_double {wide : Nat} (hfinite : rank ≤ Width.single.infinityRank)
    (hvalue : value .double wide = value .single rank) : wide < Width.double.infinityRank := by
  refine (value_strictMono .double).lt_iff_lt.1 ?_
  rw [hvalue]
  exact ((value_strictMono .single).monotone hfinite).trans_lt value_single_infinityRank_lt

/-- The middle between neighbours of the single format is a value of the double format. -/
theorem exists_value_middle (rank : Nat) :
    ∃ wide, value .double wide = (value .single rank + value .single (rank + 1)) / 2 := by
  have hhigh := (significand_bounds .single rank).1
  have hleast := minExponent_le_exponent .single rank
  have hbinade : 2 * Width.single.binade ≤ Width.double.binade := by decide
  have hexponent : Width.double.minExponent < Width.single.minExponent := by decide
  obtain ⟨wide, hwide⟩ := exists_value_eq (w := .double) (m := 2 * significand .single rank + 1)
    (e := exponent .single rank - 1) (by omega) (by omega)
  refine ⟨wide, hwide.trans ?_⟩
  rw [value_succ, value, zpow_sub_one₀ two_ne_zero]
  push_cast
  ring

namespace IsNearest

variable {q : ℚ} {wide : Nat}

/-- If the nearest double is a value of the single format, it is the nearest single. -/
theorem single_of_double (hsingle : IsNearest .single q rank) (hdouble : IsNearest .double q wide)
    {rank' : Nat} (hvalue : value .double wide = value .single rank') : rank = rank' := by
  have hsingle' : IsNearest .single q rank' := fun other => by
    obtain ⟨other', hother⟩ := exists_value_double other
    rw [← hvalue, ← hother]
    exact hdouble other'
  -- Otherwise the quotient is a middle, which is a double and thus nearer than any other one.
  have hmiddle (low : Nat) (hq : q = (value .single low + value .single (low + 1)) / 2) :
      q = value .single rank' := by
    obtain ⟨middle, heq⟩ := exists_value_middle low
    rw [← hvalue, hdouble.eq_of_value (hq.trans heq.symm), heq, hq]
  rcases lt_trichotomy rank rank' with hlt | heq | hgt
  · obtain ⟨rfl, hq⟩ := hsingle.eq_middle hsingle' hlt
    have := hmiddle _ hq
    have := value_strictMono .single hlt
    linarith
  · exact heq
  · obtain ⟨rfl, hq⟩ := hsingle'.eq_middle hsingle hgt
    have := hmiddle _ hq
    have := value_strictMono .single hgt
    linarith

/-- A number that is finite when it is rounded to a single is finite when it is rounded to a
double. -/
theorem lt_infinityRank (hsingle : IsNearest .single q rank) (hdouble : IsNearest .double q wide)
    (hfinite : rank < Width.single.infinityRank) : wide < Width.double.infinityRank := by
  obtain ⟨bound, hbound⟩ := exists_value_double Width.single.infinityRank
  have hle : wide ≤ bound := hdouble.le_of_le_value (hbound ▸ (hsingle.lt_value hfinite).le)
  exact hle.trans_lt (lt_infinityRank_double le_rfl hbound)

end IsNearest

section Quotients

variable (hnum : 0 < num) (hden : 0 < den)
  (hfinite : nearestRank .single num den < Width.single.infinityRank)

include hnum hden hfinite

theorem nearestRank_double_lt : nearestRank .double num den < Width.double.infinityRank := by
  obtain ⟨wide, hmin, hnear⟩ := exists_nearest .double hnum hden
  have hlt := (isNearest_nearestRank hnum hden hfinite).lt_infinityRank hnear hfinite
  rwa [hmin, Nat.min_eq_right hlt.le]

/-- If a quotient is rounded to a double that is a single, it is rounded to that single. -/
theorem nearestRank_single_eq
    (hvalue : value .double (nearestRank .double num den) = value .single rank) :
    nearestRank .single num den = rank :=
  (isNearest_nearestRank hnum hden hfinite).single_of_double
    (isNearest_nearestRank hnum hden (nearestRank_double_lt hnum hden hfinite)) hvalue

end Quotients

/-! ## Conversions -/

namespace Binary

theorem ofRank_eq (negative : Bool) (rank : Fin (w.infinityRank + 1)) :
    ofRank negative rank.val = number negative rank := by
  simp [ofRank, Nat.min_eq_right (Nat.le_of_lt_succ rank.isLt)]

/-- A finite number becomes the number of another format that has the same value. -/
theorem convert_eq {v : Width} {negative : Bool} {rank : Fin (w.infinityRank + 1)}
    {rank' : Fin (v.infinityRank + 1)} (hfinite : rank.val < w.infinityRank)
    (hfinite' : rank'.val < v.infinityRank) (hvalue : value v rank'.val = value w rank.val) :
    (number negative rank).convert v = number negative rank' := by
  have hden := den_quotient_pos w rank.val
  have hquotient := (quotient_eq w rank.val).trans hvalue.symm
  simp only [convert, if_neg hfinite.ne, ofQuotient]
  rcases Nat.eq_zero_or_pos rank'.val with hzero | hrank
  · have hnum : (quotient w rank.val).1 = 0 := by
      rw [hzero, value_zero, div_eq_zero_iff] at hquotient
      exact_mod_cast hquotient.resolve_right (by exact_mod_cast hden.ne')
    rw [if_pos hnum, ← hzero, ofRank_eq]
  · have hnum : (quotient w rank.val).1 ≠ 0 := by
      intro hzero
      rw [hzero, Nat.cast_zero, zero_div] at hquotient
      exact (value_pos hrank).ne hquotient
    rw [if_neg hnum, nearestRank_eq hrank hfinite' hden hquotient, ofRank_eq]

theorem convert_last (v : Width) (negative : Bool) :
    (number negative (Fin.last _) : Binary w).convert v = number negative (Fin.last _) := by
  simp only [convert, Fin.val_last, if_true, infinity]
  exact ofRank_eq negative (Fin.last _)

/-- Widening keeps the sign and, of a finite number, the value. -/
theorem exists_convert_double (rank : Fin (Width.single.infinityRank + 1)) :
    ∃ wide : Fin (Width.double.infinityRank + 1),
      (∀ negative, (number negative rank).convert .double = number negative wide) ∧
      (rank = Fin.last _ ∧ wide = Fin.last _ ∨
        rank.val < Width.single.infinityRank ∧ wide.val < Width.double.infinityRank ∧
          value .double wide.val = value .single rank.val) := by
  rcases (Fin.le_last rank).eq_or_lt with rfl | hfinite
  · exact ⟨Fin.last _, convert_last .double, .inl ⟨rfl, rfl⟩⟩
  · obtain ⟨wide, hvalue⟩ := exists_value_double rank.val
    have hfinite : rank.val < Width.single.infinityRank := hfinite
    have hwide := lt_infinityRank_double hfinite.le hvalue
    exact ⟨⟨wide, Nat.lt_succ_of_lt hwide⟩, fun _ => convert_eq hfinite hwide hvalue,
      .inr ⟨hfinite, hwide, hvalue⟩⟩

/-- A single-precision number that is widened and narrowed again is itself. -/
theorem convert_convert (x : Binary .single) : (x.convert .double).convert .single = x := by
  cases x with
  | nan => rfl
  | number negative rank =>
    obtain ⟨wide, hwiden, ⟨rfl, rfl⟩ | ⟨hfinite, hwide, hvalue⟩⟩ := exists_convert_double rank
    · rw [hwiden, convert_last]
    · rw [hwiden]
      exact convert_eq hwide hfinite hvalue.symm

/-! ## Equal numbers -/

/-- Two numbers compare as equal: they are the same, or both are zeros. -/
def Same (x y : Binary w) : Prop := x.compare? y = some .eq

instance (x y : Binary w) : Decidable (x.Same y) := inferInstanceAs (Decidable (_ = _))

variable {negative negative' : Bool} {rank rank' : Fin (w.infinityRank + 1)}

theorem same_number :
    (number negative rank).Same (number negative' rank') ↔
      rank = rank' ∧ (negative = negative' ∨ rank.val = 0) := by
  rw [Same, compare?, Option.some.injEq, compare_eq_iff_eq, Fin.ext_iff]
  cases negative <;> cases negative' <;> simp [place] <;> omega

theorem same_self {x : Binary w} (hnan : x ≠ nan) : x.Same x := by
  cases x with
  | nan => exact absurd rfl hnan
  | number negative rank => exact same_number.2 ⟨rfl, .inl rfl⟩

/-- Widened numbers compare as equal exactly when the numbers do. -/
theorem same_convert (x y : Binary .single) :
    (x.convert .double).Same (y.convert .double) ↔ x.Same y := by
  cases x with
  | nan => rfl
  | number s a =>
    obtain ⟨a', ha, hvalue⟩ := exists_convert_double a
    cases y with
    | nan => rw [ha]; rfl
    | number t b =>
      obtain ⟨b', hb, hvalue'⟩ := exists_convert_double b
      have hranks : a' = b' ↔ a = b := by
        rcases hvalue with ⟨rfl, rfl⟩ | ⟨ha, ha', hvalue⟩ <;>
          rcases hvalue' with ⟨rfl, rfl⟩ | ⟨hb, hb', hvalue'⟩
        · simp
        · simp only [Fin.ext_iff, Fin.val_last]
          omega
        · simp only [Fin.ext_iff, Fin.val_last]
          omega
        · rw [Fin.ext_iff, Fin.ext_iff, ← value_inj, hvalue, hvalue', value_inj]
      have hzero : a'.val = 0 ↔ a.val = 0 := by
        rcases hvalue with ⟨rfl, rfl⟩ | ⟨ha, ha', hvalue⟩
        · decide
        · rw [← value_eq_zero_iff, hvalue, value_eq_zero_iff]
      rw [ha, hb, same_number, same_number, hranks, hzero]

theorem ofInt_ne_nan (n : Int) : (ofInt n : Binary w) ≠ nan := by
  simp [ofInt, ofQuotient, ofRank]

/-- An integer with no more bits than a significand has a number of its value. -/
theorem exists_ofInt_eq {n : Int} (hn : n.natAbs ≤ 2 * w.binade) :
    ∃ rank, (ofInt n : Binary w) = number (n < 0) rank ∧ value w rank.val = n.natAbs := by
  have hleast : w.minExponent ≤ 0 := by cases w <;> decide
  obtain ⟨rank, hvalue⟩ := exists_value_eq hn hleast
  rw [zpow_zero, mul_one] at hvalue
  have hfinite : rank < w.infinityRank := by
    refine (value_strictMono w).lt_iff_lt.1 ?_
    have htop : (2 : ℚ) < 2 ^ (w.minExponent + (2 ^ w.exponentBits - 2)) := by
      refine (zpow_one (2 : ℚ)).symm.trans_lt (zpow_lt_zpow_right₀ one_lt_two ?_)
      cases w <;> decide
    calc value w rank ≤ 2 * w.binade := by
          rw [hvalue]
          exact_mod_cast hn
      _ < 2 ^ (w.minExponent + (2 ^ w.exponentBits - 2)) * w.binade :=
          mul_lt_mul_of_pos_right htop (by exact_mod_cast binade_pos w)
      _ = value w w.infinityRank := by rw [value_infinityRank, mul_comm]
  refine ⟨⟨rank, Nat.lt_succ_of_lt hfinite⟩, ?_, hvalue⟩
  have hrank : (if n.natAbs = 0 then 0 else nearestRank w n.natAbs 1) = rank := by
    split
    · rename_i hzero
      rw [hzero, Nat.cast_zero, value_eq_zero_iff] at hvalue
      exact hvalue.symm
    · rename_i hzero
      have hpos : 0 < rank := by
        rw [Nat.pos_iff_ne_zero, Ne, ← value_eq_zero_iff (w := w), hvalue]
        exact_mod_cast hzero
      exact nearestRank_eq hpos hfinite Nat.one_pos (by rw [hvalue, Nat.cast_one, div_one])
  rw [ofInt, ofQuotient, hrank]
  exact ofRank_eq _ ⟨rank, Nat.lt_succ_of_lt hfinite⟩

/-- Integers with no more bits than a significand are the same as numbers exactly when they are
equal. -/
theorem same_ofInt {m n : Int} (hm : m.natAbs ≤ 2 * w.binade) (hn : n.natAbs ≤ 2 * w.binade) :
    (ofInt m : Binary w).Same (ofInt n) ↔ m = n := by
  obtain ⟨rank, hrank, hvalue⟩ := exists_ofInt_eq hm
  obtain ⟨rank', hrank', hvalue'⟩ := exists_ofInt_eq hn
  rw [hrank, hrank', same_number]
  constructor
  · rintro ⟨rfl, hsign⟩
    have habs : m.natAbs = n.natAbs := by exact_mod_cast hvalue.symm.trans hvalue'
    rcases hsign with hsign | hzero
    · rw [decide_eq_decide] at hsign
      omega
    · rw [hzero, value_zero] at hvalue
      have hzero : m.natAbs = 0 := by exact_mod_cast hvalue.symm
      omega
  · rintro rfl
    exact ⟨Fin.ext (value_inj.1 (hvalue.trans hvalue'.symm)), .inl rfl⟩

end Binary

end SearchTable.Number
