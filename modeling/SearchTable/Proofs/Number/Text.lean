import SearchTable.Number.Decimal
import SearchTable.Proofs.Number.Widening
/-!
# Texts of numbers that are read back

A decimal in positional notation is read as a decimal of the same value (`readDecimal_positional`),
the shortest digits of a rank are rounded to that rank by construction (`toRank_shortest`), and so
the text of a number is read back as the number in its own format (`readBinary_text`).  The text of
an integer is read as the number nearest to it (`readBinary_integerText`).

The text of a single may be read as a double, too.  The digits are the shortest ones for the
narrower format, so the double need not be the single widened; but if it is any widened single, then
it is this one (`Binary.exists_readBinary_text_double`).
-/

namespace SearchTable.Number

variable {w v : Width}

/-! ## Digits -/

theorem foldDigits_eq (start : Nat) (cs : List Char) :
    foldDigits start cs = Nat.ofDigitChars 10 cs start := rfl

theorem foldDigits_digits (n : Nat) : foldDigits 0 (digits n) = n := Nat.ofDigitChars_ten_toDigits

theorem foldDigits_append (start : Nat) (cs ds : List Char) :
    foldDigits start (cs ++ ds) = foldDigits (foldDigits start cs) ds :=
  Nat.ofDigitChars_append start

theorem foldDigits_zeros (start k : Nat) :
    foldDigits start (List.replicate k '0') = start * 10 ^ k := by
  rw [foldDigits_eq, Nat.ofDigitChars_replicate_zero, Nat.mul_comm]

theorem isDigit_of_mem_digits {n : Nat} {c : Char} (h : c ∈ digits n) : c.isDigit = true :=
  Nat.isDigit_of_mem_toDigits (by decide) (by decide) h

theorem isDigit_of_mem_zeros {k : Nat} {c : Char} (h : c ∈ List.replicate k '0') :
    c.isDigit = true := by
  rw [(List.mem_replicate.1 h).2]
  rfl

/-- Digits alone are a decimal without a fraction. -/
theorem readDecimal_digits {cs : List Char} (hcs : ∀ c ∈ cs, c.isDigit = true) (hne : cs ≠ []) :
    readDecimal cs = some ⟨foldDigits 0 cs, 0⟩ := by
  have htake : cs.takeWhile Char.isDigit = cs := List.takeWhile_eq_self_iff.2 hcs
  have hdrop : cs.dropWhile Char.isDigit = [] := List.dropWhile_eq_nil_iff.2 hcs
  simp [readDecimal, htake, hdrop, hne, foldDigits]

/-- The digits behind a point count for the coefficient and lower the scale. -/
theorem readDecimal_point {cs ds : List Char} (hcs : ∀ c ∈ cs, c.isDigit = true) (hne : cs ≠ [])
    (hds : ∀ c ∈ ds, c.isDigit = true) :
    readDecimal (cs ++ '.' :: ds) = some ⟨foldDigits 0 (cs ++ ds), -(ds.length : Int)⟩ := by
  have hpoint : ('.' : Char).isDigit = false := rfl
  have htake : (cs ++ '.' :: ds).takeWhile Char.isDigit = cs := by
    simp [List.takeWhile_append_of_pos hcs, hpoint]
  have hdrop : (cs ++ '.' :: ds).dropWhile Char.isDigit = '.' :: ds := by
    simp [List.dropWhile_append_of_pos hcs, hpoint]
  have htake' : ds.takeWhile Char.isDigit = ds := List.takeWhile_eq_self_iff.2 hds
  have hdrop' : ds.dropWhile Char.isDigit = [] := List.dropWhile_eq_nil_iff.2 hds
  simp [readDecimal, htake, hdrop, htake', hdrop', hne, foldDigits_append]

/-! ## Ranks of decimals -/

namespace Decimal

variable {d : Decimal}

/-- A decimal as a quotient of naturals: numerator and denominator. -/
def quotient (d : Decimal) : Nat × Nat :=
  if 0 ≤ d.scale then (d.coefficient * Nat.pow 10 d.scale.toNat, 1)
  else (d.coefficient, Nat.pow 10 (-d.scale).toNat)

/-- The value of a decimal. -/
def toRat (d : Decimal) : ℚ := d.coefficient * 10 ^ d.scale

theorem quotient_eq (d : Decimal) : (d.quotient.1 : ℚ) / d.quotient.2 = d.toRat := by
  rw [quotient, toRat]
  split
  · rename_i hscale
    obtain ⟨k, hk⟩ := Int.eq_ofNat_of_zero_le hscale
    simp [hk]
  · rename_i hscale
    obtain ⟨k, hk⟩ := Int.eq_ofNat_of_zero_le (neg_nonneg.2 (not_le.1 hscale).le)
    have hneg : d.scale = -(k : Int) := by omega
    simp [hneg, div_eq_mul_inv]

/-- A decimal other than zero with a scale for which its rank is computed. -/
def InRange (d : Decimal) : Prop :=
  0 < d.coefficient ∧ d.scale ≤ scaleLimit ∧
    -((scaleLimit + d.coefficient.log2 : Nat) : Int) ≤ d.scale

theorem quotient_pos (h : 0 < d.coefficient) : 0 < d.quotient.1 ∧ 0 < d.quotient.2 := by
  rw [quotient]
  split
  · exact ⟨Nat.mul_pos h (Nat.pow_pos (by decide)), Nat.one_pos⟩
  · exact ⟨h, Nat.pow_pos (by decide)⟩

theorem toRank_eq (h : d.InRange) : d.toRank w = nearestRank w d.quotient.1 d.quotient.2 := by
  obtain ⟨hzero, hhigh, hlow⟩ := h
  rw [toRank, if_neg hzero.ne', if_neg (not_lt.2 hhigh), if_neg (not_lt.2 hlow), quotient]
  split <;> rfl

theorem toRank_of_toRat {rank : Nat} (hrange : d.InRange) (hrank : 0 < rank)
    (hfinite : rank < w.infinityRank) (h : d.toRat = value w rank) : d.toRank w = rank := by
  rw [toRank_eq hrange]
  exact nearestRank_eq hrank hfinite (quotient_pos hrange.1).2 ((quotient_eq d).trans h)

theorem inRange_of_toRank (hrank : 0 < d.toRank w) (hfinite : d.toRank w < w.infinityRank) :
    d.InRange := by
  rw [toRank] at hrank hfinite
  split_ifs at hrank hfinite with hzero hhigh hlow
  · exact absurd hrank (lt_irrefl 0)
  · exact absurd hfinite (lt_irrefl _)
  · exact absurd hrank (lt_irrefl 0)
  all_goals exact ⟨Nat.pos_of_ne_zero hzero, not_lt.1 hhigh, not_lt.1 hlow⟩

theorem toRank_zero (scale : Int) : toRank w ⟨0, scale⟩ = 0 := if_pos rfl

/-! ## Positional notation -/

/-- The decimal that positional notation shows: a positive scale is written out as zeros. -/
def written (d : Decimal) : Decimal :=
  if 0 ≤ d.scale then ⟨d.coefficient * 10 ^ d.scale.toNat, 0⟩ else d

/-- With a negative scale there is a point, with at least one digit in front of it and as many
behind it as the scale asks for. -/
theorem exists_positional_eq_point (d : Decimal) (hscale : d.scale < 0) :
    ∃ whole fraction, d.positional = whole ++ '.' :: fraction ∧ whole ≠ [] ∧
      (∀ c ∈ whole, c.isDigit = true) ∧ (∀ c ∈ fraction, c.isDigit = true) ∧
      foldDigits 0 (whole ++ fraction) = d.coefficient ∧ -(fraction.length : Int) = d.scale := by
  have hdigits : ∀ c ∈ digits d.coefficient, c.isDigit = true := fun _ => isDigit_of_mem_digits
  have hvalue := foldDigits_digits d.coefficient
  have hne : digits d.coefficient ≠ [] := Nat.toDigits_ne_nil
  simp only [positional, if_neg (not_le.2 hscale)]
  generalize digits d.coefficient = ds at *
  obtain ⟨places, hplaces⟩ := Int.eq_ofNat_of_zero_le (neg_nonneg.2 hscale.le)
  rw [hplaces, Int.toNat_natCast]
  split
  · rename_i hlt
    refine ⟨_, _, rfl, ?_, fun c hc => hdigits c (List.mem_of_mem_take hc),
      fun c hc => hdigits c (List.mem_of_mem_drop hc), ?_, ?_⟩
    · rw [Ne, List.take_eq_nil_iff]
      simp only [hne, or_false]
      omega
    · rw [List.take_append_drop, hvalue]
    · rw [List.length_drop]
      omega
  · rename_i hle
    refine ⟨['0'], List.replicate (places - ds.length) '0' ++ ds, by simp, by simp, by simp,
      List.forall_mem_append.2 ⟨fun _ => isDigit_of_mem_zeros, hdigits⟩, ?_, ?_⟩
    · rw [foldDigits_append, foldDigits_append, foldDigits_zeros]
      simpa [foldDigits, digitValue] using hvalue
    · rw [List.length_append, List.length_replicate]
      omega

/-- With another scale there are digits only. -/
theorem positional_of_nonneg {d : Decimal} (hscale : 0 ≤ d.scale) :
    d.positional = digits d.coefficient ++ List.replicate d.scale.toNat '0' := if_pos hscale

/-- Zeros that are written out do not change the rank. -/
theorem toRank_written (h : d.coefficient = 0 ∨ d.scale ≤ scaleLimit) :
    d.written.toRank w = d.toRank w := by
  rw [written]
  split
  · rename_i hscale
    rcases Nat.eq_zero_or_pos d.coefficient with hzero | hpos
    · simp [toRank, hzero]
    · have hhigh : d.scale ≤ scaleLimit := h.resolve_left hpos.ne'
      have hrange : d.InRange := ⟨hpos, hhigh, by omega⟩
      have hrange' : InRange ⟨d.coefficient * 10 ^ d.scale.toNat, 0⟩ :=
        ⟨Nat.mul_pos hpos (Nat.pow_pos (by decide)), by simp, by simp only; omega⟩
      rw [toRank_eq hrange, toRank_eq hrange']
      simp [quotient, hscale]
  · rfl

theorem readDecimal_positional (d : Decimal) : readDecimal d.positional = some d.written := by
  by_cases hscale : 0 ≤ d.scale
  · have hdigits : ∀ c ∈ digits d.coefficient ++ List.replicate d.scale.toNat '0',
        c.isDigit = true :=
      List.forall_mem_append.2 ⟨fun _ => isDigit_of_mem_digits, fun _ => isDigit_of_mem_zeros⟩
    have hne : digits d.coefficient ++ List.replicate d.scale.toNat '0' ≠ [] := by
      simp [digits, Nat.toDigits_ne_nil]
    rw [positional_of_nonneg hscale, readDecimal_digits hdigits hne, foldDigits_append,
      foldDigits_digits, foldDigits_zeros, written, if_pos hscale]
  · obtain ⟨whole, fraction, heq, hne, hwhole, hfraction, hvalue, hlength⟩ :=
      exists_positional_eq_point d (not_le.1 hscale)
    rw [heq, readDecimal_point hwhole hne hfraction, hvalue, hlength, written, if_neg hscale]

/-- Positional notation starts with a digit. -/
theorem exists_positional_eq_cons (d : Decimal) :
    ∃ c cs, d.positional = c :: cs ∧ c.isDigit = true := by
  have hcons {cs ds : List Char} (hne : cs ≠ []) (hcs : ∀ c ∈ cs, c.isDigit = true) :
      ∃ c rest, cs ++ ds = c :: rest ∧ c.isDigit = true := by
    obtain ⟨c, cs, rfl⟩ := List.exists_cons_of_ne_nil hne
    exact ⟨c, cs ++ ds, rfl, hcs c (by simp)⟩
  by_cases hscale : 0 ≤ d.scale
  · rw [positional_of_nonneg hscale]
    exact hcons Nat.toDigits_ne_nil fun _ => isDigit_of_mem_digits
  · obtain ⟨whole, fraction, heq, hne, hwhole, -⟩ := exists_positional_eq_point d (not_le.1 hscale)
    rw [heq]
    exact hcons hne hwhole

end Decimal

/-! ## Signs and words -/

/-- The text of a number without its sign, and a minus sign in front of it or nothing. -/
def signed (negative : Bool) (body : List Char) : String :=
  String.ofList (if negative then '-' :: body else body)

theorem isUpper_eq_false_of_isDigit {c : Char} (h : c.isDigit = true) : c.isUpper = false := by
  simp only [Char.isDigit, Char.isUpper, ge_iff_le, UInt32.le_iff_toNat_le, Bool.and_eq_true,
    decide_eq_true_eq, decide_eq_false_iff_not, Char.reduceVal, UInt32.reduceToNat] at h ⊢
  omega

theorem readBinary_signed (negative : Bool) {c : Char} (cs : List Char) (hc : c ≠ '-' ∧ c ≠ '+') :
    (readBinary (signed negative (c :: cs)) : Option (Binary w)) =
      let word := (c :: cs).map Char.toLower
      if word = "inf".toList || word = "infinity".toList then some (.infinity negative)
      else if word = "nan".toList then some .nan
      else (readDecimal (c :: cs)).map (Decimal.toBinary negative) := by
  have htake : takeSign (signed negative (c :: cs)).toList = (negative, c :: cs) := by
    cases negative with
    | true => simp [signed, takeSign]
    | false => simp [signed, takeSign, hc.1, hc.2]
  simp only [readBinary, htake]

/-- The positional notation of a decimal is read as the number nearest to what it shows. -/
theorem readBinary_positional (negative : Bool) (d : Decimal) :
    (readBinary (signed negative d.positional) : Option (Binary w)) =
      some (d.written.toBinary negative) := by
  obtain ⟨c, cs, heq, hc⟩ := d.exists_positional_eq_cons
  have hread := d.readDecimal_positional
  rw [heq] at hread ⊢
  have hsign : c ≠ '-' ∧ c ≠ '+' := by
    constructor <;> rintro rfl <;> exact absurd hc (by decide)
  have hletter : c.toLower ≠ 'i' ∧ c.toLower ≠ 'n' := by
    rw [Char.toLower_eq_of_not_isUpper (by simp [isUpper_eq_false_of_isDigit hc])]
    constructor <;> rintro rfl <;> exact absurd hc (by decide)
  rw [readBinary_signed negative cs hsign, hread]
  simp [hletter]

/-- The text of an integer is read as the number nearest to it. -/
theorem readBinary_integerText (n : Int) :
    (readBinary (integerText n) : Option (Binary w)) = some (.ofInt n) := by
  have htext : integerText n = signed (decide (n < 0)) (Decimal.positional ⟨n.natAbs, 0⟩) := by
    simp only [integerText, signed, Decimal.positional]
    split <;> rename_i hn <;> simp [hn]
  have hrank : Decimal.toRank w ⟨n.natAbs, 0⟩ =
      if n.natAbs = 0 then 0 else nearestRank w n.natAbs 1 := by
    split
    · rename_i hzero
      rw [hzero, Decimal.toRank_zero]
    · rename_i hzero
      rw [Decimal.toRank_eq ⟨Nat.pos_of_ne_zero hzero, by simp, by simp only; omega⟩]
      simp [Decimal.quotient]
  rw [htext, readBinary_positional]
  simp [Decimal.written, Decimal.toBinary, hrank, Binary.ofInt, Binary.ofQuotient]

/-! ## Shortest digits -/

/-- A decimal that is found with some number of digits reads back as the rank. -/
theorem toRank_decimalWithDigits {tie : Tie} {rank count : Nat} {d : Decimal}
    (h : decimalWithDigits w tie rank count = some d) : d.toRank w = rank := by
  simp only [decimalWithDigits] at h
  split at h
  · rename_i hbelow habove
    rw [← Option.some.inj h, apply_ite (Decimal.toRank w), eq_of_beq hbelow, eq_of_beq habove,
      ite_self]
  · rename_i hbelow _
    rw [← Option.some.inj h, eq_of_beq hbelow]
  · rename_i _ habove
    rw [← Option.some.inj h, eq_of_beq habove]
  · cases h

theorem toRat_exactDecimal (w : Width) (rank : Nat) :
    (exactDecimal w rank).toRat = value w rank := by
  rw [exactDecimal, Decimal.toRat, value]
  split
  · rename_i he
    simp [← zpow_toNat he]
  · rename_i he
    obtain ⟨k, hk⟩ := Int.eq_ofNat_of_zero_le (neg_nonneg.2 (not_le.1 he).le)
    have hneg : exponent w rank = -(k : Int) := by omega
    have hfactors : (10 : ℚ) ^ k = 2 ^ k * 5 ^ k := by
      rw [← mul_pow]
      norm_num
    have hpower : ((Nat.pow 5 k : Nat) : ℚ) = 5 ^ k := Nat.cast_pow 5 k
    rw [hneg, neg_neg, Int.toNat_natCast, Nat.cast_mul, hpower, zpow_neg, zpow_neg, zpow_natCast,
      zpow_natCast, hfactors]
    field_simp

/-- Of the exact value the coefficient has at least as many bits as the scale has places. -/
theorem inRange_exactDecimal {rank : Nat} (hrank : 0 < rank) : (exactDecimal w rank).InRange := by
  have hpos := significand_pos (w := w) hrank
  rw [exactDecimal]
  split
  · exact ⟨Nat.mul_pos hpos (Nat.two_pow_pos _), by simp, by simp only; omega⟩
  · rename_i he
    obtain ⟨k, hk⟩ := Int.eq_ofNat_of_zero_le (neg_nonneg.2 (not_le.1 he).le)
    rw [hk, Int.toNat_natCast]
    have hcoefficient : 0 < significand w rank * Nat.pow 5 k :=
      Nat.mul_pos hpos (Nat.pow_pos (by decide))
    have hbits : k ≤ (significand w rank * Nat.pow 5 k).log2 := by
      refine (Nat.le_log2 hcoefficient.ne').2 ?_
      calc 2 ^ k ≤ 5 ^ k := Nat.pow_le_pow_left (by decide) k
        _ ≤ significand w rank * 5 ^ k := Nat.le_mul_of_pos_left _ hpos
    exact ⟨hcoefficient, by simp only; omega, by simp only; omega⟩

/-- The shortest digits read back as the rank. -/
theorem toRank_shortest (tie : Tie) {rank : Nat} (hfinite : rank < w.infinityRank) :
    (shortest w tie rank).toRank w = rank := by
  rw [shortest]
  split
  · rename_i hzero
    simp [Decimal.toRank, hzero]
  · rename_i hrank
    split
    · rename_i d hfound
      obtain ⟨count, -, hcount⟩ := List.exists_of_findSome?_eq_some hfound
      exact toRank_decimalWithDigits hcount
    · have hpos := Nat.pos_of_ne_zero hrank
      exact Decimal.toRank_of_toRat (inRange_exactDecimal hpos) hpos hfinite
        (toRat_exactDecimal w rank)

theorem inRange_shortest (tie : Tie) {rank : Nat} (hrank : 0 < rank)
    (hfinite : rank < w.infinityRank) : (shortest w tie rank).InRange := by
  have hshortest := toRank_shortest tie hfinite
  exact Decimal.inRange_of_toRank (w := w) (by omega) (by omega)

/-- The shortest digits of a finite single are rounded to a finite double, and if that is a single,
it is the one whose digits they are. -/
theorem toRank_double_shortest (tie : Tie) {rank : Nat}
    (hfinite : rank < Width.single.infinityRank) :
    (shortest .single tie rank).toRank .double < Width.double.infinityRank ∧
      ∀ other, value .double ((shortest .single tie rank).toRank .double) = value .single other →
        rank = other := by
  rcases Nat.eq_zero_or_pos rank with rfl | hrank
  · have hzero : (shortest .single tie 0).toRank .double = 0 := rfl
    rw [hzero, value_zero, ← value_zero .single]
    exact ⟨by decide, fun other hvalue => value_inj.1 hvalue⟩
  · have hrange := inRange_shortest tie hrank hfinite
    obtain ⟨hnum, hden⟩ := Decimal.quotient_pos hrange.1
    have hsingle := toRank_shortest tie hfinite
    rw [Decimal.toRank_eq hrange] at hsingle ⊢
    have hlt := hsingle.trans_lt hfinite
    exact ⟨nearestRank_double_lt hnum hden hlt, fun other hvalue =>
      hsingle.symm.trans (nearestRank_single_eq hnum hden hlt hvalue)⟩

/-! ## Texts of numbers -/

namespace Binary

/-- The text of a finite number is read, in any format, as what its shortest digits are rounded
to. -/
theorem readBinary_text_finite (negative : Bool) {rank : Fin (w.infinityRank + 1)}
    (hfinite : rank.val < w.infinityRank) :
    readBinary (number negative rank).text =
      some (ofRank negative ((shortest w .up rank.val).toRank v) : Binary v) := by
  have htext : (number negative rank).text =
      signed negative (shortest w .up rank.val).positional := by
    simp only [Binary.text, if_neg hfinite.ne, signed]
  have hrange : (shortest w .up rank.val).coefficient = 0 ∨
      (shortest w .up rank.val).scale ≤ Decimal.scaleLimit := by
    rcases Nat.eq_zero_or_pos rank.val with hzero | hrank
    · left
      rw [shortest, if_pos hzero]
    · right
      exact (inRange_shortest .up hrank hfinite).2.1
  rw [htext, readBinary_positional, Decimal.toBinary, Decimal.toRank_written hrange]

theorem readBinary_text_last (negative : Bool) :
    readBinary (number negative (Fin.last w.infinityRank)).text =
      some (infinity negative : Binary v) := by
  have htext : (number negative (Fin.last w.infinityRank)).text = signed negative "inf".toList := by
    simp only [Binary.text, Fin.val_last, if_true, signed]
  rw [htext]
  exact readBinary_signed negative _ (by decide)

theorem readBinary_text_nan : readBinary (nan : Binary w).text = some (nan : Binary v) := by
  have htext : (nan : Binary w).text = signed false "NaN".toList := rfl
  rw [htext]
  exact readBinary_signed false _ (by decide)

/-- The text of a number is read back as the number. -/
theorem readBinary_text (x : Binary w) : readBinary x.text = some x := by
  cases x with
  | nan => exact readBinary_text_nan
  | number negative rank =>
    rcases (Fin.le_last rank).eq_or_lt with rfl | hfinite
    · rw [readBinary_text_last, infinity]
      exact congrArg some (ofRank_eq negative (Fin.last _))
    · rw [readBinary_text_finite negative hfinite, toRank_shortest .up hfinite, ofRank_eq]

/-- When the text of a finite single is read as a double that is some single widened, it is this
single widened. -/
theorem eq_convert_of_same {negative : Bool} {rank : Fin (Width.single.infinityRank + 1)}
    (hfinite : rank.val < Width.single.infinityRank) {x : Binary .single} {z : Binary .double}
    (hz : z = ofRank negative ((shortest .single .up rank.val).toRank .double))
    (hsame : (x.convert .double).Same z) : z = (number negative rank).convert .double := by
  obtain ⟨hlt, hsingle⟩ := toRank_double_shortest .up hfinite
  generalize (shortest .single .up rank.val).toRank .double = wide at hz hlt hsingle
  obtain rfl : z = number negative ⟨wide, Nat.lt_succ_of_lt hlt⟩ :=
    hz.trans (ofRank_eq negative ⟨wide, Nat.lt_succ_of_lt hlt⟩)
  cases x with
  | nan => cases hsame
  | number s a =>
    obtain ⟨a', hwiden, hvalue⟩ := exists_convert_double a
    rw [hwiden, same_number] at hsame
    obtain ⟨rfl, -⟩ := hsame
    obtain ⟨-, hlast⟩ | ⟨-, -, hvalue⟩ := hvalue
    · rw [Fin.ext_iff] at hlast
      exact absurd hlast hlt.ne
    · obtain rfl : rank = a := Fin.ext (hsingle a.val hvalue)
      exact (convert_eq hfinite hlt hvalue).symm

/-- The text of a single is read as a double; a widened single is the same as that double exactly
when it is the same single and the text is read without an error. -/
theorem exists_readBinary_text_double (y : Binary .single) :
    ∃ z : Binary .double, readBinary y.text = some z ∧
      ∀ x : Binary .single,
        (x.convert .double).Same z ↔ x.Same y ∧ z = y.convert .double := by
  suffices h : ∃ z : Binary .double, readBinary y.text = some z ∧
      ∀ x : Binary .single, (x.convert .double).Same z → z = y.convert .double by
    obtain ⟨z, hread, hz⟩ := h
    refine ⟨z, hread, fun x => ⟨fun hsame => ?_, fun ⟨hsame, heq⟩ => ?_⟩⟩
    · have heq := hz x hsame
      rw [heq, same_convert] at hsame
      exact ⟨hsame, heq⟩
    · exact heq ▸ (same_convert x y).2 hsame
  cases y with
  | nan => exact ⟨nan, readBinary_text_nan, fun _ _ => rfl⟩
  | number t b =>
    rcases (Fin.le_last b).eq_or_lt with rfl | hfinite
    · refine ⟨_, readBinary_text_last t, fun _ _ => ?_⟩
      rw [convert_last]
      exact ofRank_eq t (Fin.last _)
    · exact ⟨_, readBinary_text_finite t hfinite, fun _ => eq_convert_of_same hfinite rfl⟩

end Binary

end SearchTable.Number
