import Kestrel.Number.Style
import Kestrel.Proofs.Number.Doubles
import Kestrel.Proofs.Number.Nearest
import Kestrel.Proofs.Token.Spelling

/-!
# Printed numbers read back

The text of a finite double without sign is a numeral, and the double that this numeral writes is
the one that was printed.

## Main statements

- `toBits_shortest` — the shortest decimal of a finite double reads back as this double
- `numeral_text` — the text of a finite double is a numeral of this double
- `text_of_numeral` — what a numeral writes has a numeral for its text, unless it is infinite
-/

namespace Kestrel.Number

-- Powers of natural numbers are the built-in ones, whatever other powers are in scope.
attribute [local instance (high)] instPowNat

/-! ### The shortest decimal -/

section Shortest

variable {bits : ℕ}

theorem Decimal.toBits_congr {d d' : Decimal} (h : d.value = d'.value) : d.toBits = d'.toBits := by
  refine nearestBits_congr d.toRatio_pos d'.toRatio_pos ?_
  rw [d.toRatio_value, d'.toRatio_value, h]

theorem Decimal.toBits_of_value {d : Decimal} (hbits : bits < infinityBits)
    (h : d.value = (Binary.ofBits bits).value) : d.toBits = bits :=
  nearestBits_of_value hbits d.toRatio_pos (d.toRatio_value.trans h)

theorem toBits_of_onGrid? {tie : Tie} {num den : ℕ} {grid : ℤ} {d : Decimal}
    (h : onGrid? tie bits num den grid = some d) : d.toBits = bits := by
  unfold onGrid? at h
  dsimp only at h
  split at h
  · next hnearest =>
    cases h
    exact hnearest
  · split at h
    · next hother =>
      cases h
      exact hother
    · cases h

/-- A grid that is fine enough holds the value itself. -/
theorem value_onGrid (b : Binary) {grid : ℤ} (h : grid ≤ min b.exponent 0) :
    Decimal.value ⟨b.toRatio.1 * 10 ^ (-grid).toNat / (b.toRatio.2 * 10 ^ grid.toNat), grid⟩ =
      b.value := by
  have hdvd : b.toRatio.2 ∣ 10 ^ (-grid).toNat :=
    calc 2 ^ (-b.exponent).toNat ∣ 2 ^ (-grid).toNat := Nat.pow_dvd_pow 2 (by omega)
      _ ∣ 10 ^ (-grid).toNat := pow_dvd_pow_of_dvd (by decide) _
  obtain ⟨k, hk⟩ := hdvd
  have hpos := b.toRatio_pos
  have hk' : 0 < k := Nat.pos_of_ne_zero fun hzero => by
    rw [hzero, Nat.mul_zero] at hk
    exact (Nat.pow_pos (by decide : 0 < 10)).ne' hk
  have hdigits : b.toRatio.1 * 10 ^ (-grid).toNat / (b.toRatio.2 * 10 ^ grid.toNat) =
      b.toRatio.1 * k := by
    rw [Int.toNat_of_nonpos (by omega : grid ≤ 0), Nat.pow_zero, Nat.mul_one, hk,
      Nat.mul_left_comm, Nat.mul_div_cancel_left _ hpos]
  have hgrid := zpow_eq_div 10 grid
  rw [Int.toNat_of_nonpos (by omega : grid ≤ 0), Nat.pow_zero, Nat.cast_one, Nat.cast_ofNat,
    hk] at hgrid
  rw [Decimal.value, ← b.toRatio_value, hdigits, hgrid]
  push_cast
  field_simp

theorem toBits_searchGrids (tie : Tie) (hbits : bits < infinityBits) {steps : ℕ} {grid : ℤ}
    (h : grid - steps ≤ min (Binary.ofBits bits).exponent 0) :
    (searchGrids tie bits (Binary.ofBits bits).toRatio.1 (Binary.ofBits bits).toRatio.2
      steps grid).toBits = bits := by
  induction steps generalizing grid with
  | zero =>
    refine Decimal.toBits_of_value hbits (value_onGrid _ ?_)
    simpa using h
  | succ steps ih =>
    rw [searchGrids]
    split
    · next d hd => exact toBits_of_onGrid? hd
    · exact ih (by omega)

/-- The shortest decimal of a finite double reads back as this double. -/
theorem toBits_shortest (tie : Tie) (hbits : bits < infinityBits) :
    (shortest tie bits).toBits = bits := by
  unfold shortest
  split
  · next hzero =>
    subst hzero
    rfl
  · exact toBits_searchGrids tie hbits (by omega)

end Shortest

/-! ### Digits at their places -/

section Places

variable {digits : List Char}

theorem eq_significantDigits_append (hne : digits ≠ []) :
    ∃ k, digits = significantDigits digits ++ List.replicate k '0' := by
  have hzeros : digits.reverse.takeWhile (· == '0') =
      List.replicate (digits.reverse.takeWhile (· == '0')).length '0' :=
    List.eq_replicate_of_mem fun c hc => eq_of_beq (List.all_eq_true.1 List.all_takeWhile c hc)
  have hcut : digits = (digits.reverse.dropWhile (· == '0')).reverse ++
      List.replicate (digits.reverse.takeWhile (· == '0')).length '0' := by
    rw [← List.reverse_replicate, ← hzeros, ← List.reverse_append,
      List.takeWhile_append_dropWhile, List.reverse_reverse]
  unfold significantDigits
  split
  · next hnil =>
    rw [hnil, List.nil_append] at hcut
    cases hlength : (digits.reverse.takeWhile (· == '0')).length with
    | zero =>
      rw [hlength] at hcut
      exact absurd hcut hne
    | succ k =>
      rw [hlength] at hcut
      exact ⟨k, hcut⟩
  · exact ⟨_, hcut⟩

theorem significantDigits_ne_nil (digits : List Char) : significantDigits digits ≠ [] := by
  unfold significantDigits
  split
  · exact List.cons_ne_nil _ _
  · next hne => exact hne

theorem Decimal.toFloat_congr {d d' : Decimal} (h : d.value = d'.value) :
    d.toFloat = d'.toFloat := by
  rw [Decimal.toFloat, Decimal.toFloat, Decimal.toBits_congr h]

theorem isDigit_of_mem_replicate {k : ℕ} {c : Char} (hc : c ∈ List.replicate k '0') :
    c.isDigit = true := by
  rw [List.eq_of_mem_replicate hc]
  rfl

/-- Digits at their places write a number, whatever the place of the first one is. -/
theorem numeral_placed (hne : digits ≠ []) (hdigits : ∀ c ∈ digits, c.isDigit = true) (power : ℤ) :
    Numeral (placed false digits power)
      (Decimal.toFloat ⟨Nat.ofDigitChars 10 digits 0, power + 1 - digits.length⟩) := by
  have hlength := List.length_pos_iff.2 hne
  unfold placed
  split
  · next hneg =>
    have hvalue : Decimal.ofNumeral ['0'] (List.replicate (-power - 1).toNat '0' ++ digits) =
        ⟨Nat.ofDigitChars 10 digits 0, power + 1 - digits.length⟩ := by
      rw [Decimal.ofNumeral, List.length_append, List.length_replicate, List.singleton_append,
        Nat.ofDigitChars_cons, Nat.ofDigitChars_append, Nat.ofDigitChars_replicate_zero]
      congr 1
      omega
    rw [← hvalue]
    refine @Numeral.point ['0'] _ (List.cons_ne_nil _ _) (List.all_eq_true.1 (by decide))
      (List.append_ne_nil_of_right_ne_nil _ hne) ?_
    rw [List.forall_mem_append]
    exact ⟨fun _ => isDigit_of_mem_replicate, hdigits⟩
  · next hpos =>
    dsimp only
    split
    · next hle =>
      have hvalue : (Decimal.ofNumeral
          (digits ++ List.replicate (power.toNat + 1 - digits.length) '0') []).value =
            Decimal.value ⟨Nat.ofDigitChars 10 digits 0, power + 1 - digits.length⟩ := by
        have hexponent : power + 1 - digits.length = (power.toNat + 1 - digits.length : ℕ) := by
          omega
        rw [Decimal.ofNumeral, List.append_nil, Nat.ofDigitChars_append,
          Nat.ofDigitChars_replicate_zero, hexponent, Decimal.value, Decimal.value]
        simp [mul_comm]
      rw [← Decimal.toFloat_congr hvalue, if_neg Bool.false_ne_true, List.append_nil]
      refine .whole (List.append_ne_nil_of_left_ne_nil hne _) ?_
      rw [List.forall_mem_append]
      exact ⟨hdigits, fun _ => isDigit_of_mem_replicate⟩
    · next hlt =>
      have hvalue : Decimal.ofNumeral (digits.take (power.toNat + 1))
          (digits.drop (power.toNat + 1)) =
            ⟨Nat.ofDigitChars 10 digits 0, power + 1 - digits.length⟩ := by
        rw [Decimal.ofNumeral, List.take_append_drop, List.length_drop]
        congr 1
        omega
      rw [← hvalue]
      refine .point ?_ (fun c hc => hdigits c (List.mem_of_mem_take hc)) ?_
        fun c hc => hdigits c (List.mem_of_mem_drop hc)
      · exact List.length_pos_iff.1 (by rw [List.length_take]; omega)
      · exact List.length_pos_iff.1 (by rw [List.length_drop]; omega)

/-- A decimal in the notation of the language is a numeral of the nearest double. -/
theorem numeral_layOut (d : Decimal) : Numeral (plain.layOut d) d.toFloat := by
  show Numeral (placed false (significantDigits (Nat.toDigits 10 d.digits))
    ((Nat.toDigits 10 d.digits).length - 1 + d.exponent)) d.toFloat
  have hread : Nat.ofDigitChars 10 (Nat.toDigits 10 d.digits) 0 = d.digits :=
    Nat.ofDigitChars_ten_toDigits
  have hmem : ∀ c ∈ Nat.toDigits 10 d.digits, c.isDigit = true :=
    fun c => Nat.isDigit_of_mem_toDigits (by decide) (Nat.le_refl 10)
  obtain ⟨k, hdigits⟩ := eq_significantDigits_append (@Nat.toDigits_ne_nil d.digits 10)
  have hne := significantDigits_ne_nil (Nat.toDigits 10 d.digits)
  generalize significantDigits (Nat.toDigits 10 d.digits) = kept at *
  rw [hdigits] at hread hmem ⊢
  have hvalue : Decimal.value ⟨Nat.ofDigitChars 10 kept 0,
      ((kept ++ List.replicate k '0').length : ℤ) - 1 + d.exponent + 1 - kept.length⟩ =
        d.value := by
    have hexponent : ((kept ++ List.replicate k '0').length : ℤ) - 1 + d.exponent + 1 -
        kept.length = k + d.exponent := by
      rw [List.length_append, List.length_replicate]
      omega
    rw [Nat.ofDigitChars_append, Nat.ofDigitChars_replicate_zero] at hread
    rw [Decimal.value, Decimal.value, ← hread, hexponent, zpow_add₀ (by decide), zpow_natCast]
    push_cast
    ring
  rw [← Decimal.toFloat_congr hvalue]
  exact numeral_placed hne (fun c hc => hmem c (List.mem_append_left _ hc)) _

end Places

/-! ### Finite doubles -/

/-- The text of a finite double without sign is a numeral of this double. -/
theorem numeral_text {bits : ℕ} (h : bits < infinityBits) :
    Numeral (text (ofMagnitudeBits false bits)).toList (ofMagnitudeBits false bits) := by
  have hinf : (ofMagnitudeBits false bits).isInf = false :=
    Bool.eq_false_iff.2 fun hinf => h.ne ((isInf_ofMagnitudeBits h.le).1 hinf)
  have htext : (text (ofMagnitudeBits false bits)).toList = plain.layOut (shortest .up bits) := by
    rw [text, Style.text, isNaN_ofMagnitudeBits h.le, isNegative_ofMagnitudeBits h.le, hinf,
      magnitudeBits_ofMagnitudeBits h.le]
    simp [plain]
  have hread := numeral_layOut (shortest .up bits)
  rwa [Decimal.toFloat, toBits_shortest .up h, ← htext] at hread

theorem text_infinity : text (ofMagnitudeBits false infinityBits) = "inf" := by
  rw [text, Style.text, isNaN_ofMagnitudeBits (Nat.le_refl _),
    isNegative_ofMagnitudeBits (Nat.le_refl _), (isInf_ofMagnitudeBits (Nat.le_refl _)).2 rfl]
  rfl

theorem exists_bits_of_numeral {cs : List Char} {x : Float} (h : Numeral cs x) :
    ∃ bits, bits ≤ infinityBits ∧ x = ofMagnitudeBits false bits := by
  cases h <;> exact ⟨_, nearestBits_le _ _, rfl⟩

/-- What is written by a numeral has a numeral for its text, unless it is infinite. -/
theorem text_of_numeral {cs : List Char} {x : Float} (h : Numeral cs x) :
    (x.isInf = false ∧ Numeral (text x).toList x) ∨ (x.isInf = true ∧ text x = "inf") := by
  obtain ⟨bits, hle, rfl⟩ := exists_bits_of_numeral h
  by_cases hbits : bits = infinityBits
  · subst hbits
    exact .inr ⟨(isInf_ofMagnitudeBits hle).2 rfl, text_infinity⟩
  · exact .inl ⟨Bool.eq_false_iff.2 fun hinf => hbits ((isInf_ofMagnitudeBits hle).1 hinf),
      numeral_text (Nat.lt_of_le_of_ne hle hbits)⟩

/-- What is written by a numeral is infinite if it is not finite. -/
theorem isInf_of_numeral {cs : List Char} {x : Float} (h : Numeral cs x) :
    x.isInf = !x.isFinite := by
  obtain ⟨bits, hle, rfl⟩ := exists_bits_of_numeral h
  obtain ⟨-, -, hinf, hfinite⟩ | ⟨-, -, hinf, hfinite⟩ := kind_ofMagnitudeBits hle <;>
    rw [hinf, hfinite] <;> rfl

end Kestrel.Number
