import Kestrel.Number.Binary64
import Mathlib

/-!
# Doubles from their magnitude bits

A natural number up to `infinityBits` is the bit pattern of a double without sign, and the double
keeps it: it is what `magnitudeBits` gives back, and it tells what kind of double it is.

## Main statements

- `magnitudeBits_ofMagnitudeBits` — the bits of the double are the bits that it was made of
- `kind_ofMagnitudeBits` — which patterns are infinite and finite, and none is no number

## Design notes

That a double keeps its bits is `pack_unpack`, a lemma that no single file of Mathlib brings along.
-/

namespace Kestrel.Number

open Float.Model Float.Model.UnpackedFloat

-- Powers of natural numbers are the built-in ones, whatever other powers are in scope.
attribute [local instance (high)] instPowNat

variable {bits : Nat}

/-- The bit pattern of `bits`. -/
abbrev pattern (bits : Nat) : BitVec Format.binary64.numBits := (UInt64.ofNat bits).toBitVec

theorem toNat_pattern (h : bits ≤ infinityBits) : (pattern bits).toNat = bits := by
  have : infinityBits < 2 ^ 64 := by decide
  simp [pattern]
  omega

theorem toNat_unpackExponent (h : bits ≤ infinityBits) :
    (unpackExponent (pattern bits)).toNat = bits / 2 ^ 52 := by
  have hlt : bits / 2 ^ 52 < 2 ^ 11 := by
    unfold infinityBits at h
    omega
  have hexponent : (unpackExponent (pattern bits)).toNat =
      (pattern bits).toNat / 2 ^ 52 % 2 ^ 11 := by
    simp [unpackExponent, Nat.shiftRight_eq_div_pow]
  rw [hexponent, toNat_pattern h, Nat.mod_eq_of_lt hlt]

theorem toNat_unpackMantissa (h : bits ≤ infinityBits) :
    (unpackMantissa (pattern bits)).toNat = bits % 2 ^ 52 := by
  have hmantissa : (unpackMantissa (pattern bits)).toNat = (pattern bits).toNat % 2 ^ 52 := by
    simp [unpackMantissa]
  rw [hmantissa, toNat_pattern h]

theorem unpackExponent_eq_iff (h : bits ≤ infinityBits) :
    unpackExponent (pattern bits) = -1#11 ↔ bits = infinityBits := by
  rw [← BitVec.toNat_inj, toNat_unpackExponent h]
  unfold infinityBits at *
  show bits / 2 ^ 52 = 2047 ↔ _
  omega

theorem unpackMantissa_of_unpackExponent (h : bits ≤ infinityBits)
    (he : unpackExponent (pattern bits) = -1#11) : unpackMantissa (pattern bits) = 0#52 := by
  rw [← BitVec.toNat_inj, toNat_unpackMantissa h, (unpackExponent_eq_iff h).1 he]
  rfl

theorem toBits_ofMagnitudeBits (h : bits ≤ infinityBits) :
    (ofMagnitudeBits false bits).toBits = UInt64.ofNat bits := by
  have hnumber : ¬ isNaNBits (pattern bits) = true := fun hnan =>
    (of_decide_eq_true hnan).2 (unpackMantissa_of_unpackExponent h (of_decide_eq_true hnan).1)
  exact UInt64.toBitVec_inj.1 ((pack_unpack _).trans (if_neg hnumber))

theorem toNat_toBits_ofMagnitudeBits (h : bits ≤ infinityBits) :
    (ofMagnitudeBits false bits).toBits.toNat = bits := by
  rw [toBits_ofMagnitudeBits h]
  exact toNat_pattern h

/-- The bits of a double are the bits that it was made of. -/
theorem magnitudeBits_ofMagnitudeBits (h : bits ≤ infinityBits) :
    magnitudeBits (ofMagnitudeBits false bits) = bits := by
  rw [magnitudeBits, toNat_toBits_ofMagnitudeBits h]
  unfold infinityBits at h
  omega

theorem isNegative_ofMagnitudeBits (h : bits ≤ infinityBits) :
    isNegative (ofMagnitudeBits false bits) = false := by
  rw [isNegative, toNat_toBits_ofMagnitudeBits h]
  unfold infinityBits at h
  simp
  omega

/-- The double of a pattern is infinite if the pattern is that of infinity, and finite otherwise. -/
theorem kind_ofMagnitudeBits (h : bits ≤ infinityBits) :
    let x := ofMagnitudeBits false bits
    (bits = infinityBits ∧ x.isNaN = false ∧ x.isInf = true ∧ x.isFinite = false) ∨
      (bits ≠ infinityBits ∧ x.isNaN = false ∧ x.isInf = false ∧ x.isFinite = true) := by
  have hunpack : (ofMagnitudeBits false bits).toModel.unpack =
      unpack Format.binary64 (pattern bits) := by
    show unpack Format.binary64 (ofMagnitudeBits false bits).toBits.toBitVec = _
    rw [toBits_ofMagnitudeBits h]
  dsimp only [Float.isNaN, Float.isInf, Float.isFinite, Float.Model.isNaN, Float.Model.isInf,
    Float.Model.isFinite]
  rw [hunpack, UnpackedFloat.unpack, Ne, ← unpackExponent_eq_iff h]
  split
  · next he =>
    rw [if_pos (unpackMantissa_of_unpackExponent h he)]
    exact .inl ⟨he, rfl, rfl, rfl⟩
  · next he =>
    refine .inr ⟨he, ?_⟩
    split
    · split <;> exact ⟨rfl, rfl, rfl⟩
    · exact ⟨rfl, rfl, rfl⟩

theorem isNaN_ofMagnitudeBits (h : bits ≤ infinityBits) :
    (ofMagnitudeBits false bits).isNaN = false := by
  obtain ⟨-, hnan, -⟩ | ⟨-, hnan, -⟩ := kind_ofMagnitudeBits h <;> exact hnan

theorem isInf_ofMagnitudeBits (h : bits ≤ infinityBits) :
    (ofMagnitudeBits false bits).isInf = true ↔ bits = infinityBits := by
  obtain ⟨hbits, -, hinf, -⟩ | ⟨hbits, -, hinf, -⟩ := kind_ofMagnitudeBits h <;>
    rw [hinf] <;> simp [hbits]

end Kestrel.Number
