import ScBl.Bitops
import ScBl.Lib.Crc

/-!
# CRC-16 CCITT (`crc.h`)
-/

namespace ScBl

/-- `uint16_t` -/
abbrev U16 : Type := BitVec 16

/-- One round of the loop of `crc16_ccitt_update`. -/
def crc16CcittRound (crc : U16) : U16 :=
  if crc &&& 0x8000#16 ≠ 0#16 then (crc <<< 1) ^^^ 0x1021#16 else crc <<< 1

/-- `crc16_ccitt_update` -/
def crc16CcittUpdate (crc : U16) (data : U8) : U16 :=
  crc16CcittRound^[8] (crc ^^^ (data.setWidth 16 <<< 8))

/-- The checksum that a loop of updates from 0 leaves, as in `xmodem_receive`. -/
def crc16Ccitt (l : List U8) : U16 := l.foldl crc16CcittUpdate 0#16

example : crc16Ccitt [0x31#8, 0x32#8, 0x33#8] = 0x9752#16 := by decide +kernel

theorem crc16CcittRound_eq_shift : crc16CcittRound = Crc.shift 0x1021#16 := by
  funext crc
  have hbit : crc &&& 0x8000#16 ≠ 0#16 ↔ crc.msb = true := by
    have hpow : 0x8000#16 = BitVec.twoPow 16 15 := by decide
    rw [BitVec.msb_eq_getLsbD_last, hpow, BitVec.and_twoPow]
    rcases crc.getLsbD 15 with _ | _ <;> decide
  rw [crc16CcittRound, Crc.shift]
  exact if_congr hbit rfl rfl

theorem crc16CcittUpdate_eq_feed : crc16CcittUpdate = Crc.feed 0x1021#16 := by
  funext crc data
  rw [crc16CcittUpdate, crc16CcittRound_eq_shift, Crc.feed]

/-- **The checksum of a payload** is the word that, put behind it, makes it
divisible by `x^16 + x^12 + x^5 + 1`. -/
theorem crc16Ccitt_eq_iff (l : List U8) (c : U16) :
    crc16Ccitt l = c ↔
      Crc.generator 0x1021#16 ∣ Polynomial.X ^ 16 * Crc.message l + Crc.toPoly c := by
  rw [crc16Ccitt, crc16CcittUpdate_eq_feed]
  exact Crc.crc_eq_iff 0x1021#16 (by decide) (by decide) l c

open Polynomial in
theorem generator_crc16Ccitt :
    Crc.generator 0x1021#16 = (X ^ 16 + X ^ 12 + X ^ 5 + 1 : (ZMod 2)[X]) := by
  have hpoly : Crc.toPoly 0x1021#16 = (X ^ 12 + X ^ 5 + 1 : (ZMod 2)[X]) := by
    simp [Crc.toPoly, Finset.sum_range_succ]
    ring
  rw [Crc.generator, hpoly]
  ring

open Polynomial in
/-- **The checksum** is the remainder of the message times `x^16`. -/
theorem toPoly_crc16Ccitt (l : List U8) : Crc.toPoly (crc16Ccitt l) =
    (Crc.message l * X ^ 16) %ₘ (X ^ 16 + X ^ 12 + X ^ 5 + 1 : (ZMod 2)[X]) := by
  rw [crc16Ccitt, crc16CcittUpdate_eq_feed, ← generator_crc16Ccitt, mul_comm]
  exact Crc.toPoly_crc 0x1021#16 (by decide) (by decide) l

/-- A checksum, high byte first, completes its payload to a multiple of the generator. -/
theorem crc16Ccitt_eq_append_iff (l : List U8) (hi lo : U8) :
    crc16Ccitt l = hi ++ lo ↔ Crc.generator 0x1021#16 ∣ Crc.message (l ++ [hi, lo]) := by
  have hcheck : Crc.message [hi, lo] = Crc.toPoly (hi ++ lo) := by
    rw [Crc.toPoly_append, Crc.message_cons, Crc.message_cons]
    simp [Crc.message]
  rw [crc16Ccitt_eq_iff, Crc.message_append_list, hcheck]
  rfl

end ScBl
