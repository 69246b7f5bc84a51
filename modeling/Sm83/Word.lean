import Sm83.Byte

/-!
Sixteen-bit words as pairs of bytes, and the signed displacement of an address.

A word and its two bytes determine each other: `high_ofBytes`, `low_ofBytes` and `ofBytes_high_low`.
-/

namespace Sm83

/-- A sixteen-bit value or an address; its arithmetic is modulo 65536. -/
abbrev Word := UInt16

namespace Word

/-- The word with the given high and low byte. -/
def ofBytes (high low : Byte) : Word :=
  high.toUInt16 * 256 + low.toUInt16

/-- The more significant byte. -/
def high (w : Word) : Byte :=
  (w / 256).toUInt8

/-- The less significant byte. -/
def low (w : Word) : Byte :=
  w.toUInt8

/-- A byte read as a two's-complement number and widened to a word. -/
def signExtend (d : Byte) : Word :=
  ofBytes (if d < 128 then 0x00 else 0xFF) d

/-- The word moved by a signed byte. -/
def displace (w : Word) (d : Byte) : Word :=
  w + signExtend d

/-- The high byte counts 256 times. -/
theorem toNat_ofBytes (high low : Byte) :
    (ofBytes high low).toNat = high.toNat * 256 + low.toNat := by
  have := high.toNat_lt
  have := low.toNat_lt
  simp only [ofBytes, UInt16.toNat_add, UInt16.toNat_mul, UInt8.toNat_toUInt16, UInt16.reduceToNat]
  omega

theorem toNat_high (w : Word) : w.high.toNat = w.toNat / 256 := by
  have := w.toNat_lt
  simp only [high, UInt16.toNat_toUInt8, UInt16.toNat_div, UInt16.reduceToNat]
  omega

theorem toNat_low (w : Word) : w.low.toNat = w.toNat % 256 := by
  simp only [low, UInt16.toNat_toUInt8]

@[simp] theorem high_ofBytes (h l : Byte) : (ofBytes h l).high = h := by
  have := l.toNat_lt
  apply UInt8.toNat_inj.1
  rw [toNat_high, toNat_ofBytes]
  omega

@[simp] theorem low_ofBytes (h l : Byte) : (ofBytes h l).low = l := by
  have := l.toNat_lt
  apply UInt8.toNat_inj.1
  rw [toNat_low, toNat_ofBytes]
  omega

@[simp] theorem ofBytes_high_low (w : Word) : ofBytes w.high w.low = w := by
  apply UInt16.toNat_inj.1
  rw [toNat_ofBytes, toNat_high, toNat_low]
  omega

end Word

end Sm83
