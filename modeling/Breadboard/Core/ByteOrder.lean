import Mathlib.Data.Nat.Bitwise

/-!
# bb_byte_order - little-endian words in byte buffers

A word is stored by its bytes, the least significant first, and loaded by shifting them back.

Main results:

- Theorem `toNat_loadLe16`, `toNat_loadLe32`: the number that is loaded.
- Theorem `loadLe16_store`, `storeLe16_load` and their 32-bit forms: storing and
  loading are inverse to each other.
-/

namespace Breadboard

/-- `bb_store_le16`. -/
def storeLe16 (v : UInt16) : List UInt8 :=
  [v.toUInt8, (v >>> 8).toUInt8]

/-- `bb_load_le16`. -/
def loadLe16 (p0 p1 : UInt8) : UInt16 :=
  p0.toUInt16 ||| (p1.toUInt16 <<< 8)

/-- `bb_store_le32`. -/
def storeLe32 (v : UInt32) : List UInt8 :=
  [v.toUInt8, (v >>> 8).toUInt8, (v >>> 16).toUInt8, (v >>> 24).toUInt8]

/-- `bb_load_le32`. -/
def loadLe32 (p0 p1 p2 p3 : UInt8) : UInt32 :=
  p0.toUInt32 ||| (p1.toUInt32 <<< 8) ||| (p2.toUInt32 <<< 16) ||| (p3.toUInt32 <<< 24)

/-! ## The number that is loaded -/

/-- Or-ing a byte string's next byte to the number of those before it. -/
theorem or_byte_shiftLeft {low i : Nat} (p : UInt8) (hlow : low < 2 ^ i) :
    low ||| (p.toNat <<< i) = low + 2 ^ i * p.toNat := by
  calc
    low ||| (p.toNat <<< i) = p.toNat <<< i + low := by
      rw [Nat.shiftLeft_add_eq_or_of_lt hlow, Nat.or_comm]
    _ = low + 2 ^ i * p.toNat := by rw [Nat.shiftLeft_eq, Nat.mul_comm, Nat.add_comm]

theorem byte_shiftLeft_mod {i w : Nat} (p : UInt8) (hfits : i + 8 ≤ w) :
    p.toNat <<< i % 2 ^ w = p.toNat <<< i := by
  refine Nat.mod_eq_of_lt ?_
  calc
    p.toNat <<< i = p.toNat * 2 ^ i := Nat.shiftLeft_eq _ _
    _ < 2 ^ 8 * 2 ^ i := (Nat.mul_lt_mul_right (Nat.two_pow_pos i)).mpr p.toNat_lt
    _ = 2 ^ (i + 8) := by rw [Nat.pow_add, Nat.mul_comm]
    _ ≤ 2 ^ w := Nat.pow_le_pow_right (by decide) hfits

theorem toNat_loadLe16 (p0 p1 : UInt8) : (loadLe16 p0 p1).toNat = p0.toNat + 256 * p1.toNat := by
  have h1 := @byte_shiftLeft_mod 8 16 p1 (by decide)
  simp only [loadLe16, UInt16.toNat_or, UInt16.toNat_shiftLeft, UInt8.toNat_toUInt16,
    UInt16.reduceToNat, Nat.reduceMod, h1]
  exact or_byte_shiftLeft p1 p0.toNat_lt

theorem toNat_loadLe32 (p0 p1 p2 p3 : UInt8) :
    (loadLe32 p0 p1 p2 p3).toNat =
      p0.toNat + 256 * p1.toNat + 65536 * p2.toNat + 16777216 * p3.toNat := by
  have h0 := p0.toNat_lt
  have h1 := p1.toNat_lt
  have h2 := p2.toNat_lt
  have hs1 := @byte_shiftLeft_mod 8 32 p1 (by decide)
  have hs2 := @byte_shiftLeft_mod 16 32 p2 (by decide)
  have hs3 := @byte_shiftLeft_mod 24 32 p3 (by decide)
  simp only [loadLe32, UInt32.toNat_or, UInt32.toNat_shiftLeft, UInt8.toNat_toUInt32,
    UInt32.reduceToNat, Nat.reduceMod, hs1, hs2, hs3]
  rw [@or_byte_shiftLeft _ 8 p1 h0, @or_byte_shiftLeft _ 16 p2 (by omega),
    @or_byte_shiftLeft _ 24 p3 (by omega)]
  rfl

/-! ## Storing and loading -/

@[simp] theorem length_storeLe16 (v : UInt16) : (storeLe16 v).length = 2 :=
  rfl

@[simp] theorem length_storeLe32 (v : UInt32) : (storeLe32 v).length = 4 :=
  rfl

theorem loadLe16_store (v : UInt16) : loadLe16 v.toUInt8 (v >>> 8).toUInt8 = v := by
  have hv := v.toNat_lt
  refine UInt16.toNat_inj.mp ?_
  rw [toNat_loadLe16]
  simp only [UInt16.toNat_toUInt8, UInt16.toNat_shiftRight, UInt16.reduceToNat, Nat.reduceMod,
    Nat.shiftRight_eq_div_pow]
  omega

theorem storeLe16_load (p0 p1 : UInt8) : storeLe16 (loadLe16 p0 p1) = [p0, p1] := by
  have h0 := p0.toNat_lt
  have h1 := p1.toNat_lt
  have hload := toNat_loadLe16 p0 p1
  have hfirst : (loadLe16 p0 p1).toUInt8 = p0 := by
    refine UInt8.toNat_inj.mp ?_
    rw [UInt16.toNat_toUInt8]
    omega
  have hsecond : (loadLe16 p0 p1 >>> 8).toUInt8 = p1 := by
    refine UInt8.toNat_inj.mp ?_
    simp only [UInt16.toNat_toUInt8, UInt16.toNat_shiftRight, UInt16.reduceToNat, Nat.reduceMod,
      Nat.shiftRight_eq_div_pow]
    omega
  rw [storeLe16, hfirst, hsecond]

theorem loadLe32_store (v : UInt32) :
    loadLe32 v.toUInt8 (v >>> 8).toUInt8 (v >>> 16).toUInt8 (v >>> 24).toUInt8 = v := by
  have hv := v.toNat_lt
  refine UInt32.toNat_inj.mp ?_
  rw [toNat_loadLe32]
  simp only [UInt32.toNat_toUInt8, UInt32.toNat_shiftRight, UInt32.reduceToNat, Nat.reduceMod,
    Nat.shiftRight_eq_div_pow]
  omega

theorem storeLe32_load (p0 p1 p2 p3 : UInt8) :
    storeLe32 (loadLe32 p0 p1 p2 p3) = [p0, p1, p2, p3] := by
  have h0 := p0.toNat_lt
  have h1 := p1.toNat_lt
  have h2 := p2.toNat_lt
  have h3 := p3.toNat_lt
  have hload := toNat_loadLe32 p0 p1 p2 p3
  have hbyte : ∀ (i : UInt32) (p : UInt8),
      (loadLe32 p0 p1 p2 p3).toNat >>> (i.toNat % 32) % 256 = p.toNat →
        (loadLe32 p0 p1 p2 p3 >>> i).toUInt8 = p := by
    intro i p hp
    refine UInt8.toNat_inj.mp ?_
    rw [UInt32.toNat_toUInt8, UInt32.toNat_shiftRight]
    exact hp
  have hfirst : (loadLe32 p0 p1 p2 p3).toUInt8 = p0 := by
    refine UInt8.toNat_inj.mp ?_
    rw [UInt32.toNat_toUInt8]
    omega
  have hsecond := hbyte 8 p1 (by
    simp only [UInt32.reduceToNat, Nat.reduceMod, Nat.shiftRight_eq_div_pow]
    omega)
  have hthird := hbyte 16 p2 (by
    simp only [UInt32.reduceToNat, Nat.reduceMod, Nat.shiftRight_eq_div_pow]
    omega)
  have hfourth := hbyte 24 p3 (by
    simp only [UInt32.reduceToNat, Nat.reduceMod, Nat.shiftRight_eq_div_pow]
    omega)
  rw [storeLe32, hfirst, hsecond, hthird, hfourth]

end Breadboard
