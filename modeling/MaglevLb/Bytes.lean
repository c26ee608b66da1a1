import Mathlib.Tactic.Ring

/-!
# Words laid out in byte strings

Big-endian words are assembled with the shift and mask operations that header
code uses. Little-endian words are what copying the bytes of a value in memory
gives on the supported hosts. Each direction is inverse to the other.
-/
namespace MaglevLb.Bytes

/-- A big-endian 16-bit word from its two bytes. -/
def be16 (hi lo : UInt8) : UInt16 := hi.toUInt16 <<< 8 ||| lo.toUInt16

def hiByte (x : UInt16) : UInt8 := (x >>> 8).toUInt8

def loByte (x : UInt16) : UInt8 := (x &&& 0xFF).toUInt8

theorem be16_toNat (hi lo : UInt8) : (be16 hi lo).toNat = hi.toNat * 256 + lo.toNat := by
  have hh := hi.toNat_lt
  have hl := lo.toNat_lt
  have h8 : (8 : UInt16).toNat % 16 = 8 := rfl
  have hs : hi.toNat <<< 8 < 2 ^ 16 := by rw [Nat.shiftLeft_eq]; omega
  rw [be16, UInt16.toNat_or, UInt16.toNat_shiftLeft, UInt8.toNat_toUInt16,
    UInt8.toNat_toUInt16, h8, Nat.mod_eq_of_lt hs, ← Nat.shiftLeft_add_eq_or_of_lt hl,
    Nat.shiftLeft_eq]

theorem hiByte_toNat (x : UInt16) : (hiByte x).toNat = x.toNat / 256 := by
  have h := x.toNat_lt
  have h8 : (8 : UInt16).toNat % 16 = 8 := rfl
  rw [hiByte, UInt16.toNat_toUInt8, UInt16.toNat_shiftRight, h8, Nat.shiftRight_eq_div_pow]
  omega

theorem loByte_toNat (x : UInt16) : (loByte x).toNat = x.toNat % 256 := by
  have hm : (0xFF : UInt16).toNat = 2 ^ 8 - 1 := rfl
  rw [loByte, UInt16.toNat_toUInt8, UInt16.toNat_and, hm, Nat.and_two_pow_sub_one_eq_mod]
  omega

@[simp] theorem be16_hiByte_loByte (x : UInt16) : be16 (hiByte x) (loByte x) = x := by
  apply UInt16.toNat_inj.mp
  rw [be16_toNat, hiByte_toNat, loByte_toNat]
  omega

/-- Copying two bytes into a 16-bit variable. -/
def le16 (b₀ b₁ : UInt8) : UInt16 := UInt16.ofNat (b₀.toNat + 256 * b₁.toNat)

/-- Copying four bytes into a 32-bit variable. -/
def le32 (b₀ b₁ b₂ b₃ : UInt8) : UInt32 :=
  UInt32.ofNat (b₀.toNat + 256 * (b₁.toNat + 256 * (b₂.toNat + 256 * b₃.toNat)))

/-- The four bytes of a 32-bit variable in memory order. -/
def le32Bytes (x : UInt32) : List UInt8 :=
  [UInt8.ofNat x.toNat, UInt8.ofNat (x.toNat / 256),
    UInt8.ofNat (x.toNat / 65536), UInt8.ofNat (x.toNat / 16777216)]

@[simp] theorem le32Bytes_length (x : UInt32) : (le32Bytes x).length = 4 := rfl

theorem le32_toNat (b₀ b₁ b₂ b₃ : UInt8) :
    (le32 b₀ b₁ b₂ b₃).toNat =
      b₀.toNat + 256 * (b₁.toNat + 256 * (b₂.toNat + 256 * b₃.toNat)) := by
  have h₀ := b₀.toNat_lt
  have h₁ := b₁.toNat_lt
  have h₂ := b₂.toNat_lt
  have h₃ := b₃.toNat_lt
  rw [le32, UInt32.toNat_ofNat']
  omega

theorem le32_of_bytes (x : UInt32) :
    le32 (UInt8.ofNat x.toNat) (UInt8.ofNat (x.toNat / 256))
      (UInt8.ofNat (x.toNat / 65536)) (UInt8.ofNat (x.toNat / 16777216)) = x := by
  have h := x.toNat_lt
  apply UInt32.toNat_inj.mp
  rw [le32_toNat]
  simp only [UInt8.toNat_ofNat']
  omega

end MaglevLb.Bytes
