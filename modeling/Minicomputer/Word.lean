/-!
# Words, bytes and nibbles

The machine works on 16-bit words. A word is stored as two bytes, high byte first, and an
instruction word is read as four nibbles. Splitting and joining are ordinary arithmetic on `Nat`,
so that the laws below are linear arithmetic.
-/

set_option autoImplicit false

namespace Minicomputer

abbrev Byte := UInt8
abbrev Word := UInt16

namespace Word

/-- Nibble `0` is the least significant one. -/
def nibble (w : Word) : Fin 4 → Nat
  | 0 => w.toNat % 16
  | 1 => w.toNat / 16 % 16
  | 2 => w.toNat / 256 % 16
  | 3 => w.toNat / 4096

/-- The most significant nibble comes first; each argument is cut to four bits. -/
def ofNibbles (a b c d : Nat) : Word :=
  UInt16.ofNat (a % 16 * 4096 + b % 16 * 256 + c % 16 * 16 + d % 16)

def high (w : Word) : Byte := UInt8.ofNat (w.toNat / 256)

def low (w : Word) : Byte := UInt8.ofNat w.toNat

def bytes (w : Word) : List Byte := [w.high, w.low]

def ofBytes (high low : Byte) : Word := UInt16.ofNat (high.toNat * 256 + low.toNat)

/-- The word read as a two's complement number. -/
def signed (w : Word) : Int := if w.toNat < 32768 then w.toNat else (w.toNat : Int) - 65536

/-- The word congruent to `n` modulo `2 ^ 16`. -/
def ofInt (n : Int) : Word := UInt16.ofNat (n % 65536).toNat

/-- A byte read as a two's complement number and widened. -/
def signExtend (b : Byte) : Word :=
  if b.toNat < 128 then UInt16.ofNat b.toNat else UInt16.ofNat (b.toNat + 65280)

theorem toNat_lt (w : Word) : w.toNat < 65536 := UInt16.toNat_lt w

theorem toNat_ofNibbles (a b c d : Nat) :
    (ofNibbles a b c d).toNat = a % 16 * 4096 + b % 16 * 256 + c % 16 * 16 + d % 16 := by
  simp only [ofNibbles, UInt16.toNat_ofNat']
  omega

theorem nibble_lt (w : Word) (i : Fin 4) : w.nibble i < 16 := by
  have h := toNat_lt w
  match i with
  | 0 | 1 | 2 | 3 => simp only [nibble]; omega

theorem ofNibbles_nibble (w : Word) :
    ofNibbles (w.nibble 3) (w.nibble 2) (w.nibble 1) (w.nibble 0) = w := by
  have h := toNat_lt w
  apply UInt16.toNat_inj.mp
  rw [toNat_ofNibbles]
  simp only [nibble]
  omega

theorem ofBytes_high_low (w : Word) : ofBytes w.high w.low = w := by
  have h := toNat_lt w
  apply UInt16.toNat_inj.mp
  simp only [ofBytes, high, low, UInt16.toNat_ofNat', UInt8.toNat_ofNat']
  omega

theorem toNat_ofInt {n : Int} (low : 0 ≤ n) (high : n < 65536) : (ofInt n).toNat = n.toNat := by
  unfold ofInt
  rw [UInt16.toNat_ofNat']
  omega

theorem signed_ofInt (n : Int) (low : -32768 ≤ n) (high : n < 32768) : (ofInt n).signed = n := by
  unfold signed ofInt
  have h : (n % 65536).toNat < 65536 := by omega
  simp only [UInt16.toNat_ofNat', Nat.mod_eq_of_lt h]
  split <;> omega

theorem ofInt_toNat (w : Word) : ofInt w.toNat = w := by
  have h := toNat_lt w
  apply UInt16.toNat_inj.mp
  rw [toNat_ofInt (by omega) (by omega)]
  rfl

theorem ofInt_signed (w : Word) : ofInt w.signed = w := by
  have h := toNat_lt w
  apply UInt16.toNat_inj.mp
  unfold signed ofInt
  simp only [UInt16.toNat_ofNat']
  split <;> omega

theorem toInt_toInt16 (w : Word) : w.toInt16.toInt = w.signed := by
  have hw := toNat_lt w
  have hcond : w.toInt16.toInt = if 2 * w.toNat < 65536 then (w.toNat : Int) else w.toNat - 65536 :=
    BitVec.toInt_eq_toNat_cond w.toBitVec
  rw [hcond]
  unfold signed
  split <;> split <;> omega

theorem signed_toUInt16 (i : Int16) : signed i.toUInt16 = i.toInt :=
  (toInt_toInt16 i.toUInt16).symm

end Word

end Minicomputer
