import Mathlib.Tactic.Common
import PrettyOS.Lib.Bitmap
import PrettyOS.Library.Cells

/-!
Contract: little-endian words in a memory of bytes.
-/

namespace PrettyOS.Lib

open Library

variable {mem other : Nat → Byte} {a b address value : Nat}

/-- The `unsigned short` at an address. -/
def word16 (mem : Nat → Byte) (address : Nat) : Nat :=
  (mem address).toNat + 2 ^ 8 * (mem (address + 1)).toNat

/-- The `unsigned int` at an address. -/
def word32 (mem : Nat → Byte) (address : Nat) : Nat :=
  word16 mem address + 2 ^ 16 * word16 mem (address + 2)

lemma word16_congr
    (same : ∀ k < 2, mem (a + k) = other (b + k)) : word16 mem a = word16 other b := by
  unfold word16
  rw [show mem a = other b from same 0 (by decide), same 1 (by decide)]

lemma word32_congr
    (same : ∀ k < 4, mem (a + k) = other (b + k)) : word32 mem a = word32 other b := by
  unfold word32
  congr 1
  · exact word16_congr fun k small => same k (by omega)
  congr 1
  refine word16_congr fun k small => ?_
  rw [Nat.add_assoc, Nat.add_assoc]
  exact same (2 + k) (by omega)

def byteOf (value i : Nat) : Byte := BitVec.ofNat 8 (value / 2 ^ (8 * i))

/-- The memory after the lowest `length` bytes of a value are stored. -/
def store (mem : Nat → Byte) (address length value : Nat) : Nat → Byte :=
  overwrite mem address length (byteOf value)

lemma store_of_outside {length other : Nat} (out : other < address ∨ address + length ≤ other) :
    store mem address length value other = mem other :=
  overwrite_of_outside out

lemma toNat_byteOf (value i : Nat) : (byteOf value i).toNat = value / 2 ^ (8 * i) % 2 ^ 8 :=
  BitVec.toNat_ofNat _ _

lemma word16_store (small : value < 2 ^ 16) :
    word16 (store mem address 2 value) address = value := by
  have byte : ∀ k < 2, store mem address 2 value (address + k) = byteOf value k :=
    fun _ inside => overwrite_add inside
  unfold word16
  rw [show store mem address 2 value address = byteOf value 0 from byte 0 (by decide),
    byte 1 (by decide), toNat_byteOf, toNat_byteOf]
  omega

lemma word32_store (small : value < 2 ^ 32) :
    word32 (store mem address 4 value) address = value := by
  have byte : ∀ k < 4, store mem address 4 value (address + k) = byteOf value k :=
    fun _ inside => overwrite_add inside
  unfold word32 word16
  rw [show store mem address 4 value address = byteOf value 0 from byte 0 (by decide),
    Nat.add_assoc, byte 1 (by decide), byte 2 (by decide), byte (2 + 1) (by decide),
    toNat_byteOf, toNat_byteOf, toNat_byteOf, toNat_byteOf]
  omega

end PrettyOS.Lib
