import Mathlib

/-!
Contract: page frames and the constants of `page.h`, `buddy.h` and `mm.h`.

The pages form one array, so a `struct page *` is written as its index, the
frame number; pointer arithmetic on it is addition of frame numbers.
-/

namespace PrettyOS.Mm

def pageSize : Nat := 4096

def wordSize : Nat := 2 ^ 32

def nrMemLists : Nat := 10

def sysReserved : Nat := 0x1
def sysRom : Nat := 0x2
def sysRam : Nat := 0x4

def mapNr (addr : Nat) : Nat := addr / pageSize

structure Page where
  address : Nat
  flags : Nat
deriving DecidableEq, Repr

def power : Nat → Nat
  | 0 => 1
  | index + 1 => power index * 2 % wordSize

lemma power_eq_two_pow {index : Nat} (small : index < 32) : power index = 2 ^ index := by
  induction index with
  | zero => rfl
  | succ index ih =>
    have below : 2 ^ (index + 1) < wordSize := Nat.pow_lt_pow_right (by decide) small
    rw [power, ih (by omega), ← pow_succ, Nat.mod_eq_of_lt below]

lemma power_of_lt_nrMemLists {order : Nat} (below : order < nrMemLists) : power order = 2 ^ order :=
  power_eq_two_pow (lt_trans below (by decide))

lemma two_pow_le_of_order {order : Nat} (below : order < nrMemLists) : 2 ^ order ≤ 512 :=
  (Nat.pow_le_pow_right (by decide) (Nat.le_of_lt_succ below)).trans (by decide)

end PrettyOS.Mm
