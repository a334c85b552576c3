/-
Numbers as bytes, least or most significant byte first, and runs of bytes of a fixed
length: writing a number and reading it back, and reading bytes and writing them back.
-/
import Mathlib.Data.Nat.Basic
import Mathlib.Data.List.Basic
import Mathlib.Algebra.Order.Group.Nat
import Mathlib.Tactic.Ring

namespace Opensesh

open List

/-- The low `count` bytes of a number, least significant first. -/
def toLe : Nat → Nat → List UInt8
  | 0, _ => []
  | count + 1, n => UInt8.ofNat n :: toLe count (n / 256)

/-- The number in bytes, least significant first. -/
def ofLe : List UInt8 → Nat
  | [] => 0
  | byte :: rest => byte.toNat + 256 * ofLe rest

example : ofLe (toLe 2 513) = 513 := by simp [toLe, ofLe]

/-- The low `count` bytes of a number, most significant first. -/
def toBe (count n : Nat) : List UInt8 := (toLe count n).reverse

/-- The number in bytes, most significant first. -/
def ofBe (bytes : List UInt8) : Nat := ofLe bytes.reverse

@[simp] theorem length_toLe (count n : Nat) : (toLe count n).length = count := by
  induction count generalizing n with
  | zero => rfl
  | succ count ih => rw [toLe, length_cons, ih]

@[simp] theorem length_toBe (count n : Nat) : (toBe count n).length = count := by
  rw [toBe, length_reverse, length_toLe]

theorem ofLe_lt (bytes : List UInt8) : ofLe bytes < 256 ^ bytes.length := by
  induction bytes with
  | nil => exact Nat.one_pos
  | cons byte rest ih =>
    have hbyte := byte.toNat_lt
    rw [ofLe, length_cons, Nat.pow_succ]
    omega

theorem ofLe_toLe {count n : Nat} (h : n < 256 ^ count) : ofLe (toLe count n) = n := by
  induction count generalizing n with
  | zero =>
    rw [Nat.pow_zero] at h
    rw [toLe, ofLe]
    omega
  | succ count ih =>
    rw [Nat.pow_succ] at h
    rw [toLe, ofLe, ih (by omega), UInt8.toNat_ofNat']
    omega

theorem toLe_ofLe (bytes : List UInt8) : toLe bytes.length (ofLe bytes) = bytes := by
  induction bytes with
  | nil => rfl
  | cons byte rest ih =>
    have hbyte := byte.toNat_lt
    have hlow : UInt8.ofNat (byte.toNat + 256 * ofLe rest) = byte := by
      apply UInt8.toNat_inj.mp
      rw [UInt8.toNat_ofNat']
      omega
    have hhigh : (byte.toNat + 256 * ofLe rest) / 256 = ofLe rest := by omega
    rw [ofLe, length_cons, toLe, hlow, hhigh, ih]

theorem ofBe_lt (bytes : List UInt8) : ofBe bytes < 256 ^ bytes.length := by
  rw [ofBe, ← length_reverse]
  exact ofLe_lt _

theorem ofBe_toBe {count n : Nat} (h : n < 256 ^ count) : ofBe (toBe count n) = n := by
  rw [ofBe, toBe, reverse_reverse, ofLe_toLe h]

theorem toBe_ofBe (bytes : List UInt8) : toBe bytes.length (ofBe bytes) = bytes := by
  rw [toBe, ofBe, ← length_reverse, toLe_ofLe, reverse_reverse]

/-- Bytes of a fixed number. -/
@[ext] structure Block (n : Nat) where
  bytes : List UInt8
  size : bytes.length = n
  deriving DecidableEq

/-- The block of these bytes, when there are as many as it takes. -/
def Block.ofBytes (n : Nat) (bytes : List UInt8) : Option (Block n) :=
  if h : bytes.length = n then some ⟨bytes, h⟩ else none

theorem Block.ofBytes_bytes {n : Nat} (block : Block n) :
    Block.ofBytes n block.bytes = some block := by
  rw [Block.ofBytes, dif_pos block.size]

theorem Block.ofBytes_eq_some {n : Nat} {bytes : List UInt8} {block : Block n} :
    Block.ofBytes n bytes = some block ↔ bytes = block.bytes := by
  constructor
  · intro h
    rw [Block.ofBytes] at h
    split at h
    · rw [← Option.some.inj h]
    · cases h
  · rintro rfl
    exact block.ofBytes_bytes

end Opensesh
