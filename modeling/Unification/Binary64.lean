/-! Double-precision floating-point numbers, kept as their interchange bit patterns. -/

namespace Unification

structure Binary64 where
  bits : UInt64
deriving DecidableEq

namespace Binary64

def magnitude (x : Binary64) : Nat := x.bits.toNat % (1 <<< 63)

def infinityMagnitude : Nat := 2047 <<< 52

def isNaN (x : Binary64) : Bool := infinityMagnitude < x.magnitude

def isFinite (x : Binary64) : Bool := x.magnitude < infinityMagnitude

def isZero (x : Binary64) : Bool := x.magnitude == 0

def equals (x y : Binary64) : Bool :=
  !x.isNaN && !y.isNaN && (x.bits == y.bits || (x.isZero && y.isZero))

def shiftRounded (n k : Nat) : Nat :=
  let q := n >>> k
  let r := n % (1 <<< k)
  if 2 * r > 1 <<< k ∨ (2 * r = 1 <<< k ∧ q % 2 = 1) then q + 1 else q

/-- The significand of `n > 0` as a number from `2 ^ 52` to `2 ^ 53`; the upper end arises when
rounding carries, and then adds one to the exponent field. -/
def significand (n : Nat) : Nat :=
  if n.log2 ≤ 52 then n <<< (52 - n.log2) else shiftRounded n (n.log2 - 52)

def ofNat (n : Nat) : Binary64 :=
  if n = 0 then ⟨0⟩
  else if n.log2 < 1024 then ⟨UInt64.ofNat ((n.log2 + 1022) <<< 52 + significand n)⟩
  else ⟨UInt64.ofNat infinityMagnitude⟩

def nan : Binary64 := ⟨0x7ff8000000000000⟩

def neg (x : Binary64) : Binary64 := ⟨x.bits + 0x8000000000000000⟩

def ofInt (n : Int) : Binary64 := if 0 ≤ n then ofNat n.natAbs else (ofNat n.natAbs).neg

theorem equals_comm (x y : Binary64) : x.equals y = y.equals x := by
  simp only [equals, Bool.and_comm, BEq.comm (a := x.bits)]

theorem equals_self (x : Binary64) : x.equals x = !x.isNaN := by
  simp [equals]

example : (ofNat 1).bits = 0x3ff0000000000000 := by decide
example : (ofNat (2 ^ 64 - 1)).bits = 0x43f0000000000000 := by decide
example : (ofNat (2 ^ 53 + 1)).bits = 0x4340000000000000 := by decide

end Binary64

end Unification
