import Mathlib.Tactic.Ring
import Unification.Binary64

namespace Unification.Binary64

lemma magnitude_eq (x : Binary64) : x.magnitude = x.bits.toNat % 2 ^ 63 := rfl

lemma isFinite_iff {x : Binary64} : x.isFinite = true ↔ x.magnitude < 2047 * 2 ^ 52 := by
  rw [isFinite, decide_eq_true_iff]
  rfl

lemma isNaN_eq_false_of_isFinite {x : Binary64} (h : x.isFinite = true) : x.isNaN = false := by
  simp only [isFinite, isNaN, decide_eq_true_iff, decide_eq_false_iff_not] at h ⊢
  omega

/-- The finite number with the magnitude `m`, in units of the least positive one, which is `2 ^ -1074`. -/
def unitsOfMagnitude (m : ℕ) : ℕ :=
  if m / 2 ^ 52 = 0 then m else (2 ^ 52 + m % 2 ^ 52) * 2 ^ (m / 2 ^ 52 - 1)

def units (x : Binary64) : ℤ :=
  if x.bits.toNat < 2 ^ 63 then unitsOfMagnitude x.magnitude else -unitsOfMagnitude x.magnitude

def leastExponent : ℕ := 1074

def unitsPerOne : ℕ := 2 ^ leastExponent

def distance (x : Binary64) (n : ℕ) : ℕ := (x.units - (n * unitsPerOne : ℕ)).natAbs

/-- No finite number is nearer to `n`, and `x` is even if another one is as near. -/
structure IsNearest (x : Binary64) (n : ℕ) : Prop where
  isFinite : x.isFinite = true
  le : ∀ y : Binary64, y.isFinite = true → x.distance n ≤ y.distance n
  even : ∀ y : Binary64, y.isFinite = true → y.distance n = x.distance n → y.units ≠ x.units →
    x.magnitude % 2 = 0

lemma unitsOfMagnitude_normal (e : ℕ) {f : ℕ} (hf : f ≤ 2 ^ 52) :
    unitsOfMagnitude ((e + 1) * 2 ^ 52 + f) = (2 ^ 52 + f) * 2 ^ e := by
  rcases hf.lt_or_eq with hlt | rfl
  · have hdiv : ((e + 1) * 2 ^ 52 + f) / 2 ^ 52 = e + 1 := by omega
    have hmod : ((e + 1) * 2 ^ 52 + f) % 2 ^ 52 = f := by omega
    rw [unitsOfMagnitude, hdiv, hmod, if_neg (Nat.succ_ne_zero e), Nat.add_sub_cancel]
  · -- the carry goes into the exponent
    have hdiv : ((e + 1) * 2 ^ 52 + 2 ^ 52) / 2 ^ 52 = e + 2 := by omega
    have hmod : ((e + 1) * 2 ^ 52 + 2 ^ 52) % 2 ^ 52 = 0 := by omega
    rw [unitsOfMagnitude, hdiv, hmod, if_neg (Nat.succ_ne_zero _), show e + 2 - 1 = e + 1 by omega,
      Nat.pow_succ]
    ring

lemma unitsOfMagnitude_cases (m e : ℕ) :
    unitsOfMagnitude m < 2 ^ 52 * 2 ^ e ∨ ∃ q, unitsOfMagnitude m = q * 2 ^ e := by
  rw [unitsOfMagnitude]
  split
  · have hpos : 0 < 2 ^ e := Nat.two_pow_pos e
    have hle : 2 ^ 52 * 1 ≤ 2 ^ 52 * 2 ^ e := Nat.mul_le_mul_left _ hpos
    omega
  · generalize m / 2 ^ 52 - 1 = d
    rcases Nat.lt_or_ge d e with hlt | hge
    · left
      calc (2 ^ 52 + m % 2 ^ 52) * 2 ^ d
          < 2 ^ 53 * 2 ^ d := Nat.mul_lt_mul_of_pos_right (by omega) (Nat.two_pow_pos d)
        _ = 2 ^ 52 * 2 ^ (d + 1) := by ring
        _ ≤ 2 ^ 52 * 2 ^ e := Nat.mul_le_mul_left _ (Nat.pow_le_pow_right (by omega) hlt)
    · right
      refine ⟨(2 ^ 52 + m % 2 ^ 52) * 2 ^ (d - e), ?_⟩
      rw [Nat.mul_assoc, ← Nat.pow_add, Nat.sub_add_cancel hge]

lemma units_cases (x : Binary64) (e : ℕ) :
    x.units < (2 ^ 52 * 2 ^ e : ℕ) ∨ ∃ q : ℕ, x.units = (q * 2 ^ e : ℕ) := by
  rw [units]
  split
  · rcases unitsOfMagnitude_cases x.magnitude e with h | ⟨q, h⟩
    · exact .inl (Int.ofNat_lt.mpr h)
    · exact .inr ⟨q, congrArg _ h⟩
  · have hpos : 0 < 2 ^ 52 * 2 ^ e := Nat.mul_pos (Nat.two_pow_pos 52) (Nat.two_pow_pos e)
    omega

structure NearestMultiple (q d n : ℕ) : Prop where
  le : ∀ r : ℕ, ((q * d : ℕ) - n : ℤ).natAbs ≤ ((r * d : ℕ) - n : ℤ).natAbs
  even : ∀ r : ℕ, ((r * d : ℕ) - n : ℤ).natAbs = ((q * d : ℕ) - n : ℤ).natAbs → r ≠ q → q % 2 = 0

lemma NearestMultiple.of_le_half {q d n : ℕ} (hle : 2 * ((q * d : ℕ) - n : ℤ).natAbs ≤ d)
    (heven : 2 * ((q * d : ℕ) - n : ℤ).natAbs = d → q % 2 = 0) : NearestMultiple q d n := by
  have hfar (r : ℕ) (hr : r ≠ q) : r * d + d ≤ q * d ∨ q * d + d ≤ r * d := by
    rw [← Nat.succ_mul, ← Nat.succ_mul]
    rcases Nat.lt_or_gt_of_ne hr with h | h
    · exact .inl (Nat.mul_le_mul_right d h)
    · exact .inr (Nat.mul_le_mul_right d h)
  constructor
  · intro r
    by_cases hr : r = q
    · rw [hr]
    · have hrq := hfar r hr
      omega
  · intro r heq hr
    have hrq := hfar r hr
    exact heven (by omega)

lemma NearestMultiple.exact (q : ℕ) {d : ℕ} (hd : 0 < d) : NearestMultiple q d (q * d) :=
  .of_le_half (by simp) fun h => by omega

lemma NearestMultiple.scale {q d n : ℕ} (h : NearestMultiple q d n) {u : ℕ} (hu : 0 < u) :
    NearestMultiple q (d * u) (n * u) := by
  have hscale (r : ℕ) :
      ((r * (d * u) : ℕ) - (n * u : ℕ) : ℤ).natAbs = ((r * d : ℕ) - n : ℤ).natAbs * u := by
    rw [← Int.natAbs_natCast u, ← Int.natAbs_mul, Int.natAbs_natCast]
    congr 1
    push_cast
    ring
  refine ⟨fun r => ?_, fun r heq hne => h.even r ?_ hne⟩
  · rw [hscale, hscale]
    exact Nat.mul_le_mul_right u (h.le r)
  · rw [hscale, hscale] at heq
    exact Nat.eq_of_mul_eq_mul_right hu heq

lemma nearestMultiple_shiftRounded (n k : ℕ) : NearestMultiple (shiftRounded n k) (2 ^ k) n := by
  have hn : n = n / 2 ^ k * 2 ^ k + n % 2 ^ k := (Nat.div_add_mod' n (2 ^ k)).symm
  have hlt : n % 2 ^ k < 2 ^ k := Nat.mod_lt n (Nat.two_pow_pos k)
  have hsucc : (n / 2 ^ k + 1) * 2 ^ k = n / 2 ^ k * 2 ^ k + 2 ^ k := Nat.succ_mul _ _
  simp only [shiftRounded, Nat.shiftRight_eq_div_pow, Nat.one_shiftLeft]
  generalize n / 2 ^ k = q at hn hsucc ⊢
  generalize n % 2 ^ k = r at hn hlt ⊢
  generalize 2 ^ k = d at hn hlt hsucc ⊢
  split
  · exact .of_le_half (by omega) fun h => by omega
  · exact .of_le_half (by omega) fun h => by omega

lemma significand_of_log2_le {n : ℕ} (h : n.log2 ≤ 52) : significand n = n * 2 ^ (52 - n.log2) := by
  rw [significand, if_pos h, Nat.shiftLeft_eq]

lemma significand_of_lt_log2 {n : ℕ} (h : 52 < n.log2) : significand n = shiftRounded n (n.log2 - 52) := by
  rw [significand, if_neg (by omega)]

lemma shiftRounded_cases (n k : ℕ) : shiftRounded n k = n / 2 ^ k ∨ shiftRounded n k = n / 2 ^ k + 1 := by
  simp only [shiftRounded, Nat.shiftRight_eq_div_pow]
  split
  · exact .inr rfl
  · exact .inl rfl

lemma significand_bounds {n : ℕ} (hn : n ≠ 0) : 2 ^ 52 ≤ significand n ∧ significand n ≤ 2 ^ 53 := by
  have hlow : 2 ^ n.log2 ≤ n := Nat.log2_self_le hn
  have hhigh : n < 2 ^ (n.log2 + 1) := Nat.lt_log2_self
  rcases Nat.lt_or_ge 52 n.log2 with h | h
  · obtain ⟨k, hk⟩ : ∃ k, n.log2 = 52 + k := ⟨n.log2 - 52, by omega⟩
    rw [hk, Nat.pow_add] at hlow
    rw [hk, Nat.add_right_comm, Nat.pow_add] at hhigh
    have hq : 2 ^ 52 ≤ n / 2 ^ k := (Nat.le_div_iff_mul_le (Nat.two_pow_pos k)).mpr hlow
    have hq' : n / 2 ^ k < 2 ^ 53 := (Nat.div_lt_iff_lt_mul (Nat.two_pow_pos k)).mpr hhigh
    rw [significand_of_lt_log2 h, hk, Nat.add_sub_cancel_left]
    rcases shiftRounded_cases n k with heq | heq <;> omega
  · obtain ⟨k, hk⟩ : ∃ k, 52 = n.log2 + k := ⟨52 - n.log2, by omega⟩
    have hdouble : n * 2 ^ k ≤ 2 ^ (n.log2 + 1) * 2 ^ k := Nat.mul_le_mul_right _ hhigh.le
    rw [← Nat.pow_add, show n.log2 + 1 + k = 53 by omega] at hdouble
    rw [significand_of_log2_le h, show 52 - n.log2 = k by omega]
    refine ⟨?_, hdouble⟩
    rw [hk, Nat.pow_add]
    exact Nat.mul_le_mul_right _ hlow

lemma unitsPerOne_pos : 0 < unitsPerOne := Nat.two_pow_pos leastExponent

lemma two_pow_mul_unitsPerOne (k : ℕ) : 2 ^ k * unitsPerOne = 2 ^ (k + 1074) :=
  (Nat.pow_add 2 k leastExponent).symm

lemma nearestMultiple_significand (n : ℕ) :
    NearestMultiple (significand n) (2 ^ (n.log2 + 1022)) (n * unitsPerOne) := by
  rcases Nat.lt_or_ge 52 n.log2 with h | h
  · have hround := (nearestMultiple_shiftRounded n (n.log2 - 52)).scale unitsPerOne_pos
    rwa [two_pow_mul_unitsPerOne, show n.log2 - 52 + 1074 = n.log2 + 1022 by omega,
      ← significand_of_lt_log2 h] at hround
  · have hexponent : 52 - n.log2 + (n.log2 + 1022) = leastExponent := by
      rw [leastExponent]
      omega
    have hexact : significand n * 2 ^ (n.log2 + 1022) = n * unitsPerOne := by
      rw [significand_of_log2_le h, Nat.mul_assoc, ← Nat.pow_add, hexponent, unitsPerOne]
    exact hexact ▸ .exact _ (Nat.two_pow_pos _)

variable {n : ℕ}

lemma bits_ofNat (hn : n ≠ 0) (h : n.log2 < 1023) :
    (ofNat n).bits.toNat = (n.log2 + 1022) * 2 ^ 52 + significand n := by
  have hs := (significand_bounds hn).2
  have hlt : (n.log2 + 1022) * 2 ^ 52 + significand n < 2 ^ 64 := by omega
  rw [ofNat, if_neg hn, if_pos (by omega), Nat.shiftLeft_eq]
  exact UInt64.toNat_ofNat_of_lt' hlt

lemma magnitude_ofNat (hn : n ≠ 0) (h : n.log2 < 1023) :
    (ofNat n).magnitude = (n.log2 + 1022) * 2 ^ 52 + significand n := by
  have hs := (significand_bounds hn).2
  rw [magnitude_eq, bits_ofNat hn h]
  omega

lemma units_ofNat (hn : n ≠ 0) (h : n.log2 < 1023) :
    (ofNat n).units = (significand n * 2 ^ (n.log2 + 1022) : ℕ) := by
  obtain ⟨hlow, hhigh⟩ := significand_bounds hn
  obtain ⟨f, hf⟩ : ∃ f, significand n = 2 ^ 52 + f := ⟨significand n - 2 ^ 52, by omega⟩
  have hpos : (ofNat n).bits.toNat < 2 ^ 63 := by
    rw [bits_ofNat hn h]
    omega
  have hmag : (ofNat n).magnitude = (n.log2 + 1022 + 1) * 2 ^ 52 + f := by
    rw [magnitude_ofNat hn h]
    omega
  rw [units, if_pos hpos, hmag, unitsOfMagnitude_normal _ (by omega), hf]

theorem isNearest_ofNat (hn : n ≠ 0) (h : n.log2 < 1023) : (ofNat n).IsNearest n := by
  have hs := significand_bounds hn
  have hnear := nearestMultiple_significand n
  have hunits := units_ofNat hn h
  have hlow : 2 ^ 52 * 2 ^ (n.log2 + 1022) ≤ n * unitsPerOne := by
    rw [← Nat.pow_add, show 52 + (n.log2 + 1022) = n.log2 + 1074 by omega, ← two_pow_mul_unitsPerOne]
    exact Nat.mul_le_mul_right _ (Nat.log2_self_le hn)
  have hbelow := hnear.le (2 ^ 52)
  refine ⟨?_, fun y _ => ?_, fun y _ heq hne => ?_⟩
  · rw [isFinite_iff, magnitude_ofNat hn h]
    omega
  · rw [distance, distance, hunits]
    rcases y.units_cases (n.log2 + 1022) with hy | ⟨q, hy⟩
    · omega
    · rw [hy]
      exact hnear.le q
  · rw [distance, distance, hunits] at heq
    rw [hunits] at hne
    rcases y.units_cases (n.log2 + 1022) with hy | ⟨q, hy⟩
    · omega
    · rw [hy] at heq hne
      have heven := hnear.even q heq fun hq => hne (hq ▸ rfl)
      rw [magnitude_ofNat hn h]
      omega

lemma isFinite_ofNat (h : n.log2 < 1023) : (ofNat n).isFinite = true := by
  by_cases hn : n = 0
  · rw [hn]
    rfl
  · exact (isNearest_ofNat hn h).isFinite

lemma isFinite_neg {x : Binary64} : x.neg.isFinite = x.isFinite := by
  have hmag : x.neg.magnitude = x.magnitude := by
    rw [magnitude_eq, magnitude_eq, neg, UInt64.toNat_add, show (0x8000000000000000 : UInt64).toNat = 2 ^ 63 from rfl]
    omega
  rw [isFinite, hmag, isFinite]

lemma isFinite_ofInt {n : ℤ} (h : n.natAbs.log2 < 1023) : (ofInt n).isFinite = true := by
  rw [ofInt]
  split
  · exact isFinite_ofNat h
  · exact isFinite_neg.trans (isFinite_ofNat h)

end Unification.Binary64
