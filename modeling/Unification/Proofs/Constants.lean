import Unification.Proofs.Passes
import Unification.Proofs.Soundness
import Unification.Proofs.Termination

namespace Unification

structure Term.Constant (cfg : Config) (t : Term) : Prop extends Sharp cfg t where
  ground : t.isGround = true

variable {req : Requirements} {cfg : Config} {a b x y : Term}

namespace Term

instance (cfg : Config) : DecidablePred (Constant cfg) := fun t =>
  decidable_of_iff ((t.Exact cfg ∧ t.WildcardFree) ∧ t.isGround = true)
    ⟨fun ⟨⟨he, hw⟩, hg⟩ => ⟨⟨he, hw⟩, hg⟩, fun h => ⟨⟨h.toExact, h.wildcardFree⟩, h.ground⟩⟩

lemma hereditary_constant (cfg : Config) : Hereditary (Constant cfg) where
  item h ht := ⟨(hereditary_sharp cfg).item h.toSharp ht, hereditary_isGround.item h.ground ht⟩
  entry h he := ⟨(hereditary_sharp cfg).entry h.toSharp he, hereditary_isGround.entry h.ground he⟩

lemma Constant.passes_of_equals (hx : x.Constant cfg) (hy : y.Constant cfg) (h : x.equals y = true) :
    (Goal.unify x y).Passes cfg := by
  induction x using induction_children generalizing y with
  | sequence xs ih =>
    cases y with
    | sequence ys =>
      have hxy := equals_sequence.mp h
      refine .compare (.sequences xs ys) fun g hg => ?_
      rw [Goal.ofSequences, if_pos hxy.length_eq] at hg
      obtain ⟨x, hmem, y, hmem', hxy, rfl⟩ := Goal.mem_zipWith_unify_of_forall hxy hg
      exact ih x hmem ((hereditary_constant cfg).item hx hmem) ((hereditary_constant cfg).item hy hmem') hxy
    | _ => cases h
  | record es ih =>
    cases y with
    | record fs =>
      obtain ⟨hkeys, hxy⟩ := equals_record.mp h
      refine .compare (.records es fs) fun g hg => ?_
      rw [Goal.ofRecords_of_no_key fun key hk => ⟨hx.contains_eq_false hk, hy.contains_eq_false hk⟩,
        Goal.ofClosedRecords_of_keys (wellFormed_record.mp hy.wellFormed).1 hkeys] at hg
      obtain ⟨_, hmem, _, hmem', hxy, rfl⟩ := Goal.mem_zipWith_unify_of_forall hxy hg
      obtain ⟨e, he, rfl⟩ := mem_values.mp hmem
      obtain ⟨f, hf, rfl⟩ := mem_values.mp hmem'
      exact ih e he ((hereditary_constant cfg).entry hx he) ((hereditary_constant cfg).entry hy hf) hxy
    | _ => cases h
  | primitive p =>
    cases y with
    | primitive q => exact .compare (.primitives h) (by simp)
    | _ => cases h
  | callable c =>
    cases y with
    | callable d =>
      obtain rfl : c = d := by simpa [equals] using h
      exact .compare (.callables c) (by simp)
    | _ => cases h
  | var v => cases hx.ground
  | wildcard => cases hx.wildcardFree _ (self_mem_parts _)

theorem Constant.passes_iff_equals (hx : x.Constant cfg) (hy : y.Constant cfg) :
    (Goal.unify x y).Passes cfg ↔ x.equals y = true := by
  refine ⟨fun h => ?_, hx.passes_of_equals hy⟩
  have hall : (Goal.unify x y).All (Sharp cfg) := ⟨hx.toSharp, hy.toSharp⟩
  have hxy := h.holds (hereditary_sharp cfg) (transports_equals_of_sharp cfg var) hall
  simpa only [Goal.Holds, subst_variables] using hxy

end Term

theorem unify_succeeded_iff_equals (req : Requirements) (ha : a.Constant cfg) (hb : b.Constant cfg) :
    ((unify req cfg a b).succeeded = true ↔ a.equals b = true) ∧
      (∀ s, unify req cfg a b = .unified s → s = .empty) ∧ unify req cfg a b ≠ .endless := by
  have hpasses : (unify req cfg a b).succeeded = true ↔ (Goal.unify a b).Passes cfg :=
    Goal.unify_succeeded_iff_passes ha.ground hb.ground
  refine ⟨hpasses.trans (ha.passes_iff_equals hb), fun s h => ?_, unify_ne_endless_of_isGround hb.ground⟩
  have hempty : unify req cfg a b = .unified .empty :=
    Goal.unify_eq_empty_of_passes (hpasses.mp (Outcome.succeeded_iff.mpr ⟨s, h⟩))
  exact Outcome.unified.inj (h.symm.trans hempty)

section Readings

open Term (sequence record callable primitive)

def reading (p : Primitive) : Term := sequence [primitive p, record [("unit", callable ⟨0⟩)]]

def zeroReading : Term := reading (.float ⟨0⟩)

def negativeZeroReading : Term := reading (.float ⟨0x8000000000000000⟩)

def countReading : Term := reading (.long 0)

def lostReading : Term := reading (.float ⟨0x7ff8000000000000⟩)

theorem unify_succeeded_iff_equals_readings :
    zeroReading.Constant .standard ∧ negativeZeroReading.Constant .standard ∧
      countReading.Constant .standard ∧ lostReading.Constant .standard ∧
      (unify (fun _ => none) .standard zeroReading negativeZeroReading).succeeded = true ∧
      (unify (fun _ => none) .standard zeroReading countReading).succeeded ≠ true ∧
      (unify (fun _ => none) .standard lostReading lostReading).succeeded ≠ true := by
  have hzero : zeroReading.Constant .standard := by decide
  have hnegative : negativeZeroReading.Constant .standard := by decide
  have hcount : countReading.Constant .standard := by decide
  have hlost : lostReading.Constant .standard := by decide
  have hequal : zeroReading.equals negativeZeroReading = true := by decide
  have hkind : zeroReading.equals countReading ≠ true := by decide
  have hnan : lostReading.equals lostReading ≠ true := by decide
  exact ⟨hzero, hnegative, hcount, hlost,
    (unify_succeeded_iff_equals _ hzero hnegative).1.mpr hequal,
    fun h => hkind ((unify_succeeded_iff_equals _ hzero hcount).1.mp h),
    fun h => hnan ((unify_succeeded_iff_equals _ hlost hlost).1.mp h)⟩

end Readings

end Unification
