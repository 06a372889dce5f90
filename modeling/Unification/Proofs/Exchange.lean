import Mathlib.Data.List.Zip
import Unification.Proofs.Decomposition
import Unification.Proofs.Equality

namespace Unification.Goal

open Keyed

def isRigid : Goal → Bool
  | unify a b => a.isWildcard || b.isWildcard || (a.isGround && b.isGround)
  | _ => false

def contended (cfg : Config) : Term → Term → Bool
  | .record es, .record fs =>
    cfg.catchAll.any fun key =>
      (absorbed (fs.lookup key) (extra key es fs)).any (!·.isRigid) &&
        (absorbed (es.lookup key) (extra key fs es)).any (!·.isRigid)
  | _, _ => false

variable {cfg : Config} {a b : Term} {es fs : List (String × Term)}

lemma isRigid_unify : (unify a b).isRigid = true ↔
    a.isWildcard = true ∨ b.isWildcard = true ∨ (a.isGround = true ∧ b.isGround = true) := by
  simp [isRigid, or_assoc]

lemma contended_comm (cfg : Config) (a b : Term) : contended cfg a b = contended cfg b a := by
  cases a <;> cases b <;> simp [contended, Bool.and_comm]

lemma contended_record {key : String} (hc : cfg.catchAll = some key) :
    contended cfg (.record es) (.record fs) = false ↔
      (∀ g ∈ absorbed (fs.lookup key) (extra key es fs), g.isRigid = true) ∨
        ∀ g ∈ absorbed (es.lookup key) (extra key fs es), g.isRigid = true := by
  rw [contended, hc, Option.any_some, Bool.and_eq_false_iff]
  simp only [List.any_eq_false, Bool.not_eq_true, Bool.not_eq_false']

lemma ofRecords_exchange (he : Ordered es) (hf : Ordered fs)
    (h : ∀ g ∈ ofRecords cfg es fs, g.isClash = false) :
    ∃ xs ys ps qs, ofRecords cfg es fs = List.zipWith unify xs ys ++ (ps ++ qs) ∧
      ofRecords cfg fs es = List.zipWith unify ys xs ++ (qs ++ ps) ∧
      (contended cfg (.record es) (.record fs) = false →
        (∀ g ∈ ps, g.isRigid = true) ∨ ∀ g ∈ qs, g.isRigid = true) := by
  rcases ofRecords_eq he hf h with ⟨key, hc, hkey, ha, heq⟩ | ⟨hno, hkeys, heq⟩
  · -- the shared entries come in the order of their keys on either side
    refine ⟨_, _, _, _, heq, ?_, (contended_record hc).mp⟩
    rw [ofRecords_of_key hc hkey.symm, ofOpenRecords_eq_zip hf he ha.symm]
  · refine ⟨values es, values fs, [], [], by simpa using heq, ?_, by simp⟩
    rw [ofRecords_of_no_key fun key hk => (hno key hk).symm, ofClosedRecords_of_keys he hkeys.symm]
    simp

theorem Compares.exchange {gs : List Goal} (h : Compares cfg a b gs) (ha : a.WellFormed)
    (hb : b.WellFormed) (hgs : ∀ g ∈ gs, g.isClash = false) :
    ∃ xs ys ps qs, gs = List.zipWith unify xs ys ++ (ps ++ qs) ∧
      Compares cfg b a (List.zipWith unify ys xs ++ (qs ++ ps)) ∧
      (contended cfg a b = false →
        (∀ g ∈ ps, g.isRigid = true) ∨ ∀ g ∈ qs, g.isRigid = true) := by
  cases h with
  | wildcard_left => exact ⟨[], [], [], [], rfl, .wildcard_right b, by simp⟩
  | wildcard_right => exact ⟨[], [], [], [], rfl, .wildcard_left a, by simp⟩
  | sequences xs ys =>
    obtain ⟨hlen, hzip⟩ := ofSequences_eq_zip hgs
    have hswap : ofSequences ys xs = List.zipWith unify ys xs := if_pos hlen.symm
    refine ⟨xs, ys, [], [], by simpa using hzip, ?_, by simp⟩
    have hturned : Compares cfg (.sequence ys) (.sequence xs) (ofSequences ys xs) := .sequences ys xs
    simpa [hswap] using hturned
  | records es fs =>
    have hes := (Term.wellFormed_record.mp ha).1
    have hfs := (Term.wellFormed_record.mp hb).1
    obtain ⟨xs, ys, ps, qs, heq, hswap, hrigid⟩ := ofRecords_exchange hes hfs hgs
    exact ⟨xs, ys, ps, qs, heq, hswap ▸ .records fs es, hrigid⟩
  | callables c => exact ⟨[], [], [], [], rfl, .callables c, by simp⟩
  | primitives hpq =>
    refine ⟨[], [], [], [], rfl, .primitives ?_, by simp⟩
    exact Primitive.equals_comm _ _ ▸ hpq

lemma mem_zipWith_swap {xs ys : List Term} {g : Goal} (h : g ∈ List.zipWith unify ys xs) :
    ∃ x y, g = unify y x ∧ unify x y ∈ List.zipWith unify xs ys := by
  rw [← List.map_uncurry_zip_eq_zipWith] at h
  obtain ⟨⟨y, x⟩, hyx, rfl⟩ := List.mem_map.mp h
  refine ⟨x, y, rfl, ?_⟩
  rw [← List.map_uncurry_zip_eq_zipWith, List.mem_map]
  exact ⟨(x, y), List.zip_swap ys xs ▸ List.mem_map.mpr ⟨(y, x), hyx, rfl⟩, rfl⟩

end Unification.Goal
