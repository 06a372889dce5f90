import Unification.Proofs.DepthBound
import Unification.Proofs.Equality
import Unification.Proofs.Instances

namespace Unification

open Goal (Holds)

variable {req : Requirements} {cfg : Config} {s : Bindings} {θ : Variable → Term}

structure Term.Sharp (cfg : Config) (t : Term) : Prop extends Exact cfg t where
  wildcardFree : t.WildcardFree

lemma Term.hereditary_sharp (cfg : Config) : Hereditary (Sharp cfg) where
  item h ht := ⟨(hereditary_exact cfg).item h.toExact ht,
    (hereditary_forall_parts _).item h.wildcardFree ht⟩
  entry h he := ⟨(hereditary_exact cfg).entry h.toExact he,
    (hereditary_forall_parts _).entry h.wildcardFree he⟩

lemma Term.Strict.sharp {t : Term} (h : t.Strict cfg) : t.Sharp cfg := ⟨h.exact, h.wildcardFree⟩

lemma ofRecords_eq_of_exact {es fs : List (String × Term)} (he : (Term.record es).Exact cfg)
    (hf : (Term.record fs).Exact cfg) (h : ∀ g ∈ Goal.ofRecords cfg es fs, g.isClash = false) :
    Keyed.keys es = Keyed.keys fs ∧
      Goal.ofRecords cfg es fs = List.zipWith .unify (Keyed.values es) (Keyed.values fs) := by
  have hes := (Term.wellFormed_record.mp he.wellFormed).1
  have hfs := (Term.wellFormed_record.mp hf.wellFormed).1
  rcases Goal.ofRecords_eq hes hfs h with ⟨key, hc, hkey, _⟩ | ⟨_, hzip⟩
  · rw [he.contains_eq_false hc, hf.contains_eq_false hc] at hkey
    simp at hkey
  · exact hzip

lemma transports_equals_of_sharp (cfg : Config) (θ : Variable → Term) :
    Transports cfg (Term.Sharp cfg) θ fun x y => x.equals y = true where
  symm _ _ := Term.equals_symm
  compare {a b gs} ha hb h hgs := by
    have hclash : ∀ g ∈ gs, g.isClash = false := fun g hg => (hgs g hg).not_clash
    cases h with
    | wildcard_left b => cases ha.wildcardFree _ (Term.self_mem_parts _)
    | wildcard_right a => cases hb.wildcardFree _ (Term.self_mem_parts _)
    | sequences xs ys =>
      obtain ⟨hlen, hzip⟩ := Goal.ofSequences_eq_zip hclash
      have hxy := Goal.forall_mem_zipWith_unify hlen fun x y hg => hgs _ (hzip ▸ hg)
      rw [Term.subst_sequence, Term.subst_sequence, Term.equals_sequence, List.forall₂_map_left_iff,
        List.forall₂_map_right_iff]
      exact hxy
    | records es fs =>
      obtain ⟨hkeys, hzip⟩ := ofRecords_eq_of_exact ha.toExact hb.toExact hclash
      have hlen : (Keyed.values es).length = (Keyed.values fs).length := by
        simpa [Keyed.keys, Keyed.values] using congrArg List.length hkeys
      have hxy := Goal.forall_mem_zipWith_unify hlen fun x y hg => hgs _ (hzip ▸ hg)
      rw [Term.subst_record, Term.subst_record, Term.equals_record, Keyed.keys_mapValues,
        Keyed.keys_mapValues, Keyed.values_mapValues, Keyed.values_mapValues,
        List.forall₂_map_left_iff, List.forall₂_map_right_iff]
      exact ⟨hkeys, hxy⟩
    | callables c => simp [Term.equals]
    | primitives hpq => exact hpq

lemma transports_equals (cfg : Config) (θ : Variable → Term) :
    Transports cfg (Term.Strict cfg) θ fun x y => x.equals y = true :=
  (transports_equals_of_sharp cfg θ).mono fun _ => Term.Strict.sharp

theorem apply_equals_of_unify {a b : Term} (ha : a.Strict cfg) (hb : b.Strict cfg)
    (h : unify req cfg a b = .unified s) (hs : s.Acyclic) :
    ∃ x y, s.apply a = some x ∧ s.apply b = some y ∧ x.equals y = true := by
  obtain ⟨tr, hrun, rfl⟩ := unify_eq_unified_iff.mp h
  have hp := Term.hereditary_strict cfg
  have hstart := Pending.all_start ha hb
  have hvalues := (hrun.all hp hstart).values
  have hnan := hs.nanFree_solution fun v t ht => (hvalues v t ht).2.nanFree
  have hgoal := hrun.holds hp (transports_equals cfg _) hstart hs.respects_solution
    (fun v t ht => Term.equals_refl (Term.nanFree_subst (hvalues v t ht).2.nanFree fun w _ => hnan w))
    _ List.mem_cons_self
  exact ⟨_, _, hs.apply_eq_subst a, hs.apply_eq_subst b, hgoal⟩

section Crossed

open Term (sequence record var primitive)

def crossedLeft : Term := sequence [var ⟨0⟩, var ⟨1⟩, var ⟨2⟩, record [("k", var ⟨0⟩)]]

def crossedRight : Term :=
  sequence [sequence [var ⟨1⟩], primitive (.float ⟨0⟩), var ⟨1⟩,
    record [("k", sequence [primitive (.float ⟨0x8000000000000000⟩)])]]

def crossedBindings : Bindings :=
  .several [(⟨0⟩, sequence [var ⟨1⟩]), (⟨1⟩, primitive (.float ⟨0⟩)), (⟨2⟩, primitive (.float ⟨0⟩))]

def crossedRequirements : Requirements := fun v => if v = ⟨0⟩ then some (.type .sequence) else none

lemma acyclic_crossedBindings : crossedBindings.Acyclic := by
  apply Bindings.acyclic_of_rank fun v => 1 - v.id
  simp [crossedBindings, Bindings.entries, Term.Occurs]

theorem apply_equals_of_unify_crossed :
    crossedLeft.Strict .standard ∧ crossedRight.Strict .standard ∧
      unify crossedRequirements .standard crossedLeft crossedRight = .unified crossedBindings ∧
      crossedBindings.Acyclic ∧
      ∃ x y, crossedBindings.apply crossedLeft = some x ∧
        crossedBindings.apply crossedRight = some y ∧ x.equals y = true := by
  have ha : crossedLeft.Strict .standard := by decide
  have hb : crossedRight.Strict .standard := by decide
  have h : unify crossedRequirements .standard crossedLeft crossedRight = .unified crossedBindings := rfl
  have hs := acyclic_crossedBindings
  exact ⟨ha, hb, h, hs, apply_equals_of_unify ha hb h hs⟩

end Crossed

end Unification
