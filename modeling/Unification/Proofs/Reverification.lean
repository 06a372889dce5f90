import Unification.Proofs.Passes

namespace Unification

variable {req : Requirements} {cfg : Config} {s : Bindings} {a b : Term}

theorem unify_apply_eq_empty (ha : a.WellFormed) (hb : b.WellFormed) (hna : a.NaNFree)
    (hnb : b.NaNFree) (h : unify req cfg a b = .unified s) (hs : s.Acyclic) (hc : s.Closed) :
    ∃ x y, s.apply a = some x ∧ s.apply b = some y ∧ unify req cfg x y = .unified .empty := by
  obtain ⟨tr, hrun, rfl⟩ := unify_eq_unified_iff.mp h
  have hp := Term.hereditary_wellFormed.and (Term.hereditary_forall_parts (·.isNaN = false))
  have hvalues := (hrun.all hp (Pending.all_start ⟨ha, hna⟩ ⟨hb, hnb⟩)).values
  have hnan := hs.nanFree_solution fun v t ht => (hvalues v t ht).2.2
  have hwf := hs.wellFormed_solution fun v t ht => (hvalues v t ht).2.1
  have hself : ∀ v t, tr.bindings.lookup v = some t →
      (Goal.unify (t.subst tr.bindings.solution) (t.subst tr.bindings.solution)).Passes cfg := by
    intro v t ht
    have hground := hs.isGround_solution hc (Option.isSome_of_eq_some ht)
    rw [← hs.respects_solution v t ht]
    exact .refl (hwf v) hground (hnan v)
  have hgoal := hrun.holds Term.hereditary_wellFormed (Goal.transports_passes cfg hwf)
    (Pending.all_start ha hb) hs.respects_solution hself _ List.mem_cons_self
  exact ⟨_, _, hs.apply_eq_subst a, hs.apply_eq_subst b, Goal.unify_eq_empty_of_passes hgoal⟩

section Absorbed

open Term (sequence record var primitive wildcard)

def absorbedLeft : Term :=
  sequence [record [("_", var ⟨0⟩), ("p", primitive (.long 1))], wildcard, var ⟨2⟩]

def absorbedRight : Term :=
  sequence [record [("p", var ⟨1⟩), ("q", sequence [var ⟨1⟩]), ("r", sequence [primitive (.long 1)])],
    var ⟨2⟩, wildcard]

def absorbedBindings : Bindings :=
  .several [(⟨1⟩, primitive (.long 1)), (⟨0⟩, sequence [var ⟨1⟩])]

lemma acyclic_absorbedBindings : absorbedBindings.Acyclic := by
  apply Bindings.acyclic_of_rank fun v => 1 - v.id
  simp [absorbedBindings, Bindings.entries, Term.Occurs]

lemma closed_absorbedBindings : absorbedBindings.Closed := by
  apply Bindings.closed_of_entries
  simp [absorbedBindings, Bindings.entries, Term.Occurs, Bindings.lookup]

theorem unify_apply_eq_empty_absorbed :
    absorbedLeft.WellFormed ∧ absorbedRight.WellFormed ∧ absorbedLeft.NaNFree ∧
      absorbedRight.NaNFree ∧
      unify (fun _ => none) .standard absorbedLeft absorbedRight = .unified absorbedBindings ∧
      absorbedBindings.Acyclic ∧ absorbedBindings.Closed ∧
      ∃ x y, absorbedBindings.apply absorbedLeft = some x ∧
        absorbedBindings.apply absorbedRight = some y ∧
        unify (fun _ => none) .standard x y = .unified .empty := by
  have ha : absorbedLeft.WellFormed := by decide
  have hb : absorbedRight.WellFormed := by decide
  have hna : absorbedLeft.NaNFree := by decide
  have hnb : absorbedRight.NaNFree := by decide
  have hs := acyclic_absorbedBindings
  have hc := closed_absorbedBindings
  exact ⟨ha, hb, hna, hnb, rfl, hs, hc, unify_apply_eq_empty ha hb hna hnb rfl hs hc⟩

end Absorbed

end Unification
