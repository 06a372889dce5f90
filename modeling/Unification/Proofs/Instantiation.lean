import Unification.Proofs.Solution

namespace Unification.Bindings

open Relation (ReflTransGen TransGen)
open Term (Occurs)

variable {s s₁ s₂ : Bindings} {θ : Variable → Term} {t x : Term} {v w : Variable}

lemma Unfolds.forall₂_apply {ts us : List Term} (h : List.Forall₂ s.Unfolds ts us) :
    List.Forall₂ (fun t u => s.apply t = some u) ts us :=
  h.imp fun _ _ => apply_eq_some_iff.mpr

lemma Acyclic.occurs_instance_iff (h : s.Acyclic) : Occurs w (t.subst s.solution) ↔
    ∃ v, Occurs v t ∧ ReflTransGen s.Depends v w ∧ s.lookup w = none := by
  simp only [← h.occurs_solution_iff]
  exact ⟨Term.occurs_subst, fun ⟨v, hv, hw⟩ => Term.occurs_subst_of_occurs hv hw⟩

lemma subst_solution_of_unbound (h : ∀ v, Occurs v t → s.lookup v = none) : t.subst s.solution = t :=
  (Term.subst_congr fun v hv => solution_of_lookup_eq_none (h v hv)).trans t.subst_variables

lemma Acyclic.isGround_instance_iff (h : s.Acyclic) : (t.subst s.solution).isGround = true ↔
    ∀ v w, Occurs v t → ReflTransGen s.Depends v w → (s.lookup w).isSome := by
  rw [Term.isGround_iff]
  simp only [h.occurs_instance_iff, not_exists, not_and, Option.isSome_iff_ne_none]
  exact forall_comm

theorem apply_normal_form (h : s.Acyclic) (t : Term) :
    ∃ x, s.apply t = some x ∧ (∀ y, s.Unfolds t y ↔ y = x) ∧
      (∀ w, Occurs w x → s.lookup w = none) ∧
      ((∀ v, Occurs v t → s.lookup v = none) → x = t) ∧
      (∀ ts, t = .sequence ts →
        ∃ us, x = .sequence us ∧ List.Forall₂ (fun u y => s.apply u = some y) ts us) ∧
      (∀ es, t = .record es → ∃ fs, x = .record fs ∧ Keyed.keys es = Keyed.keys fs ∧
        List.Forall₂ (fun u y => s.apply u = some y) (Keyed.values es) (Keyed.values fs)) ∧
      (x.isGround = true ↔
        ∀ v w, Occurs v t → ReflTransGen s.Depends v w → (s.lookup w).isSome) := by
  have happly := h.apply_eq_subst t
  have hunfolds := apply_eq_some_iff.mp happly
  refine ⟨t.subst s.solution, happly, fun y => ?_, fun w hw => ?_, subst_solution_of_unbound, ?_, ?_,
    h.isGround_instance_iff⟩
  · rw [← apply_eq_some_iff, happly, Option.some.injEq, eq_comm]
  · obtain ⟨_, _, _, hfree⟩ := h.occurs_instance_iff.mp hw
    exact hfree
  · rintro ts rfl
    cases hunfolds with
    | sequence hts => exact ⟨_, rfl, Unfolds.forall₂_apply hts⟩
  · rintro es rfl
    cases hunfolds with
    | record hkeys hes => exact ⟨_, rfl, hkeys, Unfolds.forall₂_apply hes⟩

section Detour

open Term (sequence record var primitive wildcard)

def detour : Bindings :=
  .several [(⟨0⟩, var ⟨1⟩), (⟨1⟩, record [("k", var ⟨2⟩), ("l", sequence [var ⟨3⟩, var ⟨2⟩])]),
    (⟨2⟩, primitive (.long 7)), (⟨4⟩, wildcard)]

def detourTerm : Term := sequence [var ⟨0⟩, record [("a", var ⟨4⟩), ("b", var ⟨3⟩)]]

def detourEnd : Term :=
  sequence [record [("k", primitive (.long 7)), ("l", sequence [var ⟨3⟩, primitive (.long 7)])],
    record [("a", wildcard), ("b", var ⟨3⟩)]]

lemma acyclic_detour : detour.Acyclic := by
  apply acyclic_of_rank fun v => 3 - v.id
  simp [detour, entries, Occurs]

theorem apply_normal_form_detour :
    detour.Acyclic ∧ detour.apply detourTerm = some detourEnd ∧
      (∀ y, detour.Unfolds detourTerm y ↔ y = detourEnd) ∧
      (∀ w, Occurs w detourEnd → detour.lookup w = none) ∧
      ¬ ∀ v w, Occurs v detourTerm → ReflTransGen detour.Depends v w → (detour.lookup w).isSome := by
  have happly : detour.apply detourTerm = some detourEnd := rfl
  have hvar : detourEnd.isGround ≠ true := by decide
  obtain ⟨x, hx, hunfolds, hfree, -, -, -, hground⟩ := apply_normal_form acyclic_detour detourTerm
  cases happly.symm.trans hx
  exact ⟨acyclic_detour, happly, hunfolds, hfree, fun h => hvar (hground.mpr h)⟩

end Detour

lemma Acyclic.of_subset (h : s₂.Acyclic) (hsub : ∀ v u, s₁.lookup v = some u → s₂.lookup v = some u) :
    s₁.Acyclic := by
  have hdepends : ∀ v w, s₁.Depends v w → s₂.Depends v w := by
    rintro v w ⟨u, hu, hw⟩
    exact ⟨u, hsub v u hu, hw⟩
  exact fun v hv => h v (TransGen.mono hdepends _ _ hv)

lemma Respects.subst_solution (hθ : Respects θ s) (h : s.Acyclic) (t : Term) :
    (t.subst s.solution).subst θ = t.subst θ := by
  have hvar : ∀ v, (s.solution v).subst θ = θ v := by
    intro v
    induction v using h.induction with
    | hP v ih =>
      cases hv : s.lookup v with
      | none => rw [solution_of_lookup_eq_none hv, Term.subst_var]
      | some u =>
        rw [h.respects_solution v u hv, Term.subst_subst, hθ v u hv]
        exact Term.subst_congr fun w hw => ih w ⟨u, hv, hw⟩
  rw [Term.subst_subst]
  exact Term.subst_congr fun v _ => hvar v

theorem apply_absorbs (h : s₂.Acyclic) (hsub : ∀ v u, s₁.lookup v = some u → s₂.lookup v = some u)
    (t : Term) :
    ∃ x y, s₁.apply t = some x ∧ s₂.apply x = some y ∧ s₂.apply t = some y ∧ s₂.apply y = some y := by
  have h₁ := h.of_subset hsub
  have hθ : Respects s₂.solution s₁ := fun v u hu => h.respects_solution v u (hsub v u hu)
  refine ⟨_, _, h₁.apply_eq_subst t, ?_, h.apply_eq_subst t, ?_⟩
  · rw [h.apply_eq_subst, hθ.subst_solution h₁]
  · rw [h.apply_eq_subst, h.respects_solution.subst_solution h]

section Detour

open Term (sequence record var wildcard)

def detourPart : Bindings := .several [(⟨0⟩, var ⟨1⟩), (⟨4⟩, wildcard)]

theorem apply_absorbs_detour :
    detour.Acyclic ∧ (∀ v u, detourPart.lookup v = some u → detour.lookup v = some u) ∧
      detourPart.apply detourTerm =
        some (sequence [var ⟨1⟩, record [("a", wildcard), ("b", var ⟨3⟩)]]) ∧
      detour.apply (sequence [var ⟨1⟩, record [("a", wildcard), ("b", var ⟨3⟩)]]) = some detourEnd ∧
      detour.apply detourTerm = some detourEnd ∧ detour.apply detourEnd = some detourEnd := by
  have hsub : ∀ v u, detourPart.lookup v = some u → detour.lookup v = some u := by
    intro v u hu
    have hmem : (v = ⟨0⟩ ∧ u = var ⟨1⟩) ∨ (v = ⟨4⟩ ∧ u = wildcard) := by
      simpa [detourPart, entries] using mem_entries_of_lookup hu
    rcases hmem with ⟨rfl, rfl⟩ | ⟨rfl, rfl⟩ <;> rfl
  have hpart : detourPart.apply detourTerm =
      some (sequence [var ⟨1⟩, record [("a", wildcard), ("b", var ⟨3⟩)]]) := rfl
  have hend : detour.apply detourTerm = some detourEnd := rfl
  obtain ⟨x, y, hx, hxy, hy, hyy⟩ := apply_absorbs acyclic_detour hsub detourTerm
  cases hpart.symm.trans hx
  cases hend.symm.trans hy
  exact ⟨acyclic_detour, hsub, hpart, hxy, hend, hyy⟩

end Detour

end Unification.Bindings
