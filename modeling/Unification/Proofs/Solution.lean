import Unification.Proofs.Unfolding

namespace Unification.Bindings

open Relation (ReflTransGen)
open Term (Occurs)

variable {s : Bindings} {θ : Variable → Term} {t : Term}

lemma unfolds_subst (h : ∀ v, Occurs v t → s.Unfolds (.var v) (θ v)) : s.Unfolds t (t.subst θ) := by
  induction t using Term.induction_children with
  | sequence ts ih =>
    rw [Term.subst_sequence]
    refine .sequence ?_
    rw [List.forall₂_map_right_iff, List.forall₂_same]
    exact fun t ht => ih t ht fun v hv => h v (Term.occurs_sequence.mpr ⟨t, ht, hv⟩)
  | record es ih =>
    rw [Term.subst_record]
    refine .record (Keyed.keys_mapValues _).symm ?_
    rw [Keyed.values_mapValues, List.forall₂_map_right_iff, List.forall₂_same]
    intro t ht
    obtain ⟨e, he, rfl⟩ := List.mem_map.mp ht
    exact ih e he fun v hv => h v (Term.occurs_record.mpr ⟨e, he, hv⟩)
  | var v => exact h v (Term.occurs_var.mpr rfl)
  | primitive p => exact .primitive p
  | callable c => exact .callable c
  | wildcard => exact .wildcard

lemma Acyclic.exists_unfolds (h : s.Acyclic) (v : Variable) : ∃ x, s.Unfolds (.var v) x := by
  induction v using h.induction with
  | hP v ih =>
    cases hv : s.lookup v with
    | none => exact ⟨_, .unbound hv⟩
    | some u =>
      choose! θ hθ using ih
      exact ⟨_, .bound hv (unfolds_subst fun w hw => hθ w ⟨u, hv, hw⟩)⟩

def solution (s : Bindings) (v : Variable) : Term := (s.apply (.var v)).getD (.var v)

lemma Unfolds.solution_eq {v : Variable} {x : Term} (h : s.Unfolds (.var v) x) : s.solution v = x := by
  rw [solution, apply_eq_some_iff.mpr h, Option.getD_some]

lemma Acyclic.unfolds (h : s.Acyclic) (t : Term) : s.Unfolds t (t.subst s.solution) := by
  refine unfolds_subst fun v _ => ?_
  obtain ⟨x, hx⟩ := h.exists_unfolds v
  exact hx.solution_eq ▸ hx

theorem Acyclic.apply_eq_subst (h : s.Acyclic) (t : Term) :
    s.apply t = some (t.subst s.solution) :=
  apply_eq_some_iff.mpr (h.unfolds t)

def Respects (θ : Variable → Term) (s : Bindings) : Prop :=
  ∀ v t, s.lookup v = some t → θ v = t.subst θ

theorem Acyclic.respects_solution (h : s.Acyclic) : Respects s.solution s :=
  fun _ u hu => (Unfolds.bound hu (h.unfolds u)).solution_eq

lemma solution_of_lookup_eq_none {v : Variable} (h : s.lookup v = none) :
    s.solution v = .var v :=
  (Unfolds.unbound h).solution_eq

lemma Acyclic.solution_induction {P : Term → Prop} (h : s.Acyclic) (hvar : ∀ v, P (.var v))
    (hsubst : ∀ v t, s.lookup v = some t → (∀ w, Occurs w t → P (s.solution w)) →
      P (t.subst s.solution)) (v : Variable) : P (s.solution v) := by
  induction v using h.induction with
  | hP v ih =>
    cases hl : s.lookup v with
    | none => exact solution_of_lookup_eq_none hl ▸ hvar v
    | some t =>
      rw [h.respects_solution v t hl]
      exact hsubst v t hl fun w hw => ih w ⟨t, hl, hw⟩

lemma Acyclic.nanFree_solution (h : s.Acyclic) (hn : ∀ v t, s.lookup v = some t → t.NaNFree)
    (v : Variable) : (s.solution v).NaNFree := by
  refine h.solution_induction (fun v => ?_) (fun v t ht ih => ?_) v
  · simp [Term.NaNFree, Term.isNaN]
  · exact Term.nanFree_subst (hn v t ht) ih

lemma Acyclic.wellFormed_solution (h : s.Acyclic) (hw : ∀ v t, s.lookup v = some t → t.WellFormed)
    (v : Variable) : (s.solution v).WellFormed := by
  refine h.solution_induction (fun v => ?_) (fun v t ht ih => ?_) v
  · trivial
  · exact Term.wellFormed_subst (hw v t ht) ih

lemma Acyclic.exact_solution {cfg : Config} (h : s.Acyclic)
    (hx : ∀ v t, s.lookup v = some t → t.Exact cfg) (v : Variable) : (s.solution v).Exact cfg := by
  refine h.solution_induction (fun v => ?_) (fun v t ht ih => ?_) v
  · exact ⟨trivial, by simp [Term.Omits, Term.hasKey]⟩
  · exact Term.exact_subst (hx v t ht) ih

lemma Acyclic.occurs_solution_iff (h : s.Acyclic) {v w : Variable} :
    Occurs w (s.solution v) ↔ ReflTransGen s.Depends v w ∧ s.lookup w = none := by
  constructor
  · intro hw
    induction v using h.induction with
    | hP v ih =>
      cases hv : s.lookup v with
      | none =>
        rw [solution_of_lookup_eq_none hv, Term.occurs_var] at hw
        subst hw
        exact ⟨.refl, hv⟩
      | some u =>
        rw [h.respects_solution v u hv] at hw
        obtain ⟨y, hy, hw⟩ := Term.occurs_subst hw
        have hd : s.Depends v y := ⟨u, hv, hy⟩
        exact (ih y hd hw).imp_left (.head hd)
  · rintro ⟨hreach, hfree⟩
    induction hreach using ReflTransGen.head_induction_on with
    | refl => rw [solution_of_lookup_eq_none hfree, Term.occurs_var]
    | head hd _ ih =>
      obtain ⟨u, hu, hy⟩ := hd
      rw [h.respects_solution _ u hu]
      exact Term.occurs_subst_of_occurs hy ih

lemma Acyclic.isGround_solution (h : s.Acyclic) (hc : s.Closed) {v : Variable}
    (hv : (s.lookup v).isSome) : (s.solution v).isGround = true := by
  rw [Term.isGround_iff]
  intro w hw
  obtain ⟨hreach, hfree⟩ := h.occurs_solution_iff.mp hw
  have hbound : (s.lookup w).isSome := by
    cases hreach with
    | refl => exact hv
    | tail _ hd => exact hc _ _ hd
  simp [hfree] at hbound

end Unification.Bindings
