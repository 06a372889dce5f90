import Unification.Proofs.Soundness
import Unification.Proofs.Termination

/-! Two terms that some substitution makes equal unify, unless two unbound variables meet. -/

namespace Unification

open Term (Occurs)

variable {req : Requirements} {cfg : Config} {a b : Term} {g : Goal} {gs : List Goal} {s : Bindings}
  {θ : Variable → Term} {w x : Pending}

namespace Term

def Unconstrained (req : Requirements) (t : Term) : Prop := ∀ v, Occurs v t → req v = none

lemma hereditary_unconstrained (req : Requirements) : Hereditary (Unconstrained req) :=
  hereditary_forall_occurs _

end Term

def Bindings.SolvedBy (θ : Variable → Term) (s : Bindings) : Prop :=
  ∀ v t, s.lookup v = some t → (θ v).equals (t.subst θ) = true

abbrev Goal.SolvedBy (θ : Variable → Term) : Goal → Prop := Goal.Holds (fun x y => x.equals y = true) θ

structure Pending.SolvedBy (θ : Variable → Term) (w : Pending) : Prop where
  goals : ∀ g ∈ w.goals, g.SolvedBy θ
  values : w.trail.bindings.SolvedBy θ

lemma Bindings.SolvedBy.equals_candidate {x t u : Term} (hs : s.SolvedBy θ)
    (hu : s.candidate t = some u) (h : x.equals (t.subst θ) = true) : x.equals (u.subst θ) = true := by
  cases t with
  | wildcard => cases hu
  | var w => exact Term.equals_trans h (hs w u hu)
  | _ =>
    cases hu
    exact h

lemma Bindings.SolvedBy.acyclic (hs : s.SolvedBy θ) (hc : s.Concrete) : s.Acyclic := by
  refine acyclic_of_depends_lt (fun v => (θ v).size) ?_
  rintro v w ⟨t, ht, hw⟩
  rw [Term.size_eq_of_equals (hs v t ht)]
  exact Term.size_lt_size_subst hw (hc v t ht).1

namespace Goal

lemma exists_reduces_of_equals (h : (a.subst θ).equals (b.subst θ) = true) :
    ∃ gs, (unify a b).Reduces cfg s gs := by
  by_cases ha : a.isWildcard = true
  · cases a with
    | wildcard => exact ⟨_, .compare (.wildcard_left b)⟩
    | _ => cases ha
  have ha : a.isWildcard = false := by simpa using ha
  cases b with
  | wildcard => exact ⟨_, .compare (.wildcard_right a)⟩
  | var w =>
    cases a with
    | var v => exact ⟨_, .variable_left rfl⟩
    | _ => exact ⟨_, .variable_right ha rfl⟩
  | sequence ys =>
    cases a with
    | var v => exact ⟨_, .variable_left rfl⟩
    | sequence xs => exact ⟨_, .compare (.sequences xs ys)⟩
    | wildcard => cases ha
    | _ => simp [Term.equals] at h
  | record fs =>
    cases a with
    | var v => exact ⟨_, .variable_left rfl⟩
    | record es => exact ⟨_, .compare (.records es fs)⟩
    | wildcard => cases ha
    | _ => simp [Term.equals] at h
  | callable d =>
    cases a with
    | var v => exact ⟨_, .variable_left rfl⟩
    | callable c =>
      obtain rfl : c = d := by simpa [Term.equals] using h
      exact ⟨_, .compare (.callables c)⟩
    | wildcard => cases ha
    | _ => simp [Term.equals] at h
  | primitive q =>
    cases a with
    | var v => exact ⟨_, .variable_left rfl⟩
    | primitive p => exact ⟨_, .compare (.primitives h)⟩
    | wildcard => cases ha
    | _ => simp [Term.equals] at h

lemma Compares.solvedBy (h : Compares cfg a b gs) (ha : a.Strict cfg) (hb : b.Strict cfg)
    (hab : (a.subst θ).equals (b.subst θ) = true) : ∀ g ∈ gs, g.SolvedBy θ := by
  cases h with
  | wildcard_left | wildcard_right | callables | primitives => simp
  | sequences xs ys =>
    rw [Term.subst_sequence, Term.subst_sequence, Term.equals_sequence, List.forall₂_map_left_iff,
      List.forall₂_map_right_iff] at hab
    intro g hg
    rw [ofSequences, if_pos hab.length_eq] at hg
    obtain ⟨x, _, y, _, hxy, rfl⟩ := mem_zipWith_unify_of_forall hab hg
    exact hxy
  | records es fs =>
    rw [Term.subst_record, Term.subst_record, Term.equals_record, Keyed.keys_mapValues,
      Keyed.keys_mapValues, Keyed.values_mapValues, Keyed.values_mapValues,
      List.forall₂_map_left_iff, List.forall₂_map_right_iff] at hab
    intro g hg
    rw [ofRecords_of_no_key fun key hk => ⟨ha.contains_eq_false hk, hb.contains_eq_false hk⟩,
      ofClosedRecords_of_keys (Term.wellFormed_record.mp hb.wellFormed).1 hab.1] at hg
    obtain ⟨x, _, y, _, hxy, rfl⟩ := mem_zipWith_unify_of_forall hab.2 hg
    exact hxy

lemma Reduces.solvedBy (h : g.Reduces cfg s gs) (hg : g.All (Term.Strict cfg)) (hs : s.SolvedBy θ)
    (hθ : g.SolvedBy θ) : ∀ g' ∈ gs, g'.SolvedBy θ := by
  cases h with
  | compare h => exact h.solvedBy hg.1 hg.2 hθ
  | variable_left ht => exact List.forall_mem_singleton.mpr hθ
  | variable_right ht hv => exact List.forall_mem_singleton.mpr (Term.equals_symm hθ)
  | bind_wildcard v => simp
  | recheck ht hv =>
    have hx := Term.equals_symm (hs _ _ hv)
    exact List.forall_mem_singleton.mpr (Term.equals_trans hx (hs.equals_candidate ht hθ))
  | exchange hw hv =>
    exact List.forall_mem_singleton.mpr (Term.equals_trans (Term.equals_symm hθ) (hs _ _ hv))

theorem unbound_of_step_eq_clash {why : Clash} (h : g.step req cfg s = .clash why)
    (hg : g.All (Term.Unconstrained req)) (hθ : g.SolvedBy θ) :
    ∃ v w, g = bind v (.var w) ∧ why = .unbound v w ∧ s.lookup v = none ∧ s.lookup w = none := by
  cases g with
  | unify a b =>
    obtain ⟨gs, hgs⟩ : ∃ gs, (unify a b).Reduces cfg s gs := exists_reduces_of_equals hθ
    rw [step_eq_reduce_iff.mpr hgs] at h
    cases h
  | bind v t =>
    rw [step] at h
    cases hc : s.candidate t with
    | some u =>
      have hfree : req v = none := hg.1 v (Term.occurs_var.mpr rfl)
      rw [stepBind_of_candidate req hc, settle] at h
      cases hv : s.lookup v <;> simp [hv, hfree, Requirements.accept] at h
    | none =>
      rcases candidate_eq_none hc with rfl | ⟨w, rfl, hw⟩
      · cases h
      · rw [stepBind, hw] at h
        cases hv : s.lookup v with
        | some x => simp [hv] at h
        | none =>
          rw [hv] at h
          cases h
          exact ⟨v, w, rfl, rfl, hv, hw⟩
  | clash why => exact hθ.elim

end Goal

lemma Advance.solvedBy (h : Advance req cfg w x) (hw : w.All (Term.Strict cfg)) (hθ : w.SolvedBy θ) :
    x.SolvedBy θ := by
  cases h with
  | reduce h =>
    obtain ⟨hg, hrest⟩ := List.forall_mem_cons.mp hθ.goals
    refine ⟨List.forall_mem_append.mpr ⟨?_, hrest⟩, hθ.values⟩
    exact h.solvedBy (hw.goals _ List.mem_cons_self) hθ.values hg
  | assign h =>
    obtain ⟨hg, hrest⟩ := List.forall_mem_cons.mp hθ.goals
    refine ⟨hrest, fun v t ht => ?_⟩
    cases h with
    | bind hc hv hu =>
      rw [Trail.lookup_assign] at ht
      split at ht
      · next heq =>
        cases ht
        exact heq ▸ hθ.values.equals_candidate hc hg
      · exact hθ.values v t ht

theorem Reaches.solvedBy (h : Reaches req cfg w x) (hw : w.All (Term.Strict cfg))
    (hθ : w.SolvedBy θ) : x.SolvedBy θ := by
  induction h with
  | refl => exact hθ
  | tail hwy hyx ih => exact hyx.solvedBy (Reaches.all (Term.hereditary_strict cfg) hwy hw) ih

lemma staysAcyclic_of_solvedBy (hw : w.All (Term.Strict cfg)) (hc : w.trail.bindings.Concrete)
    (hθ : w.SolvedBy θ) : StaysAcyclic req cfg w :=
  fun _ hx => (Reaches.solvedBy hx hw hθ).values.acyclic (Reaches.concrete hx hc)

theorem unified_or_unbound_of_equals (ha : a.Strict cfg) (hb : b.Strict cfg) (hra : a.Unconstrained req)
    (hrb : b.Unconstrained req) (hθ : (a.subst θ).equals (b.subst θ) = true) :
    (∃ s, unify req cfg a b = .unified s) ∨
      ∃ v w rest tr, Reaches req cfg ⟨[.unify a b], .start .empty⟩ ⟨.bind v (.var w) :: rest, tr⟩ ∧
        tr.bindings.lookup v = none ∧ tr.bindings.lookup w = none ∧
        unify req cfg a b = .mismatch (.unbound v w) := by
  have hall := Pending.all_start ha hb
  have hfree := Pending.all_start hra hrb
  have hstart : Pending.SolvedBy θ ⟨[.unify a b], .start .empty⟩ :=
    ⟨List.forall_mem_singleton.mpr hθ, by simp [Bindings.SolvedBy, Trail.start]⟩
  obtain ⟨r, hr⟩ : ∃ r, run req cfg .empty (.unify a b) = some r :=
    exists_run_of_staysAcyclic Bindings.concrete_empty
      (staysAcyclic_of_solvedBy hall Bindings.concrete_empty hstart)
  cases run_eq_some_iff.mp hr with
  | @done tr hx => exact .inl ⟨tr.bindings, by rw [unify, hr]; rfl⟩
  | @clash g rest tr why hx hg =>
    have hgoals := (Reaches.all (Term.hereditary_unconstrained req) hx hfree).goals
    have hsolved := (Reaches.solvedBy hx hall hstart).goals
    obtain ⟨v, w, rfl, rfl, hv, hw⟩ := Goal.unbound_of_step_eq_clash hg
      (hgoals g List.mem_cons_self) (hsolved g List.mem_cons_self)
    exact .inr ⟨v, w, rest, tr, hx, hv, hw, by rw [unify, hr]; rfl⟩

section Meeting

open Term (sequence var primitive)

def meetingLeft : Term := sequence [var ⟨0⟩, var ⟨0⟩, primitive .nil]

def meetingRight : Term := sequence [sequence [var ⟨1⟩], sequence [var ⟨2⟩], primitive .nil]

def meetingSolution (v : Variable) : Term :=
  if v = ⟨0⟩ then sequence [primitive (.float ⟨0⟩)] else primitive (.float ⟨0x8000000000000000⟩)

theorem unified_or_unbound_of_equals_meeting :
    meetingLeft.Strict .standard ∧ meetingRight.Strict .standard ∧
      meetingLeft.Unconstrained (fun _ => none) ∧ meetingRight.Unconstrained (fun _ => none) ∧
      (meetingLeft.subst meetingSolution).equals (meetingRight.subst meetingSolution) = true ∧
      ∃ v w rest tr,
        Reaches (fun _ => none) .standard ⟨[.unify meetingLeft meetingRight], .start .empty⟩
          ⟨.bind v (.var w) :: rest, tr⟩ ∧
        tr.bindings.lookup v = none ∧ tr.bindings.lookup w = none ∧
        unify (fun _ => none) .standard meetingLeft meetingRight = .mismatch (.unbound v w) := by
  have ha : meetingLeft.Strict .standard := by decide
  have hb : meetingRight.Strict .standard := by decide
  have hθ : (meetingLeft.subst meetingSolution).equals (meetingRight.subst meetingSolution) = true := by
    decide
  have hrun : unify (fun _ => none) .standard meetingLeft meetingRight = .mismatch (.unbound ⟨1⟩ ⟨2⟩) :=
    rfl
  refine ⟨ha, hb, fun _ _ => rfl, fun _ _ => rfl, hθ, ?_⟩
  refine (unified_or_unbound_of_equals ha hb (fun _ _ => rfl) (fun _ _ => rfl) hθ).resolve_left ?_
  rintro ⟨s, hs⟩
  cases hrun.symm.trans hs

end Meeting

end Unification
