import Unification.Proofs.Invariants
import Unification.Proofs.Solution

namespace Unification

open Term (Hereditary)
open Bindings (Respects)

def Goal.Holds (R : Term → Term → Prop) (θ : Variable → Term) : Goal → Prop
  | unify a b => R (a.subst θ) (b.subst θ)
  | bind v t => R (θ v) (t.subst θ)
  | clash _ => False

lemma Goal.Holds.not_clash {R : Term → Term → Prop} {θ : Variable → Term} {g : Goal}
    (h : g.Holds R θ) : g.isClash = false := by
  cases g with
  | clash why => exact h.elim
  | _ => rfl

lemma Bindings.Respects.candidate {s : Bindings} {θ : Variable → Term} (hθ : Respects θ s)
    {t u : Term} (hu : s.candidate t = some u) : t.subst θ = u.subst θ := by
  cases t with
  | wildcard => cases hu
  | var w => exact hθ w u hu
  | _ =>
    cases hu
    rfl

/-- A relation on instances that comparisons of terms with the property `p` pass on. -/
structure Transports (cfg : Config) (p : Term → Prop) (θ : Variable → Term)
    (R : Term → Term → Prop) : Prop where
  symm : ∀ {a b}, p a → p b → R (a.subst θ) (b.subst θ) → R (b.subst θ) (a.subst θ)
  compare : ∀ {a b : Term} {gs : List Goal}, p a → p b → Goal.Compares cfg a b gs →
    (∀ g ∈ gs, g.Holds R θ) → R (a.subst θ) (b.subst θ)

variable {req : Requirements} {cfg : Config} {p : Term → Prop} {θ : Variable → Term}
  {R : Term → Term → Prop} {s : Bindings}

lemma Transports.mono {q : Term → Prop} (hR : Transports cfg p θ R) (hqp : ∀ t, q t → p t) :
    Transports cfg q θ R where
  symm ha hb := hR.symm (hqp _ ha) (hqp _ hb)
  compare ha hb := hR.compare (hqp _ ha) (hqp _ hb)

lemma Goal.Reduces.holds (hR : Transports cfg p θ R) (hs : s.All p) (hθ : Respects θ s) {g : Goal}
    {gs : List Goal} (h : g.Reduces cfg s gs) (hg : g.All p) (hgs : ∀ g' ∈ gs, g'.Holds R θ) :
    g.Holds R θ := by
  cases h with
  | compare h => exact hR.compare hg.1 hg.2 h hgs
  | @variable_left v t ht => exact hgs (bind v t) List.mem_cons_self
  | variable_right ht hv => exact hR.symm hg.2 hg.1 (hgs _ List.mem_cons_self)
  | bind_wildcard v => exact hR.compare (a := .var v) hg.1 hg.2 (.wildcard_right _) (by simp)
  | @recheck v t u x ht hv =>
    rw [Holds, hθ v x hv, hθ.candidate ht]
    exact hgs _ List.mem_cons_self
  | @exchange v w t hw hv =>
    rw [Holds, hθ v t hv]
    exact hR.symm hg.2 (hs v t hv).2 (hgs _ List.mem_cons_self)

theorem Reaches.holds (hp : Hereditary p) (hR : Transports cfg p θ R) {w : Pending} {tr : Trail}
    (h : Reaches req cfg w ⟨[], tr⟩) (hw : w.All p) (hθ : Respects θ tr.bindings)
    (hrefl : ∀ v t, tr.bindings.lookup v = some t → R (t.subst θ) (t.subst θ)) :
    ∀ g ∈ w.goals, g.Holds R θ := by
  -- from the end backwards, since what a goal says depends on the bindings that come after it
  induction h using Relation.ReflTransGen.head_induction_on with
  | refl => simp
  | @head w x hab hbc ih =>
    have hgoals := ih (hab.all hp hw)
    have hkeep {v : Variable} {t : Term} (ht : x.trail.bindings.lookup v = some t) :
        tr.bindings.lookup v = some t := Reaches.lookup hbc ht
    have hstep := hab
    cases hab with
    | @reduce g gs rest tr₀ h =>
      obtain ⟨hgs, hrest⟩ := List.forall_mem_append.mp hgoals
      refine List.forall_mem_cons.mpr ⟨?_, hrest⟩
      exact h.holds hR hw.values (fun v t ht => hθ v t (hkeep ht))
        (hw.goals g List.mem_cons_self) hgs
    | @assign g v u rest tr₀ h =>
      refine List.forall_mem_cons.mpr ⟨?_, hgoals⟩
      cases h with
      | bind ht hv hu =>
        have hvu : tr.bindings.lookup v = some u := hkeep (by simp)
        have hθ₀ : Respects θ tr₀.bindings := fun w y hy => hθ w y (hkeep (hstep.lookup hy))
        rw [Goal.Holds, hθ v u hvu, hθ₀.candidate ht]
        exact hrefl v u hvu

end Unification
