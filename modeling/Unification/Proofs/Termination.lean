import Unification.Proofs.DepthBound
import Unification.Proofs.Instances

/-! A run comes to its end unless it makes a binding that closes a cycle. -/

namespace Unification

open Bindings (Respects)

variable {req : Requirements} {cfg : Config} {a b : Term} {g : Goal} {gs : List Goal} {s : Bindings}
  {θ : Variable → Term} {w x : Pending} {tr : Trail} {nodes : List Term}

namespace Goal

/-- The size of the instances of both sides, and below it the way to a comparison of two values: a
variable in a comparison is first taken to be bound, then replaced by its value. -/
def load (θ : Variable → Term) : Goal → ℕ
  | unify a b =>
    4 * ((a.subst θ).size + (b.subst θ).size) + if a.isVariable || b.isVariable then 3 else 0
  | bind v t => 4 * ((θ v).size + (t.subst θ).size) + if t.isVariable then 2 else 1
  | clash _ => 0

lemma load_lt_of_isClash (h : g.isClash = true) : g.load θ < (unify a b).load θ := by
  have ha := (a.subst θ).size_pos
  cases g with
  | clash why =>
    simp only [load]
    omega
  | _ => cases h

lemma Compares.load_lt (h : Compares cfg a b gs) : ∀ g ∈ gs, g.load θ < (unify a b).load θ := by
  intro g hg
  rcases h.mem_children hg with ⟨x, hx, y, hy, hgoal⟩ | hc
  · have hlt : (x.subst θ).size < (a.subst θ).size := Term.size_subst_child_lt hx
    have hlt' : (y.subst θ).size < (b.subst θ).size := Term.size_subst_child_lt hy
    rcases hgoal with rfl | rfl
    · simp only [load]
      split <;> split <;> omega
    · simp only [load]
      split <;> split <;> omega
  · exact load_lt_of_isClash hc

lemma Reduces.load_lt (h : g.Reduces cfg s gs) (hs : s.Concrete) (hθ : Respects θ s) :
    ∀ g' ∈ gs, g'.load θ < g.load θ := by
  have hvar (v : Variable) : (Term.var v).isVariable = true := rfl
  cases h with
  | compare h => exact h.load_lt
  | @variable_left v t ht =>
    refine List.forall_mem_singleton.mpr ?_
    simp only [load, hvar, Term.subst_var, Bool.true_or, if_true]
    split <;> omega
  | @variable_right v t ht hv =>
    refine List.forall_mem_singleton.mpr ?_
    simp only [load, hvar, hv, Term.subst_var, Bool.or_true, if_true]
    simp only [Bool.false_eq_true, if_false]
    omega
  | bind_wildcard v => simp
  | @recheck v t u x ht hv =>
    have hx : x.isVariable = false := (hs v x hv).1
    have hu : u.isVariable = false := (hs.candidate ht).1
    refine List.forall_mem_singleton.mpr ?_
    simp only [load, hx, hu, hθ v x hv, hθ.candidate ht, Bool.or_self, Bool.false_eq_true, if_false]
    split <;> omega
  | @exchange v w t hw hv =>
    have ht : t.isVariable = false := (hs v t hv).1
    refine List.forall_mem_singleton.mpr ?_
    simp only [load, hvar, ht, hθ v t hv, Term.subst_var, Bool.false_eq_true, if_false, if_true]
    omega

end Goal

lemma exists_ends_of_forall
    (h : ∀ g ∈ gs, ∀ rest tr', Reaches req cfg ⟨gs, tr⟩ ⟨g :: rest, tr'⟩ →
      ∃ r, Ends req cfg ⟨[g], tr'⟩ r) : ∃ r, Ends req cfg ⟨gs, tr⟩ r := by
  induction gs generalizing tr with
  | nil => exact ⟨_, .done .refl⟩
  | cons g gs ih =>
    obtain ⟨r, hr⟩ := h g List.mem_cons_self gs tr .refl
    cases hr with
    | @done tr₁ hx =>
      have hrest : Reaches req cfg ⟨g :: gs, tr⟩ ⟨gs, tr₁⟩ := hx.append gs
      obtain ⟨r, hr⟩ := ih fun g' hg' rest tr' hx' =>
        h g' (List.mem_cons_of_mem _ hg') rest tr' (hrest.trans hx')
      exact ⟨r, .of_reaches hrest hr⟩
    | clash hx hg => exact ⟨_, .clash (hx.append gs) hg⟩

def StaysAcyclic (req : Requirements) (cfg : Config) (w : Pending) : Prop :=
  ∀ x, Reaches req cfg w x → x.trail.bindings.Acyclic

lemma StaysAcyclic.of_reaches {rest : List Goal} (hw : StaysAcyclic req cfg w)
    (h : Reaches req cfg w ⟨g :: rest, tr⟩) : StaysAcyclic req cfg ⟨[g], tr⟩ :=
  fun x hx => hw ⟨x.goals ++ rest, x.trail⟩ (h.trans (hx.append rest))

theorem exists_ends (hp : Term.Hereditary (· ∈ nodes)) (g : Goal) (tr : Trail)
    (hw : Pending.All (· ∈ nodes) ⟨[g], tr⟩) (hc : tr.bindings.Concrete)
    (ha : StaysAcyclic req cfg ⟨[g], tr⟩) : ∃ r, Ends req cfg ⟨[g], tr⟩ r := by
  cases hs : g.step req cfg tr.bindings with
  | clash why => exact ⟨_, .clash .refl hs⟩
  | assign v t => exact ⟨_, .done (.single (.assign (Goal.step_eq_assign_iff.mp hs)))⟩
  | reduce gs =>
    have hred : g.Reduces cfg tr.bindings gs := Goal.step_eq_reduce_iff.mp hs
    have hload := hred.load_lt hc (ha _ .refl).respects_solution
    have hsub : ∃ r, Ends req cfg ⟨gs, tr⟩ r := by
      refine exists_ends_of_forall fun g' hg' rest tr' hx => ?_
      have hrun : Reaches req cfg ⟨[g], tr⟩ ⟨g' :: rest, tr'⟩ := reaches_of_reduces hred hx
      have hall := hrun.all hp hw
      have hvacant := hrun.vacant_lt hp hw
      exact exists_ends hp g' tr'
        ⟨List.forall_mem_singleton.mpr (hall.goals _ List.mem_cons_self), hall.values⟩
        (hrun.concrete hc) (ha.of_reaches hrun)
    obtain ⟨r, hr⟩ := hsub
    exact ⟨r, .of_reaches (reaches_of_reduces hred .refl) hr⟩
termination_by ((vacant nodes tr.bindings).card, g.load tr.bindings.solution)
decreasing_by
  rcases hvacant with heq | hlt
  · dsimp only at heq
    subst heq
    exact Prod.Lex.right _ (hload g' hg')
  · exact Prod.Lex.left _ _ hlt

lemma exists_run_of_staysAcyclic (hs : s.Concrete) (h : StaysAcyclic req cfg ⟨[g], .start s⟩) :
    ∃ r, run req cfg s g = some r := by
  obtain ⟨r, hr⟩ := exists_ends (Term.hereditary_mem_parts _) g (.start s) (all_startNodes s g) hs h
  exact ⟨r, run_eq_some_iff.mpr hr⟩

def ClosesCycle (req : Requirements) (cfg : Config) (w : Pending) : Prop :=
  ∃ g rest tr v t, Reaches req cfg w ⟨g :: rest, tr⟩ ∧ g.Assigns req tr.bindings v t ∧
    Relation.TransGen (tr.assign v t).bindings.Depends v v

lemma closesCycle_of_reaches (h : Reaches req cfg w x) (hw : w.trail.bindings.Acyclic)
    (hx : ¬ x.trail.bindings.Acyclic) : ClosesCycle req cfg w := by
  induction h with
  | refl => exact absurd hw hx
  | @tail y z hwy hyz ih =>
    by_cases hy : y.trail.bindings.Acyclic
    · cases hyz with
      | reduce h => exact absurd hy hx
      | @assign g v t rest tr h => exact ⟨g, rest, tr, v, t, hwy, h, hy.cycle_of_insert hx⟩
    · exact ih hy

def Goal.HalfGround : Goal → Prop
  | unify a b => a.isGround = true ∨ b.isGround = true
  | bind _ t => t.isGround = true
  | clash _ => True

structure Pending.HalfGround (w : Pending) : Prop where
  goals : ∀ g ∈ w.goals, g.HalfGround
  values : ∀ v t, w.trail.bindings.lookup v = some t → t.isGround = true

lemma Pending.HalfGround.half (hw : w.HalfGround) : w.Half (·.isGround = true) where
  goals g hg := by
    have h := hw.goals g hg
    cases g <;> exact h
  values := hw.values

lemma staysAcyclic_of_halfGround (hw : w.HalfGround) : StaysAcyclic req cfg w := by
  intro x hx
  have hground := Reaches.half Term.hereditary_isGround (by simp [Term.isGround]) hx hw.half
  refine Bindings.acyclic_of_depends_lt (fun _ => 0) ?_
  rintro v u ⟨t, ht, hu⟩
  exact (Term.isGround_iff.mp (hground.values v t ht) u hu).elim

lemma unify_ne_endless_of_staysAcyclic (h : StaysAcyclic req cfg ⟨[.unify a b], .start .empty⟩) :
    unify req cfg a b ≠ .endless := by
  obtain ⟨r, hr⟩ := exists_run_of_staysAcyclic Bindings.concrete_empty h
  exact unify_ne_endless_iff.mpr ⟨r, run_eq_some_iff.mp hr⟩

lemma unify_ne_endless_of_isGround (hb : b.isGround = true) : unify req cfg a b ≠ .endless := by
  apply unify_ne_endless_of_staysAcyclic
  apply staysAcyclic_of_halfGround
  exact ⟨List.forall_mem_singleton.mpr (.inr hb), by simp [Trail.start]⟩

theorem run_returns_or_closesCycle (req : Requirements) (cfg : Config) :
    (∀ s g, s.Acyclic → s.Concrete →
      (∃ r, run req cfg s g = some r) ∨ ClosesCycle req cfg ⟨[g], .start s⟩) ∧
    ∀ a b, b.isGround = true → unify req cfg a b ≠ .endless := by
  refine ⟨fun s g hs hc => ?_, fun a b => unify_ne_endless_of_isGround⟩
  by_cases h : StaysAcyclic req cfg ⟨[g], .start s⟩
  · exact .inl (exists_run_of_staysAcyclic hc h)
  · obtain ⟨x, hx, hcyclic⟩ : ∃ x, Reaches req cfg ⟨[g], .start s⟩ x ∧ ¬ x.trail.bindings.Acyclic := by
      simpa [StaysAcyclic] using h
    exact .inr (closesCycle_of_reaches hx hs hcyclic)

section Knot

open Term (sequence record var primitive)

def knotStart : Bindings := .single ⟨1⟩ (sequence [var ⟨0⟩])

def knot : Goal := .unify (sequence [var ⟨0⟩, var ⟨0⟩]) (sequence [var ⟨1⟩, var ⟨1⟩])

lemma acyclic_knotStart : knotStart.Acyclic := by
  apply Bindings.acyclic_of_rank fun v => v.id
  simp [knotStart, Bindings.entries, Term.Occurs]

lemma concrete_knotStart : knotStart.Concrete := by
  intro v t ht
  simp only [Bindings.lookup, knotStart, Bindings.entries, Keyed.lookup_cons_eq_ite] at ht
  split at ht
  · cases ht
    exact ⟨rfl, rfl⟩
  · cases ht

lemma solve_self_eq_none {tr : Trail} (h : tr.bindings.lookup ⟨0⟩ = some (sequence [var ⟨0⟩])) (n : ℕ) :
    solve req cfg n (.unify (sequence [var ⟨0⟩]) (sequence [var ⟨0⟩])) tr = none := by
  induction n using Nat.strong_induction_on with
  | _ n ih =>
    rcases n with _ | _ | _ | n
    · rfl
    · rfl
    · rfl
    · have hn := ih n (by omega)
      simp [solve, solveAll, Goal.step, Goal.stepUnify, Goal.ofSequences, Goal.stepBind, Goal.settle,
        h, hn]

lemma run_knot_eq_none : run (fun _ => none) cfg knotStart knot = none := by
  rw [run]
  generalize depthBound knotStart knot = n
  rcases n with _ | _ | _ | n
  · rfl
  · rfl
  · rfl
  · have hself : solve (fun _ => none) cfg n (.unify (sequence [var ⟨0⟩]) (sequence [var ⟨0⟩]))
        ((Trail.start knotStart).assign ⟨0⟩ (sequence [var ⟨0⟩])) = none := solve_self_eq_none rfl n
    have h₀ : (Trail.start knotStart).bindings.lookup ⟨0⟩ = none := rfl
    have h₁ : (Trail.start knotStart).bindings.lookup ⟨1⟩ = some (sequence [var ⟨0⟩]) := rfl
    simp [knot, solve, solveAll, Goal.step, Goal.stepUnify, Goal.ofSequences, Goal.stepBind, Goal.settle,
      Requirements.accept, h₀, h₁, hself]

theorem run_returns_or_closesCycle_knot :
    knotStart.Acyclic ∧ knotStart.Concrete ∧ run (fun _ => none) .standard knotStart knot = none ∧
      ClosesCycle (fun _ => none) .standard ⟨[knot], .start knotStart⟩ ∧
      (sequence [primitive .nil]).isGround = true ∧
      unify (fun _ => none) .standard (sequence [var ⟨0⟩]) (sequence [primitive .nil]) ≠ .endless := by
  have hs := acyclic_knotStart
  have hc := concrete_knotStart
  have hrun : run (fun _ => none) .standard knotStart knot = none := run_knot_eq_none
  obtain ⟨hreturns, hground⟩ := run_returns_or_closesCycle (fun _ => none) .standard
  have hcycle := (hreturns knotStart knot hs hc).resolve_left (by simp [hrun])
  exact ⟨hs, hc, hrun, hcycle, rfl, hground _ _ rfl⟩

end Knot

end Unification
