import Mathlib.Logic.Relation
import Unification.Proofs.Decomposition
import Unification.Solve

/-! Runs as a transition system. The finite ones are exactly those with a bounded depth. -/

namespace Unification

/-- A relation is kept along runs if each step on the left is answered by a run on the right. -/
lemma exists_of_reflTransGen {α β : Type _} {R : α → α → Prop} {Q : β → β → Prop} {S : α → β → Prop}
    (hstep : ∀ {a a' b}, R a a' → S a b → ∃ b', Relation.ReflTransGen Q b b' ∧ S a' b') {a a' : α} {b : β}
    (h : Relation.ReflTransGen R a a') (hS : S a b) : ∃ b', Relation.ReflTransGen Q b b' ∧ S a' b' := by
  induction h with
  | refl => exact ⟨b, .refl, hS⟩
  | tail _ hlast ih =>
    obtain ⟨b₁, hb₁, hS₁⟩ := ih
    obtain ⟨b₂, hb₂, hS₂⟩ := hstep hlast hS₁
    exact ⟨b₂, hb₁.trans hb₂, hS₂⟩

structure Pending where
  goals : List Goal
  trail : Trail

section

variable (req : Requirements) (cfg : Config)

inductive Advance : Pending → Pending → Prop
  | reduce {g : Goal} {gs rest : List Goal} {tr : Trail} (h : g.Reduces cfg tr.bindings gs) :
      Advance ⟨g :: rest, tr⟩ ⟨gs ++ rest, tr⟩
  | assign {g : Goal} {v : Variable} {t : Term} {rest : List Goal} {tr : Trail}
      (h : g.Assigns req tr.bindings v t) : Advance ⟨g :: rest, tr⟩ ⟨rest, tr.assign v t⟩

abbrev Reaches : Pending → Pending → Prop := Relation.ReflTransGen (Advance req cfg)

inductive Ends (w : Pending) : Result → Prop
  | done {tr : Trail} (h : Reaches req cfg w ⟨[], tr⟩) : Ends w (.done tr)
  | clash {g : Goal} {rest : List Goal} {tr : Trail} {why : Clash}
      (h : Reaches req cfg w ⟨g :: rest, tr⟩) (hg : g.step req cfg tr.bindings = .clash why) :
      Ends w (.clash why (tr.refuse why))

end

variable {req : Requirements} {cfg : Config} {w x : Pending} {tr tr' : Trail}

@[simp] lemma Trail.lookup_assign (v w : Variable) (t : Term) :
    (tr.assign v t).bindings.lookup w = if w = v then some t else tr.bindings.lookup w :=
  Bindings.lookup_insert tr.bindings v w t

lemma Reaches.preserves {P : Pending → Prop} (hP : ∀ {w x}, Advance req cfg w x → P w → P x)
    (h : Reaches req cfg w x) (hw : P w) : P x := by
  induction h with
  | refl => exact hw
  | tail _ hs ih => exact hP hs ih

lemma Advance.append (h : Advance req cfg w x) (rest : List Goal) :
    Advance req cfg ⟨w.goals ++ rest, w.trail⟩ ⟨x.goals ++ rest, x.trail⟩ := by
  cases h with
  | reduce h =>
    simp only [List.cons_append, List.append_assoc]
    exact .reduce h
  | assign h => exact .assign h

lemma Reaches.append (h : Reaches req cfg w x) (rest : List Goal) :
    Reaches req cfg ⟨w.goals ++ rest, w.trail⟩ ⟨x.goals ++ rest, x.trail⟩ :=
  h.lift (fun y => (⟨y.goals ++ rest, y.trail⟩ : Pending)) fun _ _ hs => hs.append rest

lemma Reaches.chain {gs rest : List Goal} (h : Reaches req cfg ⟨gs, tr⟩ ⟨[], tr'⟩)
    (hx : Reaches req cfg ⟨rest, tr'⟩ x) : Reaches req cfg ⟨gs ++ rest, tr⟩ x :=
  (h.append rest).trans hx

lemma Reaches.cons {g : Goal} {rest : List Goal} (h : Reaches req cfg ⟨[g], tr⟩ ⟨[], tr'⟩)
    (hx : Reaches req cfg ⟨rest, tr'⟩ x) : Reaches req cfg ⟨g :: rest, tr⟩ x :=
  h.chain hx

lemma reaches_of_reduces {g : Goal} {gs : List Goal} (h : g.Reduces cfg tr.bindings gs)
    (hx : Reaches req cfg ⟨gs, tr⟩ x) : Reaches req cfg ⟨[g], tr⟩ x := by
  have hstep : Advance req cfg ⟨[g], tr⟩ ⟨gs ++ [], tr⟩ := .reduce h
  rw [List.append_nil] at hstep
  exact hx.head hstep

lemma Advance.rightUnique : Relator.RightUnique (Advance req cfg) := by
  intro w x y hx hy
  cases hx with
  | @reduce g gs rest tr h =>
    have hs : g.step req cfg tr.bindings = .reduce gs := Goal.step_eq_reduce_iff.mpr h
    cases hy with
    | reduce h' =>
      cases hs.symm.trans (Goal.step_eq_reduce_iff.mpr h')
      rfl
    | assign h' => cases hs.symm.trans (Goal.step_eq_assign_iff.mpr h')
  | @assign g v t rest tr h =>
    have hs : g.step req cfg tr.bindings = .assign v t := Goal.step_eq_assign_iff.mpr h
    cases hy with
    | reduce h' => cases hs.symm.trans (Goal.step_eq_reduce_iff.mpr h')
    | assign h' =>
      cases hs.symm.trans (Goal.step_eq_assign_iff.mpr h')
      rfl

lemma Reaches.of_halted {y : Pending} (hx : Reaches req cfg w x) (hy : Reaches req cfg w y)
    (h : ∀ z, ¬ Advance req cfg y z) : Reaches req cfg x y := by
  rcases hx.total_of_right_unique Advance.rightUnique hy with hxy | hyx
  · exact hxy
  · rcases hyx.cases_head with rfl | ⟨z, hz, _⟩
    · exact .refl
    · exact absurd hz (h z)

lemma Reaches.after (h : Reaches req cfg w ⟨[], tr⟩) (hx : Reaches req cfg w x) :
    Reaches req cfg x ⟨[], tr⟩ :=
  Reaches.of_halted hx h fun _ hz => by cases hz

lemma Reaches.eq_of_nil (h : Reaches req cfg ⟨[], tr⟩ ⟨[], tr'⟩) : tr' = tr := by
  rcases h.cases_head with heq | ⟨_, hstep, _⟩
  · cases heq
    rfl
  · cases hstep

lemma Reaches.rest {g : Goal} {rest : List Goal} {tr₁ : Trail}
    (h : Reaches req cfg ⟨g :: rest, tr⟩ ⟨[], tr'⟩) (hg : Reaches req cfg ⟨[g], tr⟩ ⟨[], tr₁⟩) :
    Reaches req cfg ⟨rest, tr₁⟩ ⟨[], tr'⟩ :=
  h.after (hg.append rest)

lemma reaches_iff_of_reduces {g : Goal} {gs : List Goal} (h : g.Reduces cfg tr.bindings gs) :
    Reaches req cfg ⟨[g], tr⟩ ⟨[], tr'⟩ ↔ Reaches req cfg ⟨gs, tr⟩ ⟨[], tr'⟩ :=
  ⟨fun hg => hg.after (reaches_of_reduces h .refl), reaches_of_reduces h⟩

lemma Reaches.split {gs hs : List Goal} (h : Reaches req cfg ⟨gs ++ hs, tr⟩ ⟨[], tr'⟩) :
    ∃ tr₁, Reaches req cfg ⟨gs, tr⟩ ⟨[], tr₁⟩ ∧ Reaches req cfg ⟨hs, tr₁⟩ ⟨[], tr'⟩ := by
  generalize hw : (⟨gs ++ hs, tr⟩ : Pending) = w at h
  induction h using Relation.ReflTransGen.head_induction_on generalizing gs tr with
  | refl =>
    obtain ⟨hnil, rfl⟩ := Pending.mk.inj hw
    obtain ⟨rfl, rfl⟩ := List.append_eq_nil_iff.mp hnil
    exact ⟨tr, .refl, .refl⟩
  | @head w x hab hbc ih =>
    subst hw
    cases gs with
    | nil => exact ⟨tr, .refl, hbc.head hab⟩
    | cons g gs =>
      cases hab with
      | @reduce _ gs' _ _ h =>
        obtain ⟨tr₁, hgs, hrest⟩ := @ih tr (gs' ++ gs) (by simp)
        exact ⟨tr₁, hgs.head (.reduce h), hrest⟩
      | assign h =>
        obtain ⟨tr₁, hgs, hrest⟩ := ih rfl
        exact ⟨tr₁, hgs.head (.assign h), hrest⟩

lemma reaches_cons_iff {g : Goal} {gs : List Goal} : Reaches req cfg ⟨g :: gs, tr⟩ ⟨[], tr'⟩ ↔
    ∃ tr₁, Reaches req cfg ⟨[g], tr⟩ ⟨[], tr₁⟩ ∧ Reaches req cfg ⟨gs, tr₁⟩ ⟨[], tr'⟩ := by
  constructor
  · intro h
    have hsplit : Reaches req cfg ⟨[g] ++ gs, tr⟩ ⟨[], tr'⟩ := h
    exact hsplit.split
  · exact fun ⟨_, hg, hgs⟩ => Reaches.cons hg hgs

lemma Ends.of_reaches {r : Result} (h : Reaches req cfg w x) (hr : Ends req cfg x r) :
    Ends req cfg w r := by
  cases hr with
  | done hx => exact .done (h.trans hx)
  | clash hx hg => exact .clash (h.trans hx) hg

lemma not_advance_of_clash {g : Goal} {rest : List Goal} {why : Clash}
    (hg : g.step req cfg tr.bindings = .clash why) : ¬ Advance req cfg ⟨g :: rest, tr⟩ x := by
  intro h
  cases h with
  | reduce h => cases hg.symm.trans (Goal.step_eq_reduce_iff.mpr h)
  | assign h => cases hg.symm.trans (Goal.step_eq_assign_iff.mpr h)

lemma Ends.after {r : Result} (hr : Ends req cfg w r) (h : Reaches req cfg w x) : Ends req cfg x r := by
  cases hr with
  | done hx => exact .done (hx.after h)
  | clash hx hg => exact .clash (h.of_halted hx fun _ => not_advance_of_clash hg) hg

lemma ends_iff_of_reaches {r : Result} (h : Reaches req cfg w x) :
    Ends req cfg w r ↔ Ends req cfg x r :=
  ⟨fun hr => hr.after h, .of_reaches h⟩

lemma ends_done_iff : Ends req cfg w (.done tr) ↔ Reaches req cfg w ⟨[], tr⟩ :=
  ⟨fun h => by cases h with | done h => exact h, .done⟩

lemma ends_of_solveAll {run : Goal → Trail → Option Result}
    (h : ∀ g tr r, run g tr = some r → Ends req cfg ⟨[g], tr⟩ r) {gs : List Goal} {r : Result}
    (hr : solveAll run gs tr = some r) : Ends req cfg ⟨gs, tr⟩ r := by
  induction gs generalizing tr with
  | nil =>
    cases hr
    exact .done .refl
  | cons g gs ih =>
    rw [solveAll] at hr
    cases hg : run g tr with
    | none => simp [hg] at hr
    | some y =>
      rw [hg] at hr
      have hy := h g tr y hg
      cases y with
      | done tr₁ =>
        cases hy with
        | done hx => exact .of_reaches (hx.append gs) (ih hr)
      | clash why tr₁ =>
        cases hr
        cases hy with
        | clash hx hc => exact .clash (hx.append gs) hc

theorem ends_of_solve {n : ℕ} {g : Goal} {r : Result} (h : solve req cfg n g tr = some r) :
    Ends req cfg ⟨[g], tr⟩ r := by
  induction n generalizing g tr r with
  | zero => cases h
  | succ n ih =>
    rw [solve] at h
    cases hs : g.step req cfg tr.bindings with
    | reduce gs =>
      rw [hs] at h
      have hstep : Reaches req cfg ⟨[g], tr⟩ ⟨gs, tr⟩ :=
        reaches_of_reduces (Goal.step_eq_reduce_iff.mp hs) .refl
      exact .of_reaches hstep (ends_of_solveAll (fun _ _ _ => ih) h)
    | assign v t =>
      rw [hs] at h
      cases h
      exact .done (.single (.assign (Goal.step_eq_assign_iff.mp hs)))
    | clash why =>
      rw [hs] at h
      cases h
      exact .clash .refl hs

lemma solveAll_of_advance {n : ℕ} {r : Result} (h : Advance req cfg w x)
    (hr : solveAll (solve req cfg n) x.goals x.trail = some r) :
    solveAll (solve req cfg (n + 1)) w.goals w.trail = some r := by
  have hmono {gs : List Goal} {tr : Trail} (hg : solveAll (solve req cfg n) gs tr = some r) :
      solveAll (solve req cfg (n + 1)) gs tr = some r :=
    solveAll_mono (fun _ _ _ => solve_mono req cfg (Nat.le_succ n)) hg
  cases h with
  | @reduce g gs rest tr h =>
    have hg : solve req cfg (n + 1) g tr = solveAll (solve req cfg n) gs tr := by
      rw [solve, Goal.step_eq_reduce_iff.mpr h]
    simp only [solveAll_append] at hr
    simp only [solveAll, hg]
    cases hs : solveAll (solve req cfg n) gs tr with
    | none => simp [hs] at hr
    | some y =>
      rw [hs] at hr
      cases y with
      | done tr₁ => exact hmono hr
      | clash why tr₁ => exact hr
  | @assign g v t rest tr h =>
    have hg : solve req cfg (n + 1) g tr = some (.done (tr.assign v t)) := by
      rw [solve, Goal.step_eq_assign_iff.mpr h]
    simp only [solveAll, hg]
    exact hmono hr

lemma exists_solveAll_of_reaches {r : Result} (h : Reaches req cfg w x)
    (hr : ∃ n, solveAll (solve req cfg n) x.goals x.trail = some r) :
    ∃ n, solveAll (solve req cfg n) w.goals w.trail = some r := by
  induction h using Relation.ReflTransGen.head_induction_on with
  | refl => exact hr
  | head hab _ ih =>
    obtain ⟨n, hn⟩ := ih
    exact ⟨n + 1, solveAll_of_advance hab hn⟩

lemma exists_solveAll_of_ends {r : Result} (h : Ends req cfg w r) :
    ∃ n, solveAll (solve req cfg n) w.goals w.trail = some r := by
  cases h with
  | done h => exact exists_solveAll_of_reaches h ⟨0, rfl⟩
  | clash h hg =>
    refine exists_solveAll_of_reaches h ⟨1, ?_⟩
    simp only [solveAll, solve, hg]

lemma Ends.unique {r r' : Result} (h : Ends req cfg w r) (h' : Ends req cfg w r') : r = r' := by
  obtain ⟨m, hm⟩ := exists_solveAll_of_ends h
  obtain ⟨n, hn⟩ := exists_solveAll_of_ends h'
  have hm' := solveAll_mono (fun _ _ _ => solve_mono req cfg (Nat.le_max_left m n)) hm
  have hn' := solveAll_mono (fun _ _ _ => solve_mono req cfg (Nat.le_max_right m n)) hn
  exact Option.some.inj (hm'.symm.trans hn')

lemma Ends.exists_left {gs hs : List Goal} {r : Result} (h : Ends req cfg ⟨gs ++ hs, tr⟩ r) :
    ∃ r', Ends req cfg ⟨gs, tr⟩ r' := by
  obtain ⟨n, hn⟩ := exists_solveAll_of_ends h
  dsimp only at hn
  rw [solveAll_append] at hn
  cases hgs : solveAll (solve req cfg n) gs tr with
  | none => simp [hgs] at hn
  | some r' => exact ⟨r', ends_of_solveAll (fun _ _ _ => ends_of_solve) hgs⟩

theorem ends_iff_exists_solve {g : Goal} {r : Result} :
    Ends req cfg ⟨[g], tr⟩ r ↔ ∃ n, solve req cfg n g tr = some r := by
  refine ⟨fun h => ?_, fun ⟨n, hn⟩ => ends_of_solve hn⟩
  obtain ⟨n, hn⟩ := exists_solveAll_of_ends h
  refine ⟨n, ?_⟩
  rw [solveAll] at hn
  cases hg : solve req cfg n g tr with
  | none => simp [hg] at hn
  | some y =>
    rw [hg] at hn
    cases y with
    | done tr₁ => exact hn
    | clash why tr₁ => exact hn

lemma not_clash_of_reaches {gs : List Goal} (h : Reaches req cfg ⟨gs, tr⟩ ⟨[], tr'⟩) :
    ∀ g ∈ gs, g.isClash = false := by
  generalize hw : (⟨gs, tr⟩ : Pending) = w at h
  induction h using Relation.ReflTransGen.head_induction_on generalizing gs tr with
  | refl =>
    cases hw
    simp
  | head hab _ ih =>
    subst hw
    cases hab with
    | @reduce g gs' rest tr h =>
      refine List.forall_mem_cons.mpr ⟨?_, fun g hg => ih rfl g (List.mem_append_right _ hg)⟩
      cases h <;> rfl
    | @assign g v t rest tr h =>
      refine List.forall_mem_cons.mpr ⟨?_, ih rfl⟩
      cases h
      rfl

lemma Advance.lookup {v : Variable} {t : Term} (h : Advance req cfg w x)
    (ht : w.trail.bindings.lookup v = some t) : x.trail.bindings.lookup v = some t := by
  cases h with
  | reduce h => exact ht
  | assign h =>
    cases h with
    | bind _ hv _ =>
      rw [Trail.lookup_assign]
      split
      · next heq =>
        subst heq
        cases hv.symm.trans ht
      · exact ht

lemma Reaches.lookup {v : Variable} {t : Term} (h : Reaches req cfg w x)
    (ht : w.trail.bindings.lookup v = some t) : x.trail.bindings.lookup v = some t :=
  h.preserves (fun hs => hs.lookup) ht

lemma Advance.entries (h : Advance req cfg w x) :
    x.trail.bindings.entries = w.trail.bindings.entries ∨
      ∃ v t, req.accept v t = true ∧
        x.trail.bindings.entries = w.trail.bindings.entries ++ [(v, t)] := by
  cases h with
  | reduce h => exact .inl rfl
  | @assign g v t rest tr h =>
    cases h with
    | bind _ hv hu => exact .inr ⟨v, t, hu, Bindings.entries_insert_of_lookup_eq_none t hv⟩

lemma Reaches.entries_subset (h : Reaches req cfg w x) :
    w.trail.bindings.entries ⊆ x.trail.bindings.entries := by
  induction h with
  | refl => exact List.Subset.refl _
  | tail _ hs ih =>
    rcases hs.entries with heq | ⟨v, t, _, heq⟩
    · rwa [heq]
    · rw [heq]
      exact List.subset_append_of_subset_left _ ih

end Unification
