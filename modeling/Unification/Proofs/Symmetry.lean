import Unification.Proofs.Passes

/-! The run with the two terms exchanged keeps in step with the run, up to goals that bind nothing. -/

namespace Unification

namespace Goal

inductive Mirrors : Goal → Goal → Prop
  | same (g : Goal) : Mirrors g g
  | turned (a b : Term) : Mirrors (unify a b) (unify b a)
  | traded (v w : Variable) : Mirrors (bind v (.var w)) (bind w (.var v))

end Goal

/-- Goal by goal the same, apart from goals that bind nothing. -/
inductive Mirrored (cfg : Config) : List Goal → List Goal → Prop
  | nil : Mirrored cfg [] []
  | cons {g g' : Goal} {gs gs' : List Goal} (h : g.Mirrors g') (hs : Mirrored cfg gs gs') :
      Mirrored cfg (g :: gs) (g' :: gs')
  | skip_left {g : Goal} {gs gs' : List Goal} (h : g.Passes cfg) (hs : Mirrored cfg gs gs') :
      Mirrored cfg (g :: gs) gs'
  | skip_right {g : Goal} {gs gs' : List Goal} (h : g.Passes cfg) (hs : Mirrored cfg gs gs') :
      Mirrored cfg gs (g :: gs')

variable {req : Requirements} {cfg : Config} {w : Pending} {tr : Trail} {gs gs' hs hs' rest : List Goal}
  {g g' : Goal} {s : Bindings}

namespace Mirrored

lemma refl (gs : List Goal) : Mirrored cfg gs gs := by
  induction gs with
  | nil => exact .nil
  | cons g gs ih => exact .cons (.same g) ih

lemma append (h : Mirrored cfg gs gs') (hr : Mirrored cfg hs hs') :
    Mirrored cfg (gs ++ hs) (gs' ++ hs') := by
  induction h with
  | nil => exact hr
  | cons h _ ih => exact .cons h ih
  | skip_left h _ ih => exact .skip_left h ih
  | skip_right h _ ih => exact .skip_right h ih

lemma of_passes_left (h : ∀ g ∈ gs, g.Passes cfg) : Mirrored cfg gs [] := by
  induction gs with
  | nil => exact .nil
  | cons g gs ih =>
    obtain ⟨hg, hgs⟩ := List.forall_mem_cons.mp h
    exact .skip_left hg (ih hgs)

lemma of_passes_right (h : ∀ g ∈ gs, g.Passes cfg) : Mirrored cfg [] gs := by
  induction gs with
  | nil => exact .nil
  | cons g gs ih =>
    obtain ⟨hg, hgs⟩ := List.forall_mem_cons.mp h
    exact .skip_right hg (ih hgs)

lemma zipWith_unify (xs ys : List Term) :
    Mirrored cfg (List.zipWith .unify xs ys) (List.zipWith .unify ys xs) := by
  induction xs generalizing ys with
  | nil => simpa using .nil
  | cons x xs ih =>
    cases ys with
    | nil => exact .nil
    | cons y ys => exact .cons (.turned x y) (ih ys)

lemma append_comm (h : (∀ g ∈ gs, g.Passes cfg) ∨ ∀ g ∈ hs, g.Passes cfg) :
    Mirrored cfg (gs ++ hs) (hs ++ gs) := by
  rcases h with h | h
  · have hpass := ((of_passes_left h).append (refl hs)).append (of_passes_right h)
    simpa using hpass
  · have hpass := ((of_passes_right h).append (refl gs)).append (of_passes_left h)
    simpa using hpass

lemma reaches_nil (h : Mirrored cfg [] gs) (tr : Trail) : Reaches req cfg ⟨gs, tr⟩ ⟨[], tr⟩ := by
  generalize hn : ([] : List Goal) = ns at h
  induction h with
  | nil => exact .refl
  | cons | skip_left => cases hn
  | skip_right h _ ih => exact Reaches.cons (h.reaches tr) (ih hn)

lemma exists_mirror (h : Mirrored cfg (g :: gs) gs') (tr : Trail) :
    (g.Passes cfg ∧ Mirrored cfg gs gs') ∨
      ∃ g' hs', Reaches req cfg ⟨gs', tr⟩ ⟨g' :: hs', tr⟩ ∧ g.Mirrors g' ∧ Mirrored cfg gs hs' := by
  generalize hn : g :: gs = ns at h
  induction h with
  | nil => cases hn
  | cons h hs =>
    cases hn
    exact .inr ⟨_, _, .refl, h, hs⟩
  | skip_left h hs =>
    cases hn
    exact .inl ⟨h, hs⟩
  | skip_right h hs ih =>
    rcases ih hn with ⟨hg, hrest⟩ | ⟨g', hs', hrun, hm, hrest⟩
    · exact .inl ⟨hg, .skip_right h hrest⟩
    · exact .inr ⟨g', hs', Reaches.cons (h.reaches tr) hrun, hm, hrest⟩

end Mirrored

lemma Goal.Compares.mirrored {a b : Term} (h : Compares cfg a b gs) (ha : a.WellFormed)
    (hb : b.WellFormed) (hgs : ∀ g ∈ gs, g.isClash = false)
    (hrigid : ∀ g ∈ gs, g.isRigid = true → g.Passes cfg) (hfree : contended cfg a b = false) :
    ∃ hs, Compares cfg b a hs ∧ Mirrored cfg gs hs := by
  obtain ⟨xs, ys, ps, qs, rfl, hswap, hside⟩ := h.exchange ha hb hgs
  refine ⟨_, hswap, (Mirrored.zipWith_unify xs ys).append (.append_comm ?_)⟩
  have hps : ∀ g ∈ ps, g.isRigid = true → g.Passes cfg := fun g hg =>
    hrigid g (List.mem_append_right _ (List.mem_append_left _ hg))
  have hqs : ∀ g ∈ qs, g.isRigid = true → g.Passes cfg := fun g hg =>
    hrigid g (List.mem_append_right _ (List.mem_append_right _ hg))
  exact (hside hfree).imp (fun h g hg => hps g hg (h g hg)) fun h g hg => hqs g hg (h g hg)

/-- A reduction is mirrored, unless an unbound variable is about to take the value of a bound one, which
it does at once in the mirror image. -/
lemma Goal.Reduces.mirrored (h : g.Reduces cfg s gs) (hm : g.Mirrors g') (hg : g.All Term.WellFormed)
    (hgs : ∀ g ∈ gs, g.isClash = false) (hrigid : ∀ g ∈ gs, g.isRigid = true → g.Passes cfg)
    (hfree : ∀ a b, g = unify a b → contended cfg a b = false) :
    (∃ hs, g'.Reduces cfg s hs ∧ Mirrored cfg gs hs) ∨
      ∃ v w t, s.lookup v = some t ∧ s.lookup w = none ∧ gs = [bind w t] ∧ g' = bind w (.var v) := by
  cases hm with
  | same => exact .inl ⟨gs, h, .refl gs⟩
  | turned a b =>
    cases h with
    | compare h =>
      obtain ⟨hs, hcompare, hmirror⟩ := h.mirrored hg.1 hg.2 hgs hrigid (hfree a b rfl)
      exact .inl ⟨hs, .compare hcompare, hmirror⟩
    | @variable_left v _ ht =>
      cases hv : b.isVariable with
      | false => exact .inl ⟨_, .variable_right ht hv, .refl _⟩
      | true =>
        cases b with
        | var w => exact .inl ⟨_, .variable_left rfl, .cons (.traded v w) .nil⟩
        | _ => cases hv
    | variable_right ht hv => exact .inl ⟨_, .variable_left ht, .refl _⟩
  | traded v w =>
    cases h with
    | recheck ht hv => exact .inl ⟨_, .recheck hv ht, .cons (.turned _ _) .nil⟩
    | exchange hw hv => exact .inr ⟨v, w, _, hv, hw, rfl, rfl⟩

lemma Goal.Assigns.mirrored {v : Variable} {u : Term} (h : g.Assigns req tr.bindings v u)
    (hm : g.Mirrors g') (hc : tr.bindings.Concrete) (rest : List Goal) :
    Reaches req cfg ⟨g' :: rest, tr⟩ ⟨rest, tr.assign v u⟩ := by
  cases hm with
  | same => exact .single (.assign h)
  | turned => cases h
  | traded v w =>
    cases h with
    | bind ht hv hu =>
      have hself : tr.bindings.candidate u = some u := Bindings.candidate_of_concrete (hc w u ht)
      exact .head (.reduce (.exchange hv ht)) (.single (.assign (.bind hself hv hu)))

lemma reaches_of_reaches_value {v w : Variable} {t : Term} {x : Pending}
    (hv : tr.bindings.lookup v = some t) (hw : tr.bindings.lookup w = none) (ht : t.Concrete)
    (h : Reaches req cfg ⟨.bind w t :: rest, tr⟩ x) :
    x = ⟨.bind w t :: rest, tr⟩ ∨ Reaches req cfg ⟨.bind w (.var v) :: rest, tr⟩ x := by
  rcases Relation.ReflTransGen.cases_head h with heq | ⟨y, hstep, hrest⟩
  · exact .inl heq.symm
  · cases hstep with
    | reduce h =>
      cases h with
      | bind_wildcard => cases ht.2
      | recheck _ hu =>
        rw [hw] at hu
        cases hu
      | exchange => cases ht.1
    | assign h =>
      cases h with
      | bind hc hw hu =>
        rw [Bindings.candidate_of_concrete ht] at hc
        cases hc
        exact .inr (hrest.head (.assign (.bind hv hw hu)))

def Uncontended (req : Requirements) (cfg : Config) (w : Pending) : Prop :=
  ∀ a b rest tr, Reaches req cfg w ⟨.unify a b :: rest, tr⟩ → Goal.contended cfg a b = false

lemma Uncontended.of_reaches {x : Pending} (hw : Uncontended req cfg w) (h : Reaches req cfg w x) :
    Uncontended req cfg x :=
  fun a b rest tr hx => hw a b rest tr (h.trans hx)

lemma Goal.Mirrors.contended {a b : Term} (hm : g.Mirrors g') (hg : g = unify a b)
    (h : Uncontended req cfg ⟨g :: rest, tr⟩ ∨ Uncontended req cfg ⟨g' :: gs, tr⟩) :
    contended cfg a b = false := by
  subst hg
  rcases h with h | h
  · exact h a b rest tr .refl
  · cases hm with
    | same => exact h a b gs tr .refl
    | turned => exact contended_comm cfg a b ▸ h b a gs tr .refl

theorem Reaches.mirrored (h : Reaches req cfg w ⟨[], tr⟩) (hw : w.All Term.WellFormed)
    (hc : w.trail.bindings.Concrete) (hm : Mirrored cfg w.goals hs)
    (hfree : Uncontended req cfg w ∨ Uncontended req cfg ⟨hs, w.trail⟩) :
    Reaches req cfg ⟨hs, w.trail⟩ ⟨[], tr⟩ := by
  induction h using Relation.ReflTransGen.head_induction_on generalizing hs with
  | refl => exact hm.reaches_nil tr
  | @head w x hab hbc ih =>
    have hnext {hs : List Goal} := @ih hs (hab.all Term.hereditary_wellFormed hw) (hab.concrete hc)
    have hstep : Reaches req cfg w x := .single hab
    cases hab with
    | @reduce g gs rest tr₀ h =>
      rcases hm.exists_mirror tr₀ with ⟨hg, hrest⟩ | ⟨g', hs', hrun, hmirror, hrest⟩
      · have hgs := hg.of_reduces h
        exact hnext ((Mirrored.of_passes_left hgs).append hrest) (hfree.imp_left (·.of_reaches hstep))
      · refine hrun.trans ?_
        have hfree' := hfree.imp_right (·.of_reaches hrun)
        have hclash := fun g hg => not_clash_of_reaches hbc g (List.mem_append_left rest hg)
        have hrigid := fun g hg => Goal.passes_of_isRigid hbc g (List.mem_append_left rest hg)
        rcases h.mirrored hmirror (hw.goals g List.mem_cons_self) hclash hrigid
          (fun a b hg => hmirror.contended hg hfree') with ⟨hs₁, hred, hm₁⟩ | ⟨v, w, t, hv, hu, rfl, rfl⟩
        · have hahead : Reaches req cfg ⟨g' :: hs', tr₀⟩ ⟨hs₁ ++ hs', tr₀⟩ := .single (.reduce hred)
          exact hahead.trans (hnext (hm₁.append hrest)
            (hfree'.imp (·.of_reaches hstep) (·.of_reaches hahead)))
        · -- the value is bound in the next step, on either side
          have ht : t.Concrete := hc v t hv
          have hvalue := hnext (.cons (.same (.bind w t)) hrest)
            (hfree'.imp (·.of_reaches hstep) fun hfree a b rest tr hx => by
              rcases reaches_of_reaches_value hv hu ht hx with heq | hx
              · cases heq
              · exact hfree a b rest tr hx)
          rcases reaches_of_reaches_value hv hu ht hvalue with heq | hx
          · cases heq
          · exact hx
    | @assign g v u rest tr₀ h =>
      rcases hm.exists_mirror tr₀ with ⟨hg, _⟩ | ⟨g', hs', hrun, hmirror, hrest⟩
      · cases h
        cases hg
      · refine hrun.trans ?_
        have hahead : Reaches req cfg ⟨g' :: hs', tr₀⟩ ⟨hs', tr₀.assign v u⟩ := h.mirrored hmirror hc hs'
        have hfree' := hfree.imp_right (·.of_reaches hrun)
        exact hahead.trans (hnext hrest (hfree'.imp (·.of_reaches hstep) (·.of_reaches hahead)))

variable {a b : Term}

lemma uncontended_of_parts (h : ∀ x ∈ [a, b].flatMap Term.parts, ∀ y ∈ [a, b].flatMap Term.parts,
    Goal.contended cfg x y = false) : Uncontended req cfg ⟨[.unify a b], .start .empty⟩ := by
  intro x y rest tr hrun
  have ha : a ∈ [a, b].flatMap Term.parts := List.mem_flatMap.mpr ⟨a, by simp, a.self_mem_parts⟩
  have hb : b ∈ [a, b].flatMap Term.parts := List.mem_flatMap.mpr ⟨b, by simp, b.self_mem_parts⟩
  have hnodes := Term.hereditary_mem_parts [a, b]
  have hgoal := (hrun.all hnodes (Pending.all_start ha hb)).goals _ List.mem_cons_self
  exact h x hgoal.1 y hgoal.2

theorem unify_comm_of_uncontended (ha : a.WellFormed) (hb : b.WellFormed)
    (h : Uncontended req cfg ⟨[.unify a b], .start .empty⟩) :
    ((unify req cfg a b).succeeded = true ↔ (unify req cfg b a).succeeded = true) ∧
      ∀ s, unify req cfg a b = .unified s ↔ unify req cfg b a = .unified s := by
  have hturn : ∀ s, unify req cfg a b = .unified s ↔ unify req cfg b a = .unified s := by
    intro s
    rw [unify_eq_unified_iff, unify_eq_unified_iff]
    constructor
    · rintro ⟨tr, hrun, hs⟩
      exact ⟨tr, hrun.mirrored (Pending.all_start ha hb) Bindings.concrete_empty
        (.cons (.turned a b) .nil) (.inl h), hs⟩
    · rintro ⟨tr, hrun, hs⟩
      exact ⟨tr, hrun.mirrored (Pending.all_start hb ha) Bindings.concrete_empty
        (.cons (.turned b a) .nil) (.inr h), hs⟩
  exact ⟨by simp only [Outcome.succeeded_iff, hturn], hturn⟩

section Rivals

open Term (sequence record var primitive)

def rivalsLeft : Term := record [("_", var ⟨0⟩), ("p", sequence [var ⟨2⟩])]

def rivalsRight : Term :=
  record [("_", sequence [var ⟨1⟩]), ("q", sequence [primitive (.long 1)])]

theorem unify_not_comm :
    unify (fun _ => none) .standard rivalsLeft rivalsRight ≠ .endless ∧
      unify (fun _ => none) .standard rivalsRight rivalsLeft ≠ .endless ∧
      ¬ ((unify (fun _ => none) .standard rivalsLeft rivalsRight).succeeded = true ↔
        (unify (fun _ => none) .standard rivalsRight rivalsLeft).succeeded = true) := by
  have hleft : unify (fun _ => none) .standard rivalsLeft rivalsRight =
      .mismatch (.unbound ⟨1⟩ ⟨2⟩) := rfl
  have hright : unify (fun _ => none) .standard rivalsRight rivalsLeft =
      .unified (.several [(⟨0⟩, sequence [var ⟨1⟩]), (⟨1⟩, primitive (.long 1)),
        (⟨2⟩, primitive (.long 1))]) := rfl
  simp [hleft, hright, Outcome.succeeded]

def settledLeft : Term :=
  sequence [record [("_", var ⟨0⟩), ("p", sequence [primitive (.float ⟨0x8000000000000000⟩)])],
    var ⟨1⟩, sequence [var ⟨2⟩]]

def settledRight : Term :=
  sequence [record [("_", sequence [primitive (.float ⟨0⟩)]), ("q", sequence [var ⟨2⟩])],
    var ⟨0⟩, var ⟨1⟩]

def settledBindings : Bindings :=
  .several [(⟨0⟩, sequence [primitive (.float ⟨0⟩)]), (⟨2⟩, primitive (.float ⟨0⟩)),
    (⟨1⟩, sequence [primitive (.float ⟨0⟩)])]

lemma uncontended_settled (req : Requirements) :
    Uncontended req .standard ⟨[.unify settledLeft settledRight], .start .empty⟩ :=
  uncontended_of_parts (by decide)

theorem unify_comm_of_uncontended_settled :
    settledLeft.WellFormed ∧ settledRight.WellFormed ∧
      Uncontended (fun _ => none) .standard ⟨[.unify settledLeft settledRight], .start .empty⟩ ∧
      unify (fun _ => none) .standard settledLeft settledRight = .unified settledBindings ∧
      unify (fun _ => none) .standard settledRight settledLeft = .unified settledBindings := by
  have ha : settledLeft.WellFormed := by decide
  have hb : settledRight.WellFormed := by decide
  have hfree := uncontended_settled fun _ => none
  obtain ⟨_, hcomm⟩ := unify_comm_of_uncontended ha hb hfree
  exact ⟨ha, hb, hfree, rfl, (hcomm settledBindings).mp rfl⟩

end Rivals

end Unification
