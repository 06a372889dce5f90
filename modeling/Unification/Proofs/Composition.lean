import Unification.Proofs.Derivations

/-! A comparison from an environment finds what the comparison of the two instances finds. -/

namespace Unification

open Goal (mapTerms)
open Term (Exact Hereditary Occurs)

variable {req : Requirements} {cfg : Config} {s f t : Bindings} {w w' x x' : Pending}
  {tr tr' : Trail} {a b : Term} {v : Variable}

namespace Term

def Untested (req : Requirements) (t : Term) : Prop :=
  ∀ v, Occurs v t → ∀ accepts, req v ≠ some (.predicate accepts)

lemma hereditary_untested (req : Requirements) : Hereditary (Untested req) := hereditary_forall_occurs _

lemma Concrete.subst {t : Term} (h : t.Concrete) (θ : Variable → Term) : (t.subst θ).Concrete := by
  cases t with
  | var v => cases h.1
  | wildcard => cases h.2
  | sequence ts => exact subst_sequence (θ := θ) ts ▸ ⟨rfl, rfl⟩
  | record es => exact subst_record (θ := θ) es ▸ ⟨rfl, rfl⟩
  | primitive p | callable c => exact h

end Term

lemma TypeDescriptor.of_subst {t : Term} (h : t.isVariable = false) (θ : Variable → Term) :
    TypeDescriptor.of (t.subst θ) = TypeDescriptor.of t := by
  cases t with
  | var v => cases h
  | sequence ts => rw [Term.subst_sequence]; rfl
  | record es => rw [Term.subst_record]; rfl
  | primitive p | callable c | wildcard => rfl

lemma Requirements.accept_subst {u : Term} (h : (Term.var v).Untested req) (hu : u.isVariable = false)
    (θ : Variable → Term) : req.accept v (u.subst θ) = req.accept v u := by
  rw [accept, accept]
  cases hc : req v with
  | none => rfl
  | some c =>
    cases c with
    | type expected =>
      dsimp only [Constraint.satisfiedBy]
      rw [TypeDescriptor.of_subst hu]
    | predicate accepts => exact absurd hc (h v (Term.occurs_var.mpr rfl) accepts)

/-- What `f` has beyond `s` is what `t` has, but for the values, which `s` instantiates in `t`. -/
structure Bindings.Continues (s f t : Bindings) : Prop where
  order : f.entries.map Prod.fst = s.entries.map Prod.fst ++ t.entries.map Prod.fst
  bound : ∀ v x, s.lookup v = some x → f.lookup v = some x ∧ t.lookup v = none
  unbound : ∀ v, s.lookup v = none → t.lookup v = (f.lookup v).map (Term.subst s.solution)

namespace Bindings.Continues

lemma start (s : Bindings) : s.Continues s .empty where
  order := by simp [entries]
  bound v x hv := ⟨hv, rfl⟩
  unbound v hv := by simp [hv]

lemma lookup_eq_none (h : s.Continues f t) (hv : f.lookup v = none) : s.lookup v = none := by
  cases hs : s.lookup v with
  | none => rfl
  | some x => cases hv.symm.trans (h.bound v x hs).1

lemma insert (h : s.Continues f t) (hv : f.lookup v = none) (u : Term) :
    s.Continues (f.insert v u) (t.insert v (u.subst s.solution)) := by
  have hs := h.lookup_eq_none hv
  have ht : t.lookup v = none := by rw [h.unbound v hs, hv, Option.map_none]
  refine ⟨?_, fun w x hw => ?_, fun w hw => ?_⟩
  · rw [entries_insert_of_lookup_eq_none u hv, entries_insert_of_lookup_eq_none _ ht]
    simp [h.order]
  · have hne : w ≠ v := fun heq => by cases hw.symm.trans (heq ▸ hs)
    rw [lookup_insert, lookup_insert, if_neg hne, if_neg hne]
    exact h.bound w x hw
  · rw [lookup_insert, lookup_insert]
    split
    · rfl
    · exact h.unbound w hw

lemma depends {v w : Variable} (h : s.Continues f t) (hd : s.Depends v w) : f.Depends v w := by
  obtain ⟨x, hx, hw⟩ := hd
  exact ⟨x, (h.bound v x hx).1, hw⟩

lemma acyclic (h : s.Continues f t) (hs : s.Acyclic) (hf : f.Acyclic) : t.Acyclic := by
  have hpath : ∀ v w, t.Depends v w → Relation.TransGen f.Depends v w := by
    rintro v w ⟨x, hx, hw⟩
    cases hv : s.lookup v with
    | some y => cases hx.symm.trans (h.bound v y hv).2
    | none =>
      rw [h.unbound v hv] at hx
      obtain ⟨u, hu, rfl⟩ := Option.map_eq_some_iff.mp hx
      obtain ⟨y, hy, hw⟩ := Term.occurs_subst hw
      have hyw : Relation.ReflTransGen f.Depends y w :=
        Relation.ReflTransGen.mono (fun _ _ => h.depends) _ _ (hs.occurs_solution_iff.mp hw).1
      exact .head' ⟨u, hu, hy⟩ hyw
  exact fun v hv => hf v (Relation.TransGen.closed hpath _ _ hv)

lemma solution_eq (h : s.Continues f t) (hs : s.Acyclic) (hf : f.Acyclic) (v : Variable) :
    f.solution v = (s.solution v).subst t.solution := by
  induction v using hf.induction with
  | hP v ih =>
    cases hv : s.lookup v with
    | some x =>
      have hx := (h.bound v x hv).1
      rw [hf.respects_solution v x hx, hs.respects_solution v x hv, Term.subst_subst]
      exact Term.subst_congr fun y hy => ih y ⟨x, hx, hy⟩
    | none =>
      have ht := h.unbound v hv
      rw [solution_of_lookup_eq_none hv, Term.subst_var]
      cases hu : f.lookup v with
      | none =>
        rw [hu] at ht
        rw [solution_of_lookup_eq_none hu, solution_of_lookup_eq_none ht]
      | some u =>
        rw [hu] at ht
        rw [hf.respects_solution v u hu, (h.acyclic hs hf).respects_solution v _ ht, Term.subst_subst]
        exact Term.subst_congr fun y hy => ih y ⟨u, hu, hy⟩

lemma apply_eq (h : s.Continues f t) (hs : s.Acyclic) (hf : f.Acyclic) (x : Term) :
    ∃ y z, s.apply x = some y ∧ t.apply y = some z ∧ f.apply x = some z := by
  refine ⟨_, _, hs.apply_eq_subst x, (h.acyclic hs hf).apply_eq_subst _, ?_⟩
  rw [hf.apply_eq_subst, Term.subst_subst]
  exact congrArg some (Term.subst_congr fun v _ => h.solution_eq hs hf v)

end Bindings.Continues

structure Instantiates (s : Bindings) (w w' : Pending) : Prop where
  goals : w'.goals = w.goals.map (mapTerms (Term.subst s.solution))
  bindings : s.Continues w.trail.bindings w'.trail.bindings

theorem Derive.instantiate (hs : s.Acyclic) (h : Derive req cfg w x) (hu : w.All (Term.Untested req))
    (hw : Instantiates s w w') : ∃ x', Derives req cfg w' x' ∧ Instantiates s x x' := by
  obtain ⟨gs', tr'⟩ := w'
  obtain ⟨hgoals, hc⟩ := hw
  dsimp only at hgoals hc
  subst hgoals
  cases h with
  | compare h =>
    refine ⟨_, .single (.compare (h.subst s.solution)), ?_, hc⟩
    rw [List.map_append]
  | turn a b rest tr => exact ⟨_, derives_turn _ _ _ _, rfl, hc⟩
  | @replace v x b rest tr hv =>
    cases hl : s.lookup v with
    | some y =>
      cases hv.symm.trans (hc.bound v y hl).1
      refine ⟨⟨_, tr'⟩, .refl, ?_, hc⟩
      rw [List.map_cons, List.map_cons, mapTerms, mapTerms, Term.subst_var, hs.respects_solution v x hl]
    | none =>
      have hv' : tr'.bindings.lookup v = some (x.subst s.solution) := by
        rw [hc.unbound v hl, hv, Option.map_some]
      refine ⟨⟨_, tr'⟩, ?_, rfl, hc⟩
      rw [List.map_cons, mapTerms, Term.subst_var, Bindings.solution_of_lookup_eq_none hl]
      exact derives_replace hv'
  | @assign v u rest tr hv hconcrete ha =>
    have hl : s.lookup v = none := hc.lookup_eq_none hv
    have hv' : tr'.bindings.lookup v = none := by rw [hc.unbound v hl, hv, Option.map_none]
    have hfree : (Term.var v).Untested req := (hu.goals _ List.mem_cons_self).1
    have ha' : req.accept v (u.subst s.solution) = true :=
      (Requirements.accept_subst hfree hconcrete.1 _).trans ha
    refine ⟨⟨_, tr'.assign v (u.subst s.solution)⟩, ?_, rfl, hc.insert hv u⟩
    rw [List.map_cons, mapTerms, Term.subst_var, Bindings.solution_of_lookup_eq_none hl]
    exact .single (.assign hv' (hconcrete.subst _) ha')

lemma Bindings.subst_deref (hs : s.Acyclic) (a : Term) :
    (s.deref a).subst s.solution = a.subst s.solution := by
  cases a with
  | var v =>
    cases hl : s.lookup v with
    | some x => simp only [deref, hl, Option.getD_some, Term.subst_var, hs.respects_solution v x hl]
    | none => simp only [deref, hl, Option.getD_none]
  | _ => rfl

lemma Bindings.eq_var_of_deref (hc : s.Concrete) (h : s.deref a = .var v) :
    a = .var v ∧ s.lookup v = none := by
  cases a with
  | var w =>
    cases hl : s.lookup w with
    | some x =>
      rw [deref, hl, Option.getD_some] at h
      cases h ▸ (hc w x hl).1
    | none =>
      rw [deref, hl, Option.getD_none] at h
      cases h
      exact ⟨rfl, hl⟩
  | _ => cases h

lemma Bindings.solution_of_deref (hc : s.Concrete) (h : s.deref a = .var v) :
    s.solution v = .var v :=
  solution_of_lookup_eq_none (eq_var_of_deref hc h).2

lemma Bindings.deref_eq_var (hs : s.Acyclic) (hc : s.Concrete) (h : a.subst s.solution = .var v) :
    s.deref a = .var v := by
  rw [← subst_deref hs] at h
  cases hd : s.deref a with
  | var w =>
    rw [hd, Term.subst_var, solution_of_deref hc hd] at h
    exact h
  | sequence ts | record es | primitive p | callable c | wildcard => simp [hd] at h

lemma Bindings.concrete_deref (hs : s.Acyclic) (hc : s.Concrete) (h : (a.subst s.solution).Concrete) :
    (s.deref a).Concrete := by
  rw [← subst_deref hs] at h
  cases hd : s.deref a with
  | var w =>
    rw [hd, Term.subst_var, solution_of_deref hc hd] at h
    cases h.1
  | wildcard =>
    rw [hd] at h
    cases h.2
  | _ => exact ⟨rfl, rfl⟩

lemma derives_deref_left (hkeep : ∀ v x, s.lookup v = some x → tr.bindings.lookup v = some x)
    (a b : Term) (rest : List Goal) :
    Derives req cfg ⟨.unify a b :: rest, tr⟩ ⟨.unify (s.deref a) b :: rest, tr⟩ := by
  cases a with
  | var v =>
    cases hl : s.lookup v with
    | some x =>
      rw [Bindings.deref, hl]
      exact derives_replace (hkeep v x hl)
    | none =>
      rw [Bindings.deref, hl]
      exact .refl
  | _ => exact .refl

lemma derives_deref (hkeep : ∀ v x, s.lookup v = some x → tr.bindings.lookup v = some x)
    (a b : Term) (rest : List Goal) :
    Derives req cfg ⟨.unify a b :: rest, tr⟩ ⟨.unify (s.deref a) (s.deref b) :: rest, tr⟩ :=
  calc Derives req cfg ⟨.unify a b :: rest, tr⟩ ⟨.unify (s.deref a) b :: rest, tr⟩ :=
        derives_deref_left hkeep a b rest
    Derives req cfg _ ⟨.unify b (s.deref a) :: rest, tr⟩ := derives_turn _ _ _ _
    Derives req cfg _ ⟨.unify (s.deref b) (s.deref a) :: rest, tr⟩ := derives_deref_left hkeep _ _ _
    Derives req cfg _ ⟨.unify (s.deref a) (s.deref b) :: rest, tr⟩ := derives_turn _ _ _ _

theorem Derive.exists_derives (hs : s.Acyclic) (hconc : s.Concrete) (h : Derive req cfg w' x')
    (hu : w.All (Term.Untested req)) (hw : Instantiates s w w') :
    ∃ x, Derives req cfg w x ∧ Instantiates s x x' := by
  obtain ⟨gs, tr⟩ := w
  obtain ⟨gs', tr'⟩ := w'
  obtain ⟨hgoals, hc⟩ := hw
  dsimp only at hgoals hc
  subst hgoals
  have hkeep v x hv := (hc.bound v x hv).1
  cases gs with
  | nil => cases h
  | cons g rest =>
    cases g with
    | bind v t => cases h
    | clash why => cases h
    | unify a b =>
      have hderef : Derives req cfg ⟨.unify a b :: rest, tr⟩
          ⟨.unify (s.deref a) (s.deref b) :: rest, tr⟩ := derives_deref hkeep a b rest
      rw [List.map_cons, mapTerms] at h
      generalize hx : a.subst s.solution = a' at h
      generalize hy : b.subst s.solution = b' at h
      cases h with
      | compare h =>
        rw [← hx, ← hy, ← Bindings.subst_deref hs, ← Bindings.subst_deref hs b] at h
        obtain ⟨gs, hgs, rfl⟩ := h.of_subst (fun v => Bindings.solution_of_deref hconc)
          fun v => Bindings.solution_of_deref hconc
        exact ⟨_, hderef.tail (.compare hgs), (List.map_append).symm, hc⟩
      | turn =>
        refine ⟨⟨.unify b a :: rest, tr⟩, derives_turn a b rest tr, ?_, hc⟩
        rw [List.map_cons, mapTerms, hx, hy]
      | @replace v y _ _ _ hv =>
        have hd := Bindings.deref_eq_var hs hconc hx
        rw [hc.unbound v (Bindings.eq_var_of_deref hconc hd).2] at hv
        obtain ⟨u, hu, rfl⟩ := Option.map_eq_some_iff.mp hv
        rw [hd] at hderef
        refine ⟨_, hderef.tail (.replace hu), ?_, hc⟩
        rw [List.map_cons, mapTerms, Bindings.subst_deref hs, hy]
      | @assign v u _ _ hv hcu ha =>
        have hd := Bindings.deref_eq_var hs hconc hx
        obtain ⟨rfl, hl⟩ := Bindings.eq_var_of_deref hconc hd
        rw [hc.unbound v hl, Option.map_eq_none_iff] at hv
        have hcb := Bindings.concrete_deref hs hconc (hy ▸ hcu)
        have hfree : (Term.var v).Untested req := (hu.goals _ List.mem_cons_self).1
        rw [← hy, ← Bindings.subst_deref hs] at ha ⊢
        have ha' := (Requirements.accept_subst hfree hcb.1 _).symm.trans ha
        rw [hd] at hderef
        exact ⟨_, hderef.tail (.assign hv hcb ha'), rfl, hc.insert hv _⟩

theorem Derives.instantiate (hs : s.Acyclic) (h : Derives req cfg w x) (hu : w.All (Term.Untested req))
    (hw : Instantiates s w w') : ∃ x', Derives req cfg w' x' ∧ Instantiates s x x' := by
  have hrun : ∃ x', Derives req cfg w' x' ∧ x.All (Term.Untested req) ∧ Instantiates s x x' := by
    refine exists_of_reflTransGen (S := fun w w' => w.All (Term.Untested req) ∧ Instantiates s w w')
      (fun h hw => ?_) h ⟨hu, hw⟩
    obtain ⟨x', hx', hx⟩ := h.instantiate hs hw.1 hw.2
    exact ⟨x', hx', h.all (Term.hereditary_untested req) hw.1, hx⟩
  obtain ⟨x', hx', -, hx⟩ := hrun
  exact ⟨x', hx', hx⟩

theorem Derives.exists_derives (hs : s.Acyclic) (hconc : s.Concrete) (h : Derives req cfg w' x')
    (hu : w.All (Term.Untested req)) (hw : Instantiates s w w') :
    ∃ x, Derives req cfg w x ∧ Instantiates s x x' := by
  have hrun : ∃ x, Derives req cfg w x ∧ x.All (Term.Untested req) ∧ Instantiates s x x' := by
    refine exists_of_reflTransGen (S := fun w' w => w.All (Term.Untested req) ∧ Instantiates s w w')
      (fun h hw => ?_) h ⟨hu, hw⟩
    obtain ⟨x, hx, hxx'⟩ := h.exists_derives hs hconc hw.1 hw.2
    exact ⟨x, hx, hx.all (Term.hereditary_untested req) hw.1, hxx'⟩
  obtain ⟨x, hx, -, hxx'⟩ := hrun
  exact ⟨x, hx, hxx'⟩

lemma instantiates_start (a b : Term) (tr : Trail) :
    Instantiates tr.bindings ⟨[.unify a b], tr⟩
      ⟨[.unify (a.subst tr.bindings.solution) (b.subst tr.bindings.solution)], .start .empty⟩ :=
  ⟨rfl, .start _⟩

section Goals

variable (hs : tr.bindings.Acyclic) (hc : tr.bindings.Concrete)
  (hx : Pending.All (Exact cfg) ⟨[.unify a b], tr⟩)
  (hu : Pending.All (Term.Untested req) ⟨[.unify a b], tr⟩)

include hs hc hx hu

theorem exists_reaches_instance {tr₁ : Trail} (h : Reaches req cfg ⟨[.unify a b], tr⟩ ⟨[], tr₁⟩) :
    ∃ tr₂, Reaches req cfg
        ⟨[.unify (a.subst tr.bindings.solution) (b.subst tr.bindings.solution)], .start .empty⟩
        ⟨[], tr₂⟩ ∧ tr.bindings.Continues tr₁.bindings tr₂.bindings := by
  obtain ⟨⟨gs, tr₂⟩, hrun, hgoals, hcont⟩ := Derives.instantiate hs
    ((derives_iff_reaches hx hc).mpr h) hu (instantiates_start a b tr)
  have hnil : gs = [] := hgoals
  subst hnil
  have hgoal := hx.goals _ List.mem_cons_self
  have hinst {t : Term} (ht : t.Exact cfg) : (t.subst tr.bindings.solution).Exact cfg :=
    Term.exact_subst ht fun v _ => hs.exact_solution (fun v t ht => (hx.values v t ht).2) v
  exact ⟨tr₂, hrun.reaches (Pending.all_start (hinst hgoal.1) (hinst hgoal.2))
    Bindings.concrete_empty, hcont⟩

theorem exists_reaches_of_instance {tr₂ : Trail} (h : Reaches req cfg
      ⟨[.unify (a.subst tr.bindings.solution) (b.subst tr.bindings.solution)], .start .empty⟩
      ⟨[], tr₂⟩) :
    ∃ tr₁, Reaches req cfg ⟨[.unify a b], tr⟩ ⟨[], tr₁⟩ ∧
      tr.bindings.Continues tr₁.bindings tr₂.bindings := by
  obtain ⟨⟨gs, tr₁⟩, hrun, hgoals, hcont⟩ := Derives.exists_derives hs hc
    (h.derives Bindings.concrete_empty) hu (instantiates_start a b tr)
  have hnil : gs = [] := List.map_eq_nil_iff.mp hgoals.symm
  subst hnil
  exact ⟨tr₁, (derives_iff_reaches hx hc).mp hrun, hcont⟩

end Goals

section Pair

variable {a₁ a₂ b₁ b₂ : Term} {tr₁ : Trail}

lemma reaches_pair (a₁ a₂ b₁ b₂ : Term) (tr : Trail) :
    Reaches req cfg ⟨[.unify (.sequence [a₁, a₂]) (.sequence [b₁, b₂])], tr⟩
      ⟨[.unify a₁ b₁, .unify a₂ b₂], tr⟩ :=
  .single (.reduce (.compare (.sequences [a₁, a₂] [b₁, b₂])))

lemma reaches_pair_iff (h : Reaches req cfg ⟨[.unify a₁ b₁], tr⟩ ⟨[], tr₁⟩) :
    Reaches req cfg ⟨[.unify (.sequence [a₁, a₂]) (.sequence [b₁, b₂])], tr⟩ ⟨[], tr'⟩ ↔
      Reaches req cfg ⟨[.unify a₂ b₂], tr₁⟩ ⟨[], tr'⟩ := by
  have hpair : (Goal.unify (.sequence [a₁, a₂]) (.sequence [b₁, b₂])).Reduces cfg tr.bindings
      [.unify a₁ b₁, .unify a₂ b₂] := .compare (.sequences [a₁, a₂] [b₁, b₂])
  rw [reaches_iff_of_reduces hpair]
  exact ⟨fun hrun => hrun.rest h, .cons h⟩

lemma unify_pair_eq_mismatch {why : Clash} (h : unify req cfg a₁ b₁ = .mismatch why) :
    unify req cfg (.sequence [a₁, a₂]) (.sequence [b₁, b₂]) = .mismatch why := by
  obtain ⟨tr, hends⟩ := unify_eq_mismatch_iff.mp h
  cases hends with
  | clash hrun hg =>
    have hpair := (reaches_pair a₁ a₂ b₁ b₂ (.start .empty)).trans (hrun.append [.unify a₂ b₂])
    exact unify_eq_mismatch_iff.mpr ⟨_, .clash hpair hg⟩

theorem unify_pair_composes (req : Requirements) (cfg : Config) (a₁ a₂ b₁ b₂ : Term)
    (h : ∀ t ∈ [a₁, a₂, b₁, b₂], t.Exact cfg ∧ t.Untested req) :
    (∀ s, unify req cfg a₁ b₁ = .unified s → s.Acyclic →
      ∃ x y, s.apply a₂ = some x ∧ s.apply b₂ = some y ∧
        ((unify req cfg (.sequence [a₁, a₂]) (.sequence [b₁, b₂])).succeeded = true ↔
          (unify req cfg x y).succeeded = true) ∧
        ∀ f t, unify req cfg (.sequence [a₁, a₂]) (.sequence [b₁, b₂]) = .unified f →
          unify req cfg x y = .unified t →
          f.entries.map Prod.fst = s.entries.map Prod.fst ++ t.entries.map Prod.fst ∧
          (f.Acyclic → ∀ u, ∃ u' u'', s.apply u = some u' ∧ t.apply u' = some u'' ∧
            f.apply u = some u'')) ∧
    ∀ why, unify req cfg a₁ b₁ = .mismatch why →
      unify req cfg (.sequence [a₁, a₂]) (.sequence [b₁, b₂]) = .mismatch why := by
  refine ⟨fun s hs hacyclic => ?_, fun why => unify_pair_eq_mismatch⟩
  obtain ⟨tr₁, hfirst, rfl⟩ := unify_eq_unified_iff.mp hs
  have hc : tr₁.bindings.Concrete := Reaches.concrete hfirst Bindings.concrete_empty
  have hall {p : Term → Prop} (hp : Hereditary p) (ht : ∀ t ∈ [a₁, a₂, b₁, b₂], p t) :
      Pending.All p ⟨[.unify a₂ b₂], tr₁⟩ := by
    have hstart := Pending.all_start (ht a₁ (by simp)) (ht b₁ (by simp))
    exact ⟨List.forall_mem_singleton.mpr ⟨ht a₂ (by simp), ht b₂ (by simp)⟩,
      (hfirst.all hp hstart).values⟩
  have hx := hall (Term.hereditary_exact cfg) fun t ht => (h t ht).1
  have hu := hall (Term.hereditary_untested req) fun t ht => (h t ht).2
  have hforth {f : Bindings}
      (hf : unify req cfg (.sequence [a₁, a₂]) (.sequence [b₁, b₂]) = .unified f) :
      ∃ t, unify req cfg (a₂.subst tr₁.bindings.solution) (b₂.subst tr₁.bindings.solution) =
        .unified t ∧ tr₁.bindings.Continues f t := by
    obtain ⟨tr, hrun, rfl⟩ := unify_eq_unified_iff.mp hf
    obtain ⟨tr₂, hrun₂, hcont⟩ :=
      exists_reaches_instance hacyclic hc hx hu ((reaches_pair_iff hfirst).mp hrun)
    exact ⟨tr₂.bindings, unify_eq_unified_iff.mpr ⟨tr₂, hrun₂, rfl⟩, hcont⟩
  refine ⟨_, _, hacyclic.apply_eq_subst a₂, hacyclic.apply_eq_subst b₂, ?_, fun f t hf ht => ?_⟩
  · rw [Outcome.succeeded_iff, Outcome.succeeded_iff]
    constructor
    · rintro ⟨f, hf⟩
      obtain ⟨t, ht, _⟩ := hforth hf
      exact ⟨t, ht⟩
    · rintro ⟨t, ht⟩
      obtain ⟨tr₂, hrun₂, _⟩ := unify_eq_unified_iff.mp ht
      obtain ⟨tr, hrun, _⟩ := exists_reaches_of_instance hacyclic hc hx hu hrun₂
      exact ⟨_, unify_eq_unified_iff.mpr ⟨tr, (reaches_pair_iff hfirst).mpr hrun, rfl⟩⟩
  · obtain ⟨t', ht', hcont⟩ := hforth hf
    cases ht.symm.trans ht'
    exact ⟨hcont.order, hcont.apply_eq hacyclic⟩

end Pair

section Relay

open Term (sequence var primitive wildcard)

def relayRequirements : Requirements := fun v => if v = ⟨2⟩ then some (.type .long) else none

def relayValue : Term := sequence [var ⟨1⟩, primitive .nil]

def relayLeft : Term := sequence [var ⟨2⟩, sequence [var ⟨2⟩, wildcard]]

def relayRight : Term := sequence [primitive (.long 5), var ⟨0⟩]

def relayRest : Bindings := .several [(⟨2⟩, primitive (.long 5)), (⟨1⟩, primitive (.long 5))]

def relayBindings : Bindings :=
  .several [(⟨0⟩, relayValue), (⟨2⟩, primitive (.long 5)), (⟨1⟩, primitive (.long 5))]

lemma untested_relay (t : Term) : t.Untested relayRequirements := by
  intro v _ accepts
  rw [relayRequirements]
  split <;> simp

lemma acyclic_relayStart : (Bindings.single ⟨0⟩ relayValue).Acyclic := by
  apply Bindings.acyclic_of_rank fun v => 1 - v.id
  simp [relayValue, Bindings.entries, Term.Occurs]

lemma acyclic_relayBindings : relayBindings.Acyclic := by
  apply Bindings.acyclic_of_rank fun v => 1 - v.id
  simp [relayBindings, relayValue, Bindings.entries, Term.Occurs]

theorem unify_pair_composes_relay :
    (∀ t ∈ [var ⟨0⟩, relayLeft, relayValue, relayRight],
      t.Exact .standard ∧ t.Untested relayRequirements) ∧
    unify relayRequirements .standard (var ⟨0⟩) relayValue = .unified (.single ⟨0⟩ relayValue) ∧
    unify relayRequirements .standard (sequence [var ⟨0⟩, relayLeft])
      (sequence [relayValue, relayRight]) = .unified relayBindings ∧
    unify relayRequirements .standard relayLeft (sequence [primitive (.long 5), relayValue]) =
      .unified relayRest ∧
    relayBindings.entries.map Prod.fst = [⟨0⟩] ++ relayRest.entries.map Prod.fst ∧
    ∃ u u', (Bindings.single ⟨0⟩ relayValue).apply (var ⟨0⟩) = some u ∧ relayRest.apply u = some u' ∧
      relayBindings.apply (var ⟨0⟩) = some u' := by
  have h : ∀ t ∈ [var ⟨0⟩, relayLeft, relayValue, relayRight],
      t.Exact .standard ∧ t.Untested relayRequirements := by
    have hexact : ∀ t ∈ [var ⟨0⟩, relayLeft, relayValue, relayRight], t.Exact .standard := by decide
    exact fun t ht => ⟨hexact t ht, untested_relay t⟩
  obtain ⟨hpair, _⟩ := unify_pair_composes relayRequirements .standard _ _ _ _ h
  obtain ⟨x, y, hx, hy, -, hsolved⟩ := hpair _ rfl acyclic_relayStart
  cases hx
  cases hy
  obtain ⟨horder, happly⟩ := hsolved relayBindings relayRest rfl rfl
  exact ⟨h, rfl, rfl, rfl, horder, happly acyclic_relayBindings (var ⟨0⟩)⟩

end Relay

end Unification
