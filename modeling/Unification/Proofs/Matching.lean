import Unification.Proofs.Constants

namespace Unification

open Term (Occurs)

variable {req : Requirements} {cfg : Config} {a b x y t u : Term} {gs : List Goal}
  {s : Bindings} {θ : Variable → Term} {w : Pending} {tr : Trail}

structure Term.Plain (cfg : Config) (t : Term) : Prop extends Strict cfg t where
  ground : t.isGround = true

namespace Term

instance (cfg : Config) : DecidablePred (Plain cfg) := fun t =>
  decidable_of_iff (t.Strict cfg ∧ t.isGround = true)
    ⟨fun ⟨hs, hg⟩ => ⟨hs, hg⟩, fun h => ⟨h.toStrict, h.ground⟩⟩

lemma hereditary_plain (cfg : Config) : Hereditary (Plain cfg) where
  item h ht := ⟨(hereditary_strict cfg).item h.toStrict ht, hereditary_isGround.item h.ground ht⟩
  entry h he := ⟨(hereditary_strict cfg).entry h.toStrict he, hereditary_isGround.entry h.ground he⟩

lemma Plain.candidate (h : t.Plain cfg) : s.candidate t = some t := by
  refine Bindings.candidate_of_concrete ⟨?_, h.wildcardFree _ (self_mem_parts _)⟩
  cases t with
  | var v => cases h.ground
  | _ => rfl

lemma Plain.constant (h : t.Plain cfg) : t.Constant cfg := ⟨h.toStrict.sharp, h.ground⟩

lemma Plain.passes_of_equals (hx : x.Plain cfg) (hy : y.Plain cfg) (h : x.equals y = true) :
    (Goal.unify x y).Passes cfg :=
  hx.constant.passes_of_equals hy.constant h

theorem Plain.passes_iff_equals (hx : x.Plain cfg) (hy : y.Plain cfg) :
    (Goal.unify x y).Passes cfg ↔ x.equals y = true :=
  hx.constant.passes_iff_equals hy.constant

lemma Plain.subst (h : t.Plain cfg) (θ : Variable → Term) : t.subst θ = t :=
  subst_of_isGround h.ground

structure Within (a x : Term) : Prop where
  wellFormed : x.WellFormed
  occurs : ∀ v, Occurs v x → Occurs v a

lemma hereditary_within (a : Term) : Hereditary (Within a) where
  item h ht := ⟨hereditary_wellFormed.item h.wellFormed ht,
    (hereditary_forall_occurs _).item h.occurs ht⟩
  entry h he := ⟨hereditary_wellFormed.entry h.wellFormed he,
    (hereditary_forall_occurs _).entry h.occurs he⟩

lemma Plain.within (h : t.Plain cfg) (a : Term) : Within a t :=
  ⟨h.wellFormed, fun v hv => (isGround_iff.mp h.ground v hv).elim⟩

end Term

open Term (Plain Within)

def Bindings.Admits (req : Requirements) (cfg : Config) (a : Term) (s : Bindings) : Prop :=
  ∀ v t, s.lookup v = some t → Occurs v a ∧ t.Plain cfg ∧ req.accept v t = true

structure Pending.Matches (req : Requirements) (cfg : Config) (a : Term) (w : Pending) : Prop where
  goals : ∀ g ∈ w.goals, g.Sides (Within a) (Plain cfg)
  values : w.trail.bindings.Admits req cfg a

namespace Goal

lemma Compares.matches (h : Compares cfg x y gs) (hx : Within a x) (hy : y.Plain cfg) :
    ∀ g ∈ gs, g.Sides (Within a) (Plain cfg) := by
  refine h.sides (Term.hereditary_within a) (Term.hereditary_plain cfg) ?_ hx hy
  intro es fs key _ hfs hc hkey
  rw [hfs.contains_eq_false hc] at hkey
  cases hkey

lemma Reduces.matches {g : Goal} (h : g.Reduces cfg s gs) (hs : s.Admits req cfg a)
    (hg : g.Sides (Within a) (Plain cfg)) : ∀ g' ∈ gs, g'.Sides (Within a) (Plain cfg) := by
  cases h with
  | compare h => exact h.matches hg.1 hg.2
  | variable_left ht => exact List.forall_mem_singleton.mpr hg
  | variable_right ht hv => cases hg.2.ground
  | bind_wildcard v => simp
  | recheck ht hv =>
    rw [hg.2.candidate] at ht
    cases ht
    exact List.forall_mem_singleton.mpr ⟨(hs _ _ hv).2.1.within a, hg.2⟩
  | exchange hw hv => cases hg.2.ground

end Goal

lemma Advance.matches {w' : Pending} (h : Advance req cfg w w') (hw : w.Matches req cfg a) :
    w'.Matches req cfg a := by
  cases h with
  | reduce h =>
    obtain ⟨hg, hrest⟩ := List.forall_mem_cons.mp hw.goals
    exact ⟨List.forall_mem_append.mpr ⟨h.matches hw.values hg, hrest⟩, hw.values⟩
  | assign h =>
    obtain ⟨hg, hrest⟩ := List.forall_mem_cons.mp hw.goals
    refine ⟨hrest, fun v t ht => ?_⟩
    cases h with
    | bind hc hv hu =>
      rw [Trail.lookup_assign] at ht
      split at ht
      · next heq =>
        rw [hg.2.candidate] at hc
        cases hc
        cases ht
        exact ⟨heq ▸ hg.1.occurs _ (Term.occurs_var.mpr rfl), hg.2, heq ▸ hu⟩
      · exact hw.values v t ht

theorem Reaches.matches {w' : Pending} (h : Reaches req cfg w w') (hw : w.Matches req cfg a) :
    w'.Matches req cfg a :=
  h.preserves (fun hs => hs.matches) hw

def Goal.Covered (s : Bindings) : Goal → Prop
  | unify x _ => ∀ v, Occurs v x → (s.lookup v).isSome = true
  | bind v _ => (s.lookup v).isSome = true
  | clash _ => True

lemma Goal.Compares.covered (h : Compares cfg x y gs) (hx : x.WellFormed) (hy : y.Plain cfg)
    (hc : ∀ g ∈ gs, g.isClash = false) (hgs : ∀ g ∈ gs, g.Covered s) :
    (Goal.unify x y).Covered s := by
  cases h with
  | wildcard_left | callables | primitives =>
    intro v hv
    simp [Occurs] at hv
  | wildcard_right => cases hy.wildcardFree _ (Term.self_mem_parts _)
  | sequences xs ys =>
    intro v hv
    obtain ⟨x, hxs, hv⟩ := Term.occurs_sequence.mp hv
    obtain ⟨y, hxy⟩ := exists_mem_ofSequences hc hxs
    exact hgs _ hxy v hv
  | records es fs =>
    intro v hv
    obtain ⟨e, he, hv⟩ := Term.occurs_record.mp hv
    obtain ⟨y, hxy⟩ := exists_mem_ofRecords (Term.wellFormed_record.mp hx).1
      (Term.wellFormed_record.mp hy.wellFormed).1 (fun key hk => hy.contains_eq_false hk) hc he
    exact hgs _ hxy v hv

theorem Reaches.covered (h : Reaches req cfg w ⟨[], tr⟩) (hw : w.Matches req cfg a) :
    ∀ g ∈ w.goals, g.Covered tr.bindings := by
  induction h using Relation.ReflTransGen.head_induction_on with
  | refl => simp
  | @head w w' hab hbc ih =>
    have hgoals := ih (hab.matches hw)
    have hkeep {v : Variable} {t : Term} (ht : w'.trail.bindings.lookup v = some t) :
        (tr.bindings.lookup v).isSome = true := Option.isSome_of_eq_some (Reaches.lookup hbc ht)
    cases hab with
    | @reduce g gs rest tr₀ h =>
      obtain ⟨hgs, hrest⟩ := List.forall_mem_append.mp hgoals
      refine List.forall_mem_cons.mpr ⟨?_, hrest⟩
      have hg := hw.goals g List.mem_cons_self
      cases h with
      | compare h =>
        have hclash := fun g' hg' => not_clash_of_reaches hbc g' (List.mem_append_left _ hg')
        exact h.covered hg.1.wellFormed hg.2 hclash hgs
      | variable_left ht =>
        intro v hv
        exact Term.occurs_var.mp hv ▸ hgs _ List.mem_cons_self
      | variable_right ht hv => cases hg.2.ground
      | bind_wildcard v => cases hg.2.wildcardFree _ (Term.self_mem_parts _)
      | recheck ht hv => exact hkeep hv
      | exchange hw hv => exact hkeep hv
    | @assign g v u rest tr₀ h =>
      refine List.forall_mem_cons.mpr ⟨?_, hgoals⟩
      cases h with
      | bind ht hv hu => exact hkeep (t := u) (by simp)

def Fits (req : Requirements) (cfg : Config) (a : Term) (θ : Variable → Term) : Prop :=
  ∀ v, Occurs v a → (θ v).Plain cfg ∧ req.accept v (θ v) = true

lemma matches_start (ha : a.WellFormed) (hb : b.Plain cfg) :
    Pending.Matches req cfg a ⟨[.unify a b], .start .empty⟩ :=
  ⟨List.forall_mem_singleton.mpr ⟨⟨ha, fun _ hv => hv⟩, hb⟩, by simp [Bindings.Admits, Trail.start]⟩

theorem passes_of_unify (ha : a.WellFormed) (hb : b.Plain cfg)
    (h : unify req cfg a b = .unified s) :
    ∃ θ, (∀ v, Occurs v a → s.lookup v = some (θ v)) ∧ Fits req cfg a θ ∧
      (Goal.unify (a.subst θ) b).Passes cfg := by
  obtain ⟨tr, hrun, rfl⟩ := unify_eq_unified_iff.mp h
  have hstart : Pending.Matches req cfg a _ := matches_start ha hb
  have hvalues := (Reaches.matches hrun hstart).values
  have hbound := Reaches.covered hrun hstart _ List.mem_cons_self
  let θ : Variable → Term := fun v => (tr.bindings.lookup v).getD .wildcard
  have hθ : ∀ v t, tr.bindings.lookup v = some t → θ v = t := by
    intro v t ht
    simp [θ, ht]
  have hlook : ∀ v, Occurs v a → tr.bindings.lookup v = some (θ v) := by
    intro v hv
    obtain ⟨t, ht⟩ := Option.isSome_iff_exists.mp (hbound v hv)
    rw [ht, hθ v t ht]
  have hwf : ∀ v, (θ v).WellFormed := by
    intro v
    cases hl : tr.bindings.lookup v with
    | none => simp [θ, hl, Term.WellFormed]
    | some t => exact hθ v t hl ▸ (hvalues v t hl).2.1.wellFormed
  refine ⟨θ, hlook, fun v hv => (hvalues v _ (hlook v hv)).2, ?_⟩
  have hself : ∀ v t, tr.bindings.lookup v = some t →
      (Goal.unify (t.subst θ) (t.subst θ)).Passes cfg := by
    intro v t ht
    have hplain := (hvalues v t ht).2.1
    rw [hplain.subst]
    exact .refl hplain.wellFormed hplain.ground hplain.nanFree
  have hgoal := hrun.holds Term.hereditary_wellFormed (Goal.transports_passes cfg hwf)
    (Pending.all_start ha hb.wellFormed)
    (fun v t ht => (hθ v t ht).trans ((hvalues v t ht).2.1.subst θ).symm) hself _ List.mem_cons_self
  rw [Goal.Holds, hb.subst] at hgoal
  exact hgoal

def Agrees (cfg : Config) (θ : Variable → Term) (s : Bindings) : Prop :=
  ∀ v t, s.lookup v = some t → t.Plain cfg ∧ (θ v).equals t = true

lemma reaches_bind (hfit : Fits req cfg a θ)
    (hreq : ∀ v, Occurs v a → ∀ x y, x.equals y = true → req.accept v x = req.accept v y)
    {v : Variable} (hv : Occurs v a) (hy : y.Plain cfg) (h : (θ v).equals y = true)
    (htr : Agrees cfg θ tr.bindings) :
    ∃ tr', Reaches req cfg ⟨[.bind v y], tr⟩ ⟨[], tr'⟩ ∧ Agrees cfg θ tr'.bindings := by
  cases hl : tr.bindings.lookup v with
  | none =>
    have hu : req.accept v y = true := hreq v hv _ _ h ▸ (hfit v hv).2
    refine ⟨tr.assign v y, .single (.assign (.bind hy.candidate hl hu)), fun w t ht => ?_⟩
    rw [Trail.lookup_assign] at ht
    split at ht
    · next heq =>
      cases ht
      exact ⟨hy, heq ▸ h⟩
    · exact htr w t ht
  | some u =>
    obtain ⟨hu, hvu⟩ := htr v u hl
    have hpass := hu.passes_of_equals hy (Term.equals_trans (Term.equals_symm hvu) h)
    exact ⟨tr, .head (.reduce (.recheck hy.candidate hl)) (hpass.reaches tr), htr⟩

lemma reaches_of_forall_agrees
    (h : ∀ g ∈ gs, ∀ tr, Agrees cfg θ tr.bindings →
      ∃ tr', Reaches req cfg ⟨[g], tr⟩ ⟨[], tr'⟩ ∧ Agrees cfg θ tr'.bindings)
    (htr : Agrees cfg θ tr.bindings) :
    ∃ tr', Reaches req cfg ⟨gs, tr⟩ ⟨[], tr'⟩ ∧ Agrees cfg θ tr'.bindings := by
  induction gs generalizing tr with
  | nil => exact ⟨tr, .refl, htr⟩
  | cons g gs ih =>
    obtain ⟨hg, hgs⟩ := List.forall_mem_cons.mp h
    obtain ⟨tr₁, hrun, htr₁⟩ := hg tr htr
    obtain ⟨tr₂, hrest, htr₂⟩ := ih hgs htr₁
    exact ⟨tr₂, Reaches.cons hrun hrest, htr₂⟩

theorem reaches_of_passes (hfit : Fits req cfg a θ)
    (hreq : ∀ v, Occurs v a → ∀ x y, x.equals y = true → req.accept v x = req.accept v y)
    (h : (Goal.unify (x.subst θ) y).Passes cfg) (hx : Within a x) (hy : y.Plain cfg)
    (htr : Agrees cfg θ tr.bindings) :
    ∃ tr', Reaches req cfg ⟨[.unify x y], tr⟩ ⟨[], tr'⟩ ∧ Agrees cfg θ tr'.bindings := by
  generalize hg : Goal.unify (x.subst θ) y = g at h
  induction h generalizing x y tr with
  | @compare _ y gs h hgs ih =>
    cases hg
    by_cases hvar : x.isVariable = true
    · cases x with
      | var v =>
        have hv := hx.occurs v (Term.occurs_var.mpr rfl)
        have heq := ((hfit v hv).1.passes_iff_equals hy).mp (.compare h hgs)
        obtain ⟨tr', hrun, htr'⟩ := reaches_bind hfit hreq hv hy heq htr
        have hwild : y.isWildcard = false := hy.wildcardFree _ (Term.self_mem_parts _)
        exact ⟨tr', hrun.head (.reduce (.variable_left hwild)), htr'⟩
      | _ => cases hvar
    · have hnovar : ∀ v, x = .var v → θ v = .var v := fun v hv => by
        simp [hv, Term.isVariable, Term.asVariable] at hvar
      obtain ⟨hs, hcompare⟩ := h.of_subst_left hnovar
      have hinst := hcompare.subst θ
      rw [hy.subst] at hinst
      obtain rfl := h.unique hinst
      have hsides := hcompare.matches hx hy
      have hrun : ∀ g ∈ hs, ∀ tr, Agrees cfg θ tr.bindings →
          ∃ tr', Reaches req cfg ⟨[g], tr⟩ ⟨[], tr'⟩ ∧ Agrees cfg θ tr'.bindings := by
        intro g hg tr htr
        have hmem : g.mapTerms (Term.subst θ) ∈ hs.map (Goal.mapTerms (Term.subst θ)) :=
          List.mem_map_of_mem hg
        rcases hcompare.mem hg with ⟨x', y', rfl⟩ | hc
        · obtain ⟨hx', hy'⟩ := hsides _ hg
          exact ih _ hmem hx' hy' htr (by rw [Goal.mapTerms, hy'.subst])
        · have hclash := (hgs _ hmem).not_clash
          cases g <;> cases hc
          cases hclash
      obtain ⟨tr', hreach, htr'⟩ := reaches_of_forall_agrees hrun htr
      exact ⟨tr', reaches_of_reduces (.compare hcompare) hreach, htr'⟩

lemma unify_of_passes (ha : a.WellFormed) (hb : b.Plain cfg) (hfit : Fits req cfg a θ)
    (hreq : ∀ v, Occurs v a → ∀ x y, x.equals y = true → req.accept v x = req.accept v y)
    (h : (Goal.unify (a.subst θ) b).Passes cfg) :
    ∃ s, unify req cfg a b = .unified s ∧ Agrees cfg θ s := by
  have hempty : Agrees cfg θ (Trail.start .empty).bindings := by simp [Agrees, Trail.start]
  obtain ⟨tr, hrun, htr⟩ := reaches_of_passes hfit hreq h ⟨ha, fun _ hv => hv⟩ hb hempty
  exact ⟨tr.bindings, unify_eq_unified_iff.mpr ⟨tr, hrun, rfl⟩, htr⟩

lemma lookup_isSome_iff_occurs (ha : a.WellFormed) (hb : b.Plain cfg)
    (h : unify req cfg a b = .unified s) (v : Variable) :
    (s.lookup v).isSome = true ↔ Occurs v a := by
  obtain ⟨tr, hrun, rfl⟩ := unify_eq_unified_iff.mp h
  have hstart : Pending.Matches req cfg a _ := matches_start ha hb
  constructor
  · intro hv
    obtain ⟨t, ht⟩ := Option.isSome_iff_exists.mp hv
    exact ((Reaches.matches hrun hstart).values v t ht).1
  · exact Reaches.covered hrun hstart _ List.mem_cons_self v

lemma isGround_subst (hfit : Fits req cfg a θ) : (a.subst θ).isGround = true := by
  rw [Term.isGround_iff]
  intro w hw
  obtain ⟨v, hv, hw⟩ := Term.occurs_subst hw
  exact Term.isGround_iff.mp (hfit v hv).1.ground w hw

theorem unify_plain_iff_exists_fits (ha : a.WellFormed) (hb : b.Plain cfg)
    (hreq : ∀ v, Occurs v a → ∀ x y, x.equals y = true → req.accept v x = req.accept v y) :
    ((∃ s, unify req cfg a b = .unified s) ↔
      ∃ θ, Fits req cfg a θ ∧ (unify req cfg (a.subst θ) b).succeeded = true) ∧
    ∀ s, unify req cfg a b = .unified s →
      (∀ v, (s.lookup v).isSome = true ↔ Occurs v a) ∧
      (∃ θ, (∀ v, Occurs v a → s.lookup v = some (θ v)) ∧ Fits req cfg a θ ∧
        (unify req cfg (a.subst θ) b).succeeded = true) ∧
      ∀ θ, Fits req cfg a θ → (unify req cfg (a.subst θ) b).succeeded = true →
        ∀ v, Occurs v a → ∃ t, s.lookup v = some t ∧ (θ v).equals t = true := by
  have hground {θ : Variable → Term} (hfit : Fits req cfg a θ) :
      (unify req cfg (a.subst θ) b).succeeded = true ↔ (Goal.unify (a.subst θ) b).Passes cfg :=
    Goal.unify_succeeded_iff_passes (isGround_subst hfit) hb.ground
  have hsound : ∀ s, unify req cfg a b = .unified s →
      ∃ θ, (∀ v, Occurs v a → s.lookup v = some (θ v)) ∧ Fits req cfg a θ ∧
        (unify req cfg (a.subst θ) b).succeeded = true := by
    intro s h
    obtain ⟨θ, hlook, hfit, hpass⟩ := passes_of_unify ha hb h
    exact ⟨θ, hlook, hfit, (hground hfit).mpr hpass⟩
  refine ⟨⟨fun ⟨s, h⟩ => ?_, fun ⟨θ, hfit, h⟩ => ?_⟩, fun s h => ?_⟩
  · obtain ⟨θ, _, hfit, hθ⟩ := hsound s h
    exact ⟨θ, hfit, hθ⟩
  · obtain ⟨s, hs, _⟩ := unify_of_passes ha hb hfit hreq ((hground hfit).mp h)
    exact ⟨s, hs⟩
  · have hdom := lookup_isSome_iff_occurs ha hb h
    refine ⟨hdom, hsound s h, fun θ hfit hθ v hv => ?_⟩
    obtain ⟨s', hs', hagrees⟩ := unify_of_passes ha hb hfit hreq ((hground hfit).mp hθ)
    obtain rfl : s = s' := Outcome.unified.inj (h.symm.trans hs')
    obtain ⟨t, ht⟩ := Option.isSome_iff_exists.mp ((hdom v).mpr hv)
    exact ⟨t, ht, (hagrees v t ht).2⟩

section Zeros

open Term (sequence record var primitive wildcard)

def zerosPattern : Term :=
  sequence [var ⟨0⟩, var ⟨0⟩, record [("_", var ⟨1⟩), ("p", wildcard)]]

def zerosData : Term :=
  sequence [primitive (.float ⟨0⟩), primitive (.float ⟨0x8000000000000000⟩),
    record [("p", primitive .nil), ("q", primitive (.long 2)), ("r", primitive (.long 2))]]

def zerosBindings : Bindings :=
  .several [(⟨0⟩, primitive (.float ⟨0⟩)), (⟨1⟩, primitive (.long 2))]

def zerosRequirements : Requirements := fun v => if v = ⟨0⟩ then some (.type .float) else none

lemma zerosRequirements_congr (v : Variable) (h : x.equals y = true) :
    zerosRequirements.accept v x = zerosRequirements.accept v y := by
  rw [Requirements.accept, Requirements.accept, zerosRequirements]
  split
  · next c hc =>
    split at hc <;> cases hc
    rw [Constraint.satisfiedBy, Constraint.satisfiedBy, TypeDescriptor.of_eq_of_equals h]
  · rfl

theorem unify_plain_iff_exists_fits_zeros :
    zerosPattern.WellFormed ∧ zerosData.Plain .standard ∧
      (∀ v, Occurs v zerosPattern → ∀ x y, x.equals y = true →
        zerosRequirements.accept v x = zerosRequirements.accept v y) ∧
      unify zerosRequirements .standard zerosPattern zerosData = .unified zerosBindings ∧
      (∃ θ, (∀ v, Occurs v zerosPattern → zerosBindings.lookup v = some (θ v)) ∧
        Fits zerosRequirements .standard zerosPattern θ ∧
        (unify zerosRequirements .standard (zerosPattern.subst θ) zerosData).succeeded = true) ∧
      ∀ θ, Fits zerosRequirements .standard zerosPattern θ →
        (unify zerosRequirements .standard (zerosPattern.subst θ) zerosData).succeeded = true →
        ∀ v, Occurs v zerosPattern →
          ∃ t, zerosBindings.lookup v = some t ∧ (θ v).equals t = true := by
  have hreq : ∀ v, Occurs v zerosPattern → ∀ x y, x.equals y = true →
      zerosRequirements.accept v x = zerosRequirements.accept v y :=
    fun v _ _ _ h => zerosRequirements_congr v h
  have ha : zerosPattern.WellFormed := by decide
  have hb : zerosData.Plain .standard := by decide
  obtain ⟨_, hall⟩ := unify_plain_iff_exists_fits ha hb hreq
  obtain ⟨_, hchoice, honly⟩ := hall zerosBindings rfl
  exact ⟨ha, hb, hreq, rfl, hchoice, honly⟩

end Zeros

end Unification
