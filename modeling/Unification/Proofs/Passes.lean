import Unification.Proofs.DepthBound
import Unification.Proofs.Exchange
import Unification.Proofs.Instances

/-! Goals that are met without a binding. -/

namespace Unification

open Term (Hereditary)

namespace Goal

/-- Reduced to the end, the goal binds nothing. -/
inductive Passes (cfg : Config) : Goal → Prop
  | compare {a b : Term} {gs : List Goal} (h : Compares cfg a b gs)
      (hgs : ∀ g ∈ gs, Passes cfg g) : Passes cfg (unify a b)

variable {req : Requirements} {cfg : Config} {a b : Term} {g : Goal} {gs : List Goal}

lemma Passes.not_clash (h : g.Passes cfg) : g.isClash = false := by
  cases h
  rfl

lemma Passes.of_reduces {s : Bindings} (hg : g.Passes cfg) (h : g.Reduces cfg s gs) :
    ∀ g' ∈ gs, g'.Passes cfg := by
  cases hg with
  | compare hc hgs =>
    cases h with
    | compare h => exact h.unique hc ▸ hgs
    | variable_left ht =>
      cases hc
      cases ht
    | variable_right ht =>
      cases hc
      cases ht

lemma reaches_of_forall {tr : Trail} (h : ∀ g ∈ gs, Reaches req cfg ⟨[g], tr⟩ ⟨[], tr⟩) :
    Reaches req cfg ⟨gs, tr⟩ ⟨[], tr⟩ := by
  induction gs with
  | nil => exact .refl
  | cons g gs ih =>
    obtain ⟨hg, hgs⟩ := List.forall_mem_cons.mp h
    exact Reaches.cons hg (ih hgs)

lemma Passes.reaches (h : g.Passes cfg) (tr : Trail) : Reaches req cfg ⟨[g], tr⟩ ⟨[], tr⟩ := by
  induction h with
  | compare h _ ih => exact reaches_of_reduces (.compare h) (reaches_of_forall ih)

lemma ends_append_passes_iff {hs : List Goal} {tr : Trail} {r : Result} (h : ∀ g ∈ hs, g.Passes cfg) :
    Ends req cfg ⟨gs ++ hs, tr⟩ r ↔ Ends req cfg ⟨gs, tr⟩ r := by
  have happend {r : Result} (hr : Ends req cfg ⟨gs, tr⟩ r) : Ends req cfg ⟨gs ++ hs, tr⟩ r := by
    cases hr with
    | @done tr' hx => exact .done (hx.chain (reaches_of_forall fun g hg => (h g hg).reaches tr'))
    | clash hx hg => exact .clash (hx.append hs) hg
  refine ⟨fun hr => ?_, happend⟩
  obtain ⟨r', hr'⟩ := hr.exists_left
  exact hr.unique (happend hr') ▸ hr'

lemma ends_passes_append_iff {hs : List Goal} {tr : Trail} {r : Result} (h : ∀ g ∈ gs, g.Passes cfg) :
    Ends req cfg ⟨gs ++ hs, tr⟩ r ↔ Ends req cfg ⟨hs, tr⟩ r :=
  ends_iff_of_reaches ((reaches_of_forall fun g hg => (h g hg).reaches tr).append hs)

lemma passes_of_isWildcard (h : a.isWildcard = true ∨ b.isWildcard = true) :
    (unify a b).Passes cfg := by
  rcases h with h | h
  · cases a with
    | wildcard => exact .compare (.wildcard_left b) (by simp)
    | _ => cases h
  · cases b with
    | wildcard => exact .compare (.wildcard_right a) (by simp)
    | _ => cases h

theorem unify_eq_empty_of_passes (h : (unify a b).Passes cfg) :
    Unification.unify req cfg a b = .unified .empty :=
  unify_eq_unified_iff.mpr ⟨_, h.reaches (.start .empty), rfl⟩

lemma Compares.mem (h : Compares cfg a b gs) (hg : g ∈ gs) :
    (∃ x y, g = unify x y) ∨ g.isClash = true := by
  rcases h.mem_children hg with ⟨x, _, y, _, rfl | rfl⟩ | hc
  · exact .inl ⟨x, y, rfl⟩
  · exact .inl ⟨y, x, rfl⟩
  · exact .inr hc

lemma isRigid_of_compares (h : Compares cfg a b gs) (hr : (unify a b).isRigid = true) (hg : g ∈ gs)
    (hc : g.isClash = false) : g.isRigid = true := by
  rcases isRigid_unify.mp hr with ha | hb | ⟨ha, hb⟩
  · cases h with
    | wildcard_left | wildcard_right => simp at hg
    | _ => cases ha
  · cases h with
    | wildcard_left | wildcard_right => simp at hg
    | _ => cases hb
  · have hground := h.all Term.hereditary_isGround ha hb g hg
    rcases h.mem hg with ⟨x, y, rfl⟩ | hc'
    · exact isRigid_unify.mpr (.inr (.inr hground))
    · rw [hc] at hc'
      cases hc'

theorem passes_of_isRigid {w : Pending} {tr : Trail} (h : Reaches req cfg w ⟨[], tr⟩) :
    ∀ g ∈ w.goals, g.isRigid = true → g.Passes cfg := by
  induction h using Relation.ReflTransGen.head_induction_on with
  | refl => simp
  | @head w x hab hbc ih =>
    cases hab with
    | @reduce g gs rest tr₀ h =>
      obtain ⟨hgs, hrest⟩ := List.forall_mem_append.mp ih
      refine List.forall_mem_cons.mpr ⟨fun hr => ?_, hrest⟩
      cases h with
      | compare h =>
        have hclash := fun g' hg' => not_clash_of_reaches hbc g' (List.mem_append_left _ hg')
        exact .compare h fun g' hg' => hgs g' hg' (isRigid_of_compares h hr hg' (hclash g' hg'))
      | variable_left ht =>
        rw [isRigid, ht] at hr
        cases hr
      | variable_right ht =>
        rw [isRigid, ht] at hr
        simp [Term.isWildcard, Term.isGround] at hr
      | bind_wildcard | recheck | exchange => cases hr
    | @assign g v u rest tr₀ h =>
      refine List.forall_mem_cons.mpr ⟨fun hr => ?_, ih⟩
      cases h
      cases hr

theorem unify_succeeded_iff_passes (ha : a.isGround = true) (hb : b.isGround = true) :
    (Unification.unify req cfg a b).succeeded = true ↔ (unify a b).Passes cfg := by
  rw [Outcome.succeeded_iff]
  constructor
  · rintro ⟨s, hu⟩
    obtain ⟨tr, hrun, -⟩ := unify_eq_unified_iff.mp hu
    exact passes_of_isRigid hrun _ List.mem_cons_self (by simp [isRigid, ha, hb])
  · intro h
    exact ⟨_, unify_eq_empty_of_passes h⟩

theorem Passes.symm (h : (unify a b).Passes cfg) (ha : a.WellFormed) (hb : b.WellFormed) :
    (unify b a).Passes cfg := by
  -- an absorbed goal is not turned round, hence the goals are general in the induction
  suffices hall : ∀ g, g.Passes cfg → ∀ a b, g = unify a b → a.WellFormed → b.WellFormed →
      (unify b a).Passes cfg from hall _ h a b rfl ha hb
  clear h ha hb
  intro g h
  induction h with
  | @compare a b gs h hgs ih =>
    rintro _ _ ⟨⟩ ha hb
    have hall := h.all Term.hereditary_wellFormed ha hb
    obtain ⟨xs, ys, ps, qs, rfl, hswap, _⟩ := h.exchange ha hb fun g hg => (hgs g hg).not_clash
    refine .compare hswap fun g hg => ?_
    rcases List.mem_append.mp hg with hg | hg
    · obtain ⟨x, y, rfl, hxy⟩ := mem_zipWith_swap hg
      have hmem := List.mem_append_left (ps ++ qs) hxy
      have hxy' := hall _ hmem
      exact ih _ hmem x y rfl hxy'.1 hxy'.2
    · have hmem : g ∈ ps ++ qs := (List.mem_append.mp hg).elim (List.mem_append_right _)
        (List.mem_append_left _)
      exact hgs g (List.mem_append_right _ hmem)

theorem Passes.refl (ha : a.WellFormed) (hg : a.isGround = true) (hn : a.NaNFree) :
    (unify a a).Passes cfg := by
  have hp := (Term.hereditary_wellFormed.and Term.hereditary_isGround).and
    (Term.hereditary_forall_parts (·.isNaN = false))
  have hall : (a.WellFormed ∧ a.isGround = true) ∧ a.NaNFree := ⟨⟨ha, hg⟩, hn⟩
  clear ha hg hn
  induction a using Term.induction_children with
  | sequence ts ih =>
    refine .compare (.sequences ts ts) fun g hg => ?_
    obtain ⟨t, ht, rfl⟩ := mem_ofSequences_self hg
    exact ih t ht (hp.item hall ht)
  | record es ih =>
    refine .compare (.records es es) fun g hg => ?_
    obtain ⟨e, he, rfl⟩ := mem_ofRecords_self (Term.wellFormed_record.mp hall.1.1).1 hg
    exact ih e he (hp.entry hall he)
  | primitive p =>
    have hp : p.isNaN = false := hall.2 _ (Term.self_mem_parts _)
    exact .compare (.primitives (by simp [Primitive.equals_self, hp])) (by simp)
  | callable c => exact .compare (.callables c) (by simp)
  | var v => cases hall.1.2
  | wildcard => exact .compare (.wildcard_left _) (by simp)

lemma Passes.holds {p : Term → Prop} {θ : Variable → Term} {R : Term → Term → Prop}
    (hp : Hereditary p) (hR : Transports cfg p θ R) (h : g.Passes cfg) (hg : g.All p) :
    g.Holds R θ := by
  induction h with
  | compare h _ ih =>
    exact hR.compare hg.1 hg.2 h fun g' hg' => ih g' hg' (h.all hp hg.1 hg.2 g' hg')

lemma Compares.subst (θ : Variable → Term) (h : Compares cfg a b gs) :
    Compares cfg (a.subst θ) (b.subst θ) (gs.map (mapTerms (Term.subst θ))) := by
  cases h with
  | wildcard_left => exact .wildcard_left _
  | wildcard_right => exact .wildcard_right _
  | sequences xs ys =>
    rw [Term.subst_sequence, Term.subst_sequence, ← (lifts_mapTerms _).ofSequences]
    exact .sequences _ _
  | records es fs =>
    rw [Term.subst_record, Term.subst_record, ← (lifts_mapTerms _).ofRecords]
    exact .records _ _
  | callables c => exact .callables c
  | primitives hpq => exact .primitives hpq

lemma Compares.of_subst_left {θ : Variable → Term} (ha : ∀ v, a = .var v → θ v = .var v)
    (h : Compares cfg (a.subst θ) b gs) : ∃ hs, Compares cfg a b hs := by
  cases a with
  | sequence xs =>
    rw [Term.subst_sequence] at h
    cases h with
    | wildcard_right => exact ⟨_, .wildcard_right _⟩
    | sequences _ ys => exact ⟨_, .sequences xs ys⟩
  | record es =>
    rw [Term.subst_record] at h
    cases h with
    | wildcard_right => exact ⟨_, .wildcard_right _⟩
    | records _ fs => exact ⟨_, .records es fs⟩
  | var v => exact ⟨gs, ha v rfl ▸ h⟩
  | primitive p | callable c | wildcard => exact ⟨gs, h⟩

lemma Compares.of_subst_right {θ : Variable → Term} (hb : ∀ v, b = .var v → θ v = .var v)
    (h : Compares cfg a (b.subst θ) gs) : ∃ hs, Compares cfg a b hs := by
  cases b with
  | sequence ys =>
    rw [Term.subst_sequence] at h
    cases h with
    | wildcard_left => exact ⟨_, .wildcard_left _⟩
    | sequences xs _ => exact ⟨_, .sequences xs ys⟩
  | record fs =>
    rw [Term.subst_record] at h
    cases h with
    | wildcard_left => exact ⟨_, .wildcard_left _⟩
    | records es _ => exact ⟨_, .records es fs⟩
  | var v => exact ⟨gs, hb v rfl ▸ h⟩
  | primitive p | callable c | wildcard => exact ⟨gs, h⟩

lemma Compares.of_subst {θ : Variable → Term} {hs : List Goal} (ha : ∀ v, a = .var v → θ v = .var v)
    (hb : ∀ v, b = .var v → θ v = .var v) (h : Compares cfg (a.subst θ) (b.subst θ) hs) :
    ∃ gs, Compares cfg a b gs ∧ hs = gs.map (mapTerms (Term.subst θ)) := by
  obtain ⟨_, hleft⟩ := h.of_subst_left ha
  obtain ⟨gs, hgs⟩ := hleft.of_subst_right hb
  exact ⟨gs, hgs, h.unique (hgs.subst θ)⟩

theorem transports_passes (cfg : Config) {θ : Variable → Term} (hθ : ∀ v, (θ v).WellFormed) :
    Transports cfg Term.WellFormed θ fun x y => (unify x y).Passes cfg where
  symm ha hb h := h.symm (Term.wellFormed_subst ha fun v _ => hθ v)
    (Term.wellFormed_subst hb fun v _ => hθ v)
  compare ha hb h hgs := by
    refine .compare (h.subst θ) fun g hg => ?_
    obtain ⟨g, hmem, rfl⟩ := List.mem_map.mp hg
    rcases h.mem hmem with ⟨x, y, rfl⟩ | hc
    · exact hgs _ hmem
    · rw [(hgs g hmem).not_clash] at hc
      cases hc

end Goal

end Unification
