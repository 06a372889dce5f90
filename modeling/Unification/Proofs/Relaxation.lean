import Unification.Proofs.DepthBound

/-! Catch-all entries only relax the rule of equal key sets. -/

namespace Unification

open Term (Hereditary)

variable {req : Requirements} {cfg cfg' : Config} {a b : Term} {g : Goal} {gs : List Goal}
  {s : Bindings} {w x : Pending} {tr : Trail} {p : Term → Prop}

namespace Goal

lemma Compares.relax (h : Compares cfg a b gs) (hc : cfg.catchAll = none) (ha : a.WellFormed)
    (hb : b.WellFormed) (hgs : ∀ g ∈ gs, g.isClash = false) (cfg' : Config) : Compares cfg' a b gs := by
  cases h with
  | wildcard_left => exact .wildcard_left _
  | wildcard_right => exact .wildcard_right _
  | sequences xs ys => exact .sequences xs ys
  | records es fs =>
    have hclosed : ofRecords cfg es fs = ofClosedRecords es fs :=
      ofRecords_of_no_key fun key hk => by cases hc.symm.trans hk
    rw [hclosed] at hgs
    obtain ⟨hkeys, -⟩ := ofClosedRecords_eq_zip (Term.wellFormed_record.mp ha).1
      (Term.wellFormed_record.mp hb).1 hgs
    rw [ofRecords_of_keys cfg hkeys, ← ofRecords_of_keys cfg' hkeys]
    exact .records es fs
  | callables c => exact .callables c
  | primitives hpq => exact .primitives hpq

lemma Reduces.relax (h : g.Reduces cfg s gs) (hc : cfg.catchAll = none) (hg : g.All Term.WellFormed)
    (hgs : ∀ g ∈ gs, g.isClash = false) (cfg' : Config) : g.Reduces cfg' s gs := by
  cases h with
  | compare h => exact .compare (h.relax hc hg.1 hg.2 hgs cfg')
  | variable_left ht => exact .variable_left ht
  | variable_right ht hv => exact .variable_right ht hv
  | bind_wildcard v => exact .bind_wildcard v
  | recheck ht hv => exact .recheck ht hv
  | exchange hw hv => exact .exchange hw hv

lemma step_congr_config
    (hrec : ∀ es fs, p (.record es) → p (.record fs) → ofRecords cfg es fs = ofRecords cfg' es fs)
    (hg : g.All p) : g.step req cfg s = g.step req cfg' s := by
  cases g with
  | unify a b =>
    cases a with
    | record es =>
      cases b with
      | record fs => exact congrArg Step.reduce (hrec es fs hg.1 hg.2)
      | _ => rfl
    | _ => cases b <;> rfl
  | bind v t => rfl
  | clash why => rfl

end Goal

theorem Reaches.relax (h : Reaches req cfg w ⟨[], tr⟩) (hc : cfg.catchAll = none)
    (hw : w.All Term.WellFormed) (cfg' : Config) : Reaches req cfg' w ⟨[], tr⟩ := by
  -- from the end backwards, since only the rest of the run shows that a goal does not clash
  induction h using Relation.ReflTransGen.head_induction_on with
  | refl => exact .refl
  | @head w x hab hbc ih =>
    have hrest := ih (hab.all Term.hereditary_wellFormed hw)
    cases hab with
    | @reduce g gs rest tr₀ h =>
      have hgs : ∀ g ∈ gs, g.isClash = false := fun g hg =>
        not_clash_of_reaches hbc g (List.mem_append_left rest hg)
      exact hrest.head (.reduce (h.relax hc (hw.goals g List.mem_cons_self) hgs cfg'))
    | assign h => exact hrest.head (.assign h)

section Congr

variable (hp : Hereditary p)
  (hrec : ∀ es fs, p (.record es) → p (.record fs) → Goal.ofRecords cfg es fs = Goal.ofRecords cfg' es fs)

include hrec

lemma Advance.congr_config (h : Advance req cfg w x) (hw : w.All p) : Advance req cfg' w x := by
  cases h with
  | @reduce g gs rest tr h =>
    have hstep : g.step req cfg tr.bindings = .reduce gs := Goal.step_eq_reduce_iff.mpr h
    rw [Goal.step_congr_config hrec (hw.goals g List.mem_cons_self)] at hstep
    exact .reduce (Goal.step_eq_reduce_iff.mp hstep)
  | assign h => exact .assign h

include hp

lemma Reaches.congr_config (h : Reaches req cfg w x) (hw : w.All p) : Reaches req cfg' w x := by
  induction h with
  | refl => exact .refl
  | tail hwx hs ih => exact ih.tail (hs.congr_config hrec (Reaches.all hp hwx hw))

lemma Ends.congr_config {r : Result} (h : Ends req cfg w r) (hw : w.All p) : Ends req cfg' w r := by
  cases h with
  | done h => exact .done (Reaches.congr_config hp hrec h hw)
  | @clash g rest tr why h hg =>
    have hgoal := (Reaches.all hp h hw).goals g List.mem_cons_self
    exact .clash (Reaches.congr_config hp hrec h hw) (Goal.step_congr_config hrec hgoal ▸ hg)

end Congr

theorem run_congr_config (hp : Hereditary p)
    (hrec : ∀ es fs, p (.record es) → p (.record fs) →
      Goal.ofRecords cfg es fs = Goal.ofRecords cfg' es fs)
    (hw : Pending.All p ⟨[g], .start s⟩) : run req cfg s g = run req cfg' s g :=
  run_eq_run_of_ends fun _ => ⟨fun h => h.congr_config hp hrec hw,
    fun h => h.congr_config hp (fun es fs he hf => (hrec es fs he hf).symm) hw⟩

lemma ofRecords_withCatchAll_of_omits {key : String} {es fs : List (String × Term)}
    (he : (Term.record es).Omits key) (hf : (Term.record fs).Omits key) :
    Goal.ofRecords (cfg.withCatchAll key) es fs = Goal.ofRecords cfg.withoutCatchAll es fs := by
  have hkey : Keyed.contains es key = false ∧ Keyed.contains fs key = false :=
    ⟨he _ (Term.self_mem_parts _), hf _ (Term.self_mem_parts _)⟩
  rw [Goal.ofRecords_of_no_key fun k hk => by cases hk; exact hkey,
    Goal.ofRecords_of_no_key fun k hk => by cases hk]

theorem unify_withCatchAll_of_withoutCatchAll (cfg : Config) (key : String) (ha : a.WellFormed)
    (hb : b.WellFormed) :
    (∀ s, unify req cfg.withoutCatchAll a b = .unified s →
      unify req (cfg.withCatchAll key) a b = .unified s) ∧
    (a.Omits key → b.Omits key →
      unify req (cfg.withCatchAll key) a b = unify req cfg.withoutCatchAll a b) := by
  refine ⟨fun s h => ?_, fun hka hkb => ?_⟩
  · obtain ⟨tr, hrun, rfl⟩ := unify_eq_unified_iff.mp h
    exact unify_eq_unified_iff.mpr
      ⟨tr, hrun.relax rfl (Pending.all_start ha hb) (cfg.withCatchAll key), rfl⟩
  · have hp : Hereditary (Term.Omits key) := Term.hereditary_forall_parts _
    have hrun : run req (cfg.withCatchAll key) .empty (.unify a b) =
        run req cfg.withoutCatchAll .empty (.unify a b) :=
      run_congr_config hp (fun _ _ => ofRecords_withCatchAll_of_omits) (Pending.all_start hka hkb)
    rw [unify, unify, hrun]

section Shared

open Term (sequence record var primitive wildcard)

def sharedPattern : Term :=
  sequence [var ⟨0⟩, record [("_", var ⟨0⟩), ("p", var ⟨1⟩)], var ⟨1⟩]

def sharedData : Term :=
  sequence [record [("_", wildcard), ("q", primitive (.long 1))],
    record [("_", record [("_", var ⟨1⟩), ("q", primitive (.long 1))]), ("p", primitive .nil)],
    primitive .nil]

def sharedBindings : Bindings :=
  .several [(⟨0⟩, record [("_", wildcard), ("q", primitive (.long 1))]), (⟨1⟩, primitive .nil)]

theorem unify_withCatchAll_of_withoutCatchAll_shared :
    sharedPattern.WellFormed ∧ sharedData.WellFormed ∧
      unify (fun _ => none) (Config.standard.withoutCatchAll) sharedPattern sharedData =
        .unified sharedBindings ∧
      unify (fun _ => none) (Config.standard.withCatchAll "_") sharedPattern sharedData =
        .unified sharedBindings ∧
      sharedPattern.Omits "*" ∧ sharedData.Omits "*" ∧
      unify (fun _ => none) (Config.standard.withCatchAll "*") sharedPattern sharedData =
        unify (fun _ => none) (Config.standard.withoutCatchAll) sharedPattern sharedData := by
  have ha : sharedPattern.WellFormed := by decide
  have hb : sharedData.WellFormed := by decide
  have hka : sharedPattern.Omits "*" := by decide
  have hkb : sharedData.Omits "*" := by decide
  have h : unify (fun _ => none) (Config.standard.withoutCatchAll) sharedPattern sharedData =
      .unified sharedBindings := rfl
  obtain ⟨hrelaxed, -⟩ := unify_withCatchAll_of_withoutCatchAll .standard "_" ha hb
  obtain ⟨-, hunused⟩ := unify_withCatchAll_of_withoutCatchAll .standard "*" ha hb
  exact ⟨ha, hb, h, hrelaxed _ h, hka, hkb, hunused hka hkb⟩

end Shared

end Unification
