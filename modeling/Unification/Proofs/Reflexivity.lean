import Unification.Proofs.Passes
import Unification.Proofs.Termination

namespace Unification

variable {req : Requirements} {cfg : Config} {a t u : Term} {gs : List Goal} {w x : Pending}

namespace Goal

def Reflexive : Goal → Prop
  | unify a b => a = b ∧ a.WellFormed
  | bind v t => t = .var v
  | clash _ => True

lemma Compares.reflexive (h : Compares cfg a a gs) (ha : a.WellFormed) : ∀ g ∈ gs, g.Reflexive := by
  intro g hg
  cases h with
  | wildcard_left | wildcard_right | callables | primitives => cases hg
  | sequences ts =>
    obtain ⟨t, ht, rfl⟩ := mem_ofSequences_self hg
    exact ⟨rfl, Term.wellFormed_sequence.mp ha t ht⟩
  | records es =>
    obtain ⟨hes, hall⟩ := Term.wellFormed_record.mp ha
    obtain ⟨e, he, rfl⟩ := mem_ofRecords_self hes hg
    exact ⟨rfl, hall e he⟩

lemma Reduces.reflexive {g : Goal} (h : g.Reduces cfg .empty gs) (hg : g.Reflexive) :
    ∀ g' ∈ gs, g'.Reflexive := by
  cases h with
  | compare h =>
    obtain ⟨rfl, ha⟩ := hg
    exact h.reflexive ha
  | variable_left => exact List.forall_mem_singleton.mpr hg.1.symm
  | variable_right => exact List.forall_mem_singleton.mpr hg.1
  | bind_wildcard v => cases hg
  | recheck _ hv => cases hv
  | exchange _ hv => cases hv

lemma Reflexive.not_assigns {g : Goal} (hg : g.Reflexive) (v : Variable) (t : Term) :
    ¬ g.Assigns req .empty v t := by
  rintro ⟨ht, -, -⟩
  obtain rfl := hg
  cases ht

end Goal

structure Pending.Reflexive (w : Pending) : Prop where
  goals : ∀ g ∈ w.goals, g.Reflexive
  unbound : w.trail.bindings = .empty

lemma Advance.reflexive (h : Advance req cfg w x) (hw : w.Reflexive) : x.Reflexive := by
  obtain ⟨hgoals, hs⟩ := hw
  cases h with
  | reduce h =>
    obtain ⟨hg, hrest⟩ := List.forall_mem_cons.mp hgoals
    rw [hs] at h
    exact ⟨List.forall_mem_append.mpr ⟨h.reflexive hg, hrest⟩, hs⟩
  | assign h =>
    rw [hs] at h
    exact absurd h ((hgoals _ List.mem_cons_self).not_assigns _ _)

lemma Reaches.reflexive (h : Reaches req cfg w x) (hw : w.Reflexive) : x.Reflexive :=
  h.preserves (fun hs => hs.reflexive) hw

theorem Reaches.passes_of_reflexive {tr : Trail} (h : Reaches req cfg w ⟨[], tr⟩) (hw : w.Reflexive) :
    ∀ g ∈ w.goals, g.Passes cfg := by
  induction h using Relation.ReflTransGen.head_induction_on with
  | refl => simp
  | @head w x hab _ ih =>
    have hpasses := ih (hab.reflexive hw)
    obtain ⟨hgoals, hs⟩ := hw
    cases hab with
    | @reduce g gs rest tr h =>
      obtain ⟨hgs, hrest⟩ := List.forall_mem_append.mp hpasses
      refine List.forall_mem_cons.mpr ⟨?_, hrest⟩
      dsimp only at hs
      rw [hs] at h
      cases h with
      | compare h => exact .compare h hgs
      | variable_left => cases hgs _ List.mem_cons_self
      | variable_right => cases hgs _ List.mem_cons_self
      | bind_wildcard v => cases hgoals _ List.mem_cons_self
      | recheck _ hv => cases hv
      | exchange _ hv => cases hv
    | assign h =>
      rw [hs] at h
      exact absurd h ((hgoals _ List.mem_cons_self).not_assigns _ _)

namespace Goal

lemma Passes.parts (h : (unify t t).Passes cfg) (ht : t.WellFormed) :
    ∀ u ∈ t.parts, (unify u u).Passes cfg := by
  induction t using Term.induction_children with
  | sequence ts ih =>
    refine Term.forall_mem_parts_sequence.mpr ⟨h, fun t hmem => ?_⟩
    cases h with
    | compare hc hgs =>
      cases hc with
      | sequences =>
        rw [ofSequences_self] at hgs
        exact ih t hmem (hgs _ (List.mem_map_of_mem hmem)) (Term.wellFormed_sequence.mp ht t hmem)
  | record es ih =>
    refine Term.forall_mem_parts_record.mpr ⟨h, fun t hmem => ?_⟩
    obtain ⟨e, he, rfl⟩ := Term.mem_values.mp hmem
    obtain ⟨hes, hall⟩ := Term.wellFormed_record.mp ht
    cases h with
    | compare hc hgs =>
      cases hc with
      | records =>
        rw [ofRecords_self hes] at hgs
        exact ih e he (hgs _ (List.mem_map_of_mem he)) (hall e he)
  | primitive p | callable c | var v | wildcard => simpa using h

lemma Passes.isNaN_eq_false (h : (unify u u).Passes cfg) : u.isNaN = false := by
  cases u with
  | primitive p =>
    cases h with
    | compare hc _ =>
      cases hc with
      | primitives hp => simpa [Primitive.equals_self, Term.isNaN] using hp
  | _ => rfl

theorem passes_self_iff (ht : t.WellFormed) :
    (unify t t).Passes cfg ↔ t.isGround = true ∧ t.NaNFree := by
  refine ⟨fun h => ?_, fun ⟨hg, hn⟩ => .refl ht hg hn⟩
  have hparts := h.parts ht
  refine ⟨Term.isGround_iff.mpr fun v hv => ?_, fun u hu => (hparts u hu).isNaN_eq_false⟩
  cases hparts _ hv with
  | compare hc _ => cases hc

end Goal

lemma Term.equals_self_iff : t.equals t = true ↔ t.NaNFree := by
  refine ⟨fun h => ?_, equals_refl⟩
  induction t using induction_children with
  | sequence ts ih =>
    rw [equals_sequence, List.forall₂_same] at h
    exact forall_mem_parts_sequence.mpr ⟨rfl, fun t ht => ih t ht (h t ht)⟩
  | record es ih =>
    rw [equals_record, List.forall₂_same] at h
    refine forall_mem_parts_record.mpr ⟨rfl, fun t ht => ?_⟩
    obtain ⟨e, he, rfl⟩ := mem_values.mp ht
    exact ih e he (h.2 _ ht)
  | primitive p =>
    refine List.forall_mem_singleton.mpr ?_
    simpa [equals, isNaN, Primitive.equals_self] using h
  | callable c | var v | wildcard => exact List.forall_mem_singleton.mpr rfl

lemma unify_self_ne_endless (ht : t.WellFormed) : unify req cfg t t ≠ .endless := by
  refine unify_ne_endless_of_staysAcyclic fun x hx => ?_
  have hstart : Pending.Reflexive ⟨[.unify t t], .start .empty⟩ :=
    ⟨List.forall_mem_singleton.mpr ⟨rfl, ht⟩, rfl⟩
  rw [(hx.reflexive hstart).unbound]
  exact Bindings.acyclic_of_rank (fun _ => 0) (by simp [Bindings.entries])

lemma unify_self_succeeded_iff (ht : t.WellFormed) :
    (unify req cfg t t).succeeded = true ↔ t.isGround = true ∧ t.NaNFree := by
  have hself : (Goal.unify t t).Passes cfg ↔ t.isGround = true ∧ t.NaNFree := Goal.passes_self_iff ht
  rw [← hself]
  constructor
  · intro h
    obtain ⟨s, hs⟩ := Outcome.succeeded_iff.mp h
    obtain ⟨tr, hrun, -⟩ := unify_eq_unified_iff.mp hs
    exact hrun.passes_of_reflexive ⟨List.forall_mem_singleton.mpr ⟨rfl, ht⟩, rfl⟩ _ List.mem_cons_self
  · intro h
    exact Outcome.succeeded_iff.mpr ⟨_, Goal.unify_eq_empty_of_passes h⟩

theorem unify_self (req : Requirements) (cfg : Config) (ht : t.WellFormed) :
    (t.isGround = true ∧ t.NaNFree → unify req cfg t t = .unified .empty) ∧
      (¬ (t.isGround = true ∧ t.NaNFree) → ∃ why, unify req cfg t t = .mismatch why) ∧
      (t.isGround = true → ((unify req cfg t t).succeeded = true ↔ t.equals t = true)) := by
  refine ⟨fun ⟨hg, hn⟩ => ?_, fun hbad => ?_, fun hg => ?_⟩
  · exact Goal.unify_eq_empty_of_passes (.refl ht hg hn)
  · have hfail : (unify req cfg t t).succeeded ≠ true := mt (unify_self_succeeded_iff ht).mp hbad
    have hends : unify req cfg t t ≠ .endless := unify_self_ne_endless ht
    cases hu : unify req cfg t t with
    | unified s => simp [hu, Outcome.succeeded] at hfail
    | mismatch why => exact ⟨why, rfl⟩
    | endless => exact absurd hu hends
  · rw [unify_self_succeeded_iff ht, Term.equals_self_iff]
    exact and_iff_right hg

section Envelope

open Term (sequence record primitive callable wildcard var)

def envelope (t : Term) : Term :=
  record [("_", sequence [t, callable ⟨0⟩, wildcard]), ("p", record [("_", t)])]

def zeroEnvelope : Term := envelope (primitive (.float ⟨0⟩))

def lostEnvelope : Term := envelope (primitive (.float ⟨0x7ff8000000000000⟩))

def openEnvelope : Term := envelope (var ⟨0⟩)

theorem unify_self_envelope :
    zeroEnvelope.WellFormed ∧ lostEnvelope.WellFormed ∧ openEnvelope.WellFormed ∧
      unify (fun _ => none) .standard zeroEnvelope zeroEnvelope = .unified .empty ∧
      zeroEnvelope.equals zeroEnvelope = true ∧
      (∃ why, unify (fun _ => none) .standard lostEnvelope lostEnvelope = .mismatch why) ∧
      lostEnvelope.equals lostEnvelope ≠ true ∧
      ∃ why, unify (fun _ => none) .standard openEnvelope openEnvelope = .mismatch why := by
  have hzero : zeroEnvelope.WellFormed := by decide
  have hlost : lostEnvelope.WellFormed := by decide
  have hopen : openEnvelope.WellFormed := by decide
  obtain ⟨hunified, -, hequal⟩ := unify_self (fun _ => none) .standard hzero
  obtain ⟨-, hmismatch, hunequal⟩ := unify_self (fun _ => none) .standard hlost
  have hself := hunified (by decide)
  obtain ⟨why, hwhy⟩ := hmismatch (by decide)
  refine ⟨hzero, hlost, hopen, hself, (hequal (by decide)).mp ?_, ⟨why, hwhy⟩, fun h => ?_,
    (unify_self _ _ hopen).2.1 (by decide)⟩
  · rw [hself, Outcome.succeeded]
  · have hsucceeded := (hunequal (by decide)).mpr h
    rw [hwhy] at hsucceeded
    cases hsucceeded

end Envelope

end Unification
