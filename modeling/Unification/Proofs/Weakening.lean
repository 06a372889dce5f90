import Unification.Proofs.GroundMatching
import Unification.Proofs.Matching

namespace Unification

open Keyed
open Term (Occurs)

namespace Term

inductive Weakens : Term → Term → Prop
  | wildcard (t : Term) : Weakens t wildcard
  | primitive (p : Primitive) : Weakens (primitive p) (primitive p)
  | callable (c : Callable) : Weakens (callable c) (callable c)
  | var (v : Variable) : Weakens (var v) (var v)
  | sequence {ts us : List Term} (hlen : ts.length = us.length)
      (h : ∀ i (ht : i < ts.length) (hu : i < us.length), Weakens ts[i] us[i]) :
      Weakens (sequence ts) (sequence us)
  | record {es fs : List (String × Term)} (hkeys : keys es = keys fs)
      (h : ∀ i (he : i < es.length) (hf : i < fs.length), Weakens es[i].2 fs[i].2) :
      Weakens (record es) (record fs)

namespace Weakens

variable {t u : Term} {v : Variable}

lemma refl (t : Term) : Weakens t t := by
  induction t using induction_children with
  | sequence ts ih => exact .sequence rfl fun i ht _ => ih _ (List.getElem_mem ht)
  | record es ih => exact .record rfl fun i he _ => ih _ (List.getElem_mem he)
  | primitive p => exact .primitive p
  | callable c => exact .callable c
  | var v => exact .var v
  | wildcard => exact .wildcard _

lemma subst (h : Weakens t u) (θ : Variable → Term) : Weakens (t.subst θ) (u.subst θ) := by
  induction h with
  | wildcard t => exact .wildcard _
  | primitive p => exact .primitive p
  | callable c => exact .callable c
  | var v => exact refl (θ v)
  | sequence hlen _ ih =>
    rw [subst_sequence, subst_sequence]
    refine .sequence (by simpa using hlen) fun i ht hu => ?_
    rw [List.getElem_map, List.getElem_map]
    exact ih i (by simpa using ht) (by simpa using hu)
  | record hkeys _ ih =>
    rw [subst_record, subst_record]
    refine .record (by simpa using hkeys) fun i he hf => ?_
    simp only [mapValues, List.getElem_map]
    exact ih i (by simpa using he) (by simpa using hf)

lemma wellFormed (h : Weakens t u) (ht : t.WellFormed) : u.WellFormed := by
  induction h with
  | wildcard t => trivial
  | primitive p => exact ht
  | callable c => exact ht
  | var v => exact ht
  | sequence hlen _ ih =>
    refine wellFormed_sequence.mpr fun u hu => ?_
    obtain ⟨i, hi, rfl⟩ := List.getElem_of_mem hu
    exact ih i (hlen ▸ hi) hi (wellFormed_sequence.mp ht _ (List.getElem_mem _))
  | record hkeys _ ih =>
    obtain ⟨hes, hall⟩ := wellFormed_record.mp ht
    refine wellFormed_record.mpr ⟨hes.of_keys_eq hkeys, fun f hf => ?_⟩
    obtain ⟨i, hi, rfl⟩ := List.getElem_of_mem hf
    have he := length_eq_of_keys_eq hkeys ▸ hi
    exact ih i he hi (hall _ (List.getElem_mem he))

lemma occurs (h : Weakens t u) (hv : Occurs v u) : Occurs v t := by
  induction h with
  | wildcard t => simp [Occurs] at hv
  | primitive p => exact hv
  | callable c => exact hv
  | var v => exact hv
  | sequence hlen _ ih =>
    obtain ⟨u, hu, hv⟩ := occurs_sequence.mp hv
    obtain ⟨i, hi, rfl⟩ := List.getElem_of_mem hu
    have ht := hlen ▸ hi
    exact occurs_sequence.mpr ⟨_, List.getElem_mem ht, ih i ht hi hv⟩
  | record hkeys _ ih =>
    obtain ⟨f, hf, hv⟩ := occurs_record.mp hv
    obtain ⟨i, hi, rfl⟩ := List.getElem_of_mem hf
    have he := length_eq_of_keys_eq hkeys ▸ hi
    exact occurs_record.mpr ⟨_, List.getElem_mem he, ih i he hi hv⟩

lemma exists_mem {es fs : List (String × Term)} (hkeys : keys es = keys fs)
    (h : ∀ i (he : i < es.length) (hf : i < fs.length), Weakens es[i].2 fs[i].2) {k : String}
    (hu : (k, u) ∈ fs) : ∃ t, (k, t) ∈ es ∧ Weakens t u := by
  obtain ⟨i, hi, heq⟩ := List.getElem_of_mem hu
  have he := length_eq_of_keys_eq hkeys ▸ hi
  have hmem : (es[i].1, es[i].2) ∈ es := List.getElem_mem he
  have hw := h i he hi
  rw [fst_getElem_eq hkeys he hi, heq] at hmem
  rw [heq] at hw
  exact ⟨es[i].2, hmem, hw⟩

end Weakens

end Term

open Term.Weakens (exists_mem)

variable {req : Requirements} {cfg : Config} {a a' b b' : Term} {s : Bindings}

theorem Match.weaken (h : Match cfg a b) (ha : a.Weakens a') (hb : b.Weakens b') : Match cfg a' b' := by
  induction h generalizing a' b' with
  | wildcard_left b =>
    cases ha
    exact .wildcard_left b'
  | wildcard_right a =>
    cases hb
    exact .wildcard_right a'
  | primitives h =>
    cases ha with
    | wildcard => exact .wildcard_left b'
    | primitive p =>
      cases hb with
      | wildcard => exact .wildcard_right _
      | primitive q => exact .primitives h
  | callables c =>
    cases ha with
    | wildcard => exact .wildcard_left b'
    | callable =>
      cases hb with
      | wildcard => exact .wildcard_right _
      | callable => exact .callables c
  | sequences hlen _ ih =>
    cases ha with
    | wildcard => exact .wildcard_left b'
    | sequence hlena ha =>
      cases hb with
      | wildcard => exact .wildcard_right _
      | sequence hlenb hb =>
        refine .sequences (hlena.symm.trans (hlen.trans hlenb)) fun i hx hy => ?_
        exact ih i (hlena ▸ hx) (hlenb ▸ hy) (ha i _ hx) (hb i _ hy)
  | closed_records hno hkeys _ ih =>
    cases ha with
    | wildcard => exact .wildcard_left b'
    | record hkeysa ha =>
      cases hb with
      | wildcard => exact .wildcard_right _
      | record hkeysb hb =>
        rw [hkeysa, hkeysb] at hno hkeys
        refine .closed_records hno hkeys fun k x' y' hx' hy' => ?_
        obtain ⟨x, hx, hxx'⟩ := exists_mem hkeysa ha hx'
        obtain ⟨y, hy, hyy'⟩ := exists_mem hkeysb hb hy'
        exact ih k x y hx hy hxx' hyy'
  | @open_records key es fs hc hkey hleft hright _ _ _ ihs ihl ihr =>
    cases ha with
    | wildcard => exact .wildcard_left b'
    | record hkeysa ha =>
      cases hb with
      | wildcard => exact .wildcard_right _
      | record hkeysb hb =>
        have hkes := fun k => iff_of_eq (congrArg (k ∈ ·) hkeysa)
        have hkfs := fun k => iff_of_eq (congrArg (k ∈ ·) hkeysb)
        refine .open_records hc (hkey.imp (hkes key).mp (hkfs key).mp)
          ((hleft.congr_left hkes).congr_right hkfs) ((hright.congr_left hkfs).congr_right hkes) ?_ ?_ ?_
        · intro k x' y' hx' hy'
          obtain ⟨x, hx, hxx'⟩ := exists_mem hkeysa ha hx'
          obtain ⟨y, hy, hyy'⟩ := exists_mem hkeysb hb hy'
          exact ihs k x y hx hy hxx' hyy'
        · -- the catch-all value meets the entry from the other side, so both terms have to be weakened
          intro k x' y' hx' hne hk hy'
          obtain ⟨x, hx, hxx'⟩ := exists_mem hkeysa ha hx'
          obtain ⟨y, hy, hyy'⟩ := exists_mem hkeysb hb hy'
          exact ihl k x y hx hne (hk ∘ (hkfs k).mp) hy hyy' hxx'
        · intro k x' y' hy' hne hk hx'
          obtain ⟨x, hx, hxx'⟩ := exists_mem hkeysa ha hx'
          obtain ⟨y, hy, hyy'⟩ := exists_mem hkeysb hb hy'
          exact ihr k x y hy hne (hk ∘ (hkes k).mp) hx hxx' hyy'

theorem unify_of_weakens (ha : a.WellFormed) (hb : b.Plain cfg)
    (hreq : ∀ v, Occurs v a → ∀ x y, x.equals y = true → req.accept v x = req.accept v y)
    (hw : a.Weakens a') (h : unify req cfg a b = .unified s) :
    ∃ s', unify req cfg a' b = .unified s' ∧
      ∀ v t, s'.lookup v = some t → ∃ u, s.lookup v = some u ∧ u.equals t = true := by
  obtain ⟨θ, hlook, hfit, hpass⟩ := passes_of_unify ha hb h
  have hwf : (a.subst θ).WellFormed := Term.wellFormed_subst ha fun v hv => (hfit v hv).1.wellFormed
  have hmatch : Match cfg (a.subst θ) b := (passes_iff_match hwf hb.wellFormed).mp hpass
  have hinst : (a.subst θ).Weakens (a'.subst θ) := hw.subst θ
  have hpass' : (Goal.unify (a'.subst θ) b).Passes cfg :=
    (hmatch.weaken hinst (.refl b)).passes (hinst.wellFormed hwf) hb.wellFormed
  have ha' : a'.WellFormed := hw.wellFormed ha
  obtain ⟨s', hs', hagrees⟩ := unify_of_passes ha' hb (fun v hv => hfit v (hw.occurs hv))
    (fun v hv => hreq v (hw.occurs hv)) hpass'
  refine ⟨s', hs', fun v t ht => ⟨θ v, hlook v ?_, (hagrees v t ht).2⟩⟩
  apply hw.occurs
  exact (lookup_isSome_iff_occurs ha' hb hs' v).mp (Option.isSome_of_eq_some ht)

section Amounts

open Term (sequence record var primitive wildcard)

def amountsPattern : Term :=
  sequence [var ⟨0⟩, var ⟨0⟩, record [("_", var ⟨1⟩), ("p", var ⟨1⟩)], var ⟨2⟩]

def amountsWeaker : Term :=
  sequence [wildcard, var ⟨0⟩, record [("_", var ⟨1⟩), ("p", wildcard)], wildcard]

def amountsData : Term :=
  sequence [primitive (.float ⟨0⟩), primitive (.float ⟨0x8000000000000000⟩),
    record [("p", primitive (.float ⟨0⟩)), ("q", primitive (.float ⟨0x8000000000000000⟩))], primitive .nil]

def amountsBindings : Bindings :=
  .several [(⟨0⟩, primitive (.float ⟨0⟩)), (⟨1⟩, primitive (.float ⟨0⟩)), (⟨2⟩, primitive .nil)]

def amountsWeakerBindings : Bindings :=
  .several [(⟨0⟩, primitive (.float ⟨0x8000000000000000⟩)), (⟨1⟩, primitive (.float ⟨0x8000000000000000⟩))]

lemma weakens_amounts : amountsPattern.Weakens amountsWeaker := by
  have hentries : (record [("_", var ⟨1⟩), ("p", var ⟨1⟩)]).Weakens
      (record [("_", var ⟨1⟩), ("p", wildcard)]) := by
    refine .record rfl fun i hi _ => ?_
    match i, hi with
    | 0, _ => exact .var ⟨1⟩
    | 1, _ => exact .wildcard _
  refine .sequence rfl fun i hi _ => ?_
  match i, hi with
  | 0, _ => exact .wildcard _
  | 1, _ => exact .var ⟨0⟩
  | 2, _ => exact hentries
  | 3, _ => exact .wildcard _

theorem unify_of_weakens_amounts :
    amountsPattern.WellFormed ∧ amountsData.Plain .standard ∧ amountsPattern.Weakens amountsWeaker ∧
      (∀ v, Occurs v amountsPattern → ∀ x y, x.equals y = true →
        zerosRequirements.accept v x = zerosRequirements.accept v y) ∧
      unify zerosRequirements .standard amountsPattern amountsData = .unified amountsBindings ∧
      unify zerosRequirements .standard amountsWeaker amountsData = .unified amountsWeakerBindings ∧
      ∀ v t, amountsWeakerBindings.lookup v = some t →
        ∃ u, amountsBindings.lookup v = some u ∧ u.equals t = true := by
  have ha : amountsPattern.WellFormed := by decide
  have hb : amountsData.Plain .standard := by decide
  have hreq : ∀ v, Occurs v amountsPattern → ∀ x y, x.equals y = true →
      zerosRequirements.accept v x = zerosRequirements.accept v y :=
    fun v _ _ _ h => zerosRequirements_congr v h
  obtain ⟨s', hs', hvalues⟩ := unify_of_weakens ha hb hreq weakens_amounts
    (rfl : unify zerosRequirements .standard amountsPattern amountsData = .unified amountsBindings)
  have hweaker : unify zerosRequirements .standard amountsWeaker amountsData =
      .unified amountsWeakerBindings := rfl
  obtain rfl : s' = amountsWeakerBindings := Outcome.unified.inj (hs'.symm.trans hweaker)
  exact ⟨ha, hb, weakens_amounts, hreq, rfl, hweaker, hvalues⟩

end Amounts

end Unification
