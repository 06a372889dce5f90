import Mathlib.Data.String.Basic
import Mathlib.Logic.Relation
import Unification.Proofs.Parts
import Unification.Unify

/-! Drafts of terms, whose records list their entries in any order and under repeated keys. -/

namespace Unification

open Relation (ReflTransGen)

namespace Keyed

variable {α β : Type _} {es fs r : List (String × α)} {k : String} {x : α}

def codePoints (k : String) : List ℕ := k.toList.map Char.toNat

structure Collects (es r : List (String × α)) : Prop where
  keys : ∀ k, k ∈ keys r ↔ k ∈ keys es
  increasing : (Keyed.keys r).Pairwise fun k l => codePoints k < codePoints l
  values : ∀ k x, (k, x) ∈ r ↔ Final es k x

def SameFinal (es fs : List (String × α)) : Prop := ∀ k x, Final es k x ↔ Final fs k x

lemma map_toNat_lt_iff {cs ds : List Char} : cs.map Char.toNat < ds.map Char.toNat ↔ cs < ds := by
  induction cs generalizing ds with
  | nil => cases ds <;> simp
  | cons c cs ih =>
    cases ds with
    | nil => simp
    | cons d ds =>
      rw [List.map_cons, List.map_cons, List.cons_lt_cons_iff, List.cons_lt_cons_iff, ih, Char.toNat_inj]
      rfl

lemma codePoints_lt_iff {k l : String} : codePoints k < codePoints l ↔ k < l :=
  map_toNat_lt_iff.trans String.lt_iff_toList_lt.symm

lemma ordered_iff : Ordered es ↔ (keys es).Pairwise fun k l => codePoints k < codePoints l := by
  simp only [codePoints_lt_iff, keys, List.pairwise_map, Ordered]

lemma exists_final_iff : (∃ x, Final es k x) ↔ k ∈ keys es := by
  simp only [← reverse_lookup_eq_some_iff, ← Option.isSome_iff_exists, List.lookup_isSome_iff,
    List.mem_reverse, keys, List.mem_map, beq_iff_eq, @eq_comm _ k]

lemma mem_ofList_iff : (k, x) ∈ ofList es ↔ Final es k x := by
  rw [← lookup_eq_some_iff (ordered_ofList es).nodup_keys, lookup_ofList, reverse_lookup_eq_some_iff]

theorem collects_ofList (es : List (String × α)) : Collects es (ofList es) where
  keys k := by simp only [mem_keys, mem_ofList_iff, exists_final_iff]
  increasing := ordered_iff.mp (ordered_ofList es)
  values _ _ := mem_ofList_iff

lemma Collects.unique (hr : Collects es r) (hf : Collects es fs) : r = fs :=
  (ordered_iff.mpr hr.increasing).eq_of_mem_iff (ordered_iff.mpr hf.increasing) fun e =>
    (hr.values e.1 e.2).trans (hf.values e.1 e.2).symm

lemma sameFinal_iff : SameFinal es fs ↔ ofList es = ofList fs := by
  constructor
  · intro h
    refine (ordered_ofList es).eq_of_mem_iff (ordered_ofList fs) fun e => ?_
    rw [mem_ofList_iff, mem_ofList_iff]
    exact h e.1 e.2
  · intro h k x
    rw [← mem_ofList_iff, ← mem_ofList_iff, h]

lemma sameFinal_ofList (es : List (String × α)) : SameFinal es (ofList es) :=
  sameFinal_iff.mpr (ofList_of_ordered (ordered_ofList es)).symm

lemma final_mapValues {f : α → β} {y : β} :
    Final (mapValues f es) k y ↔ ∃ x, Final es k x ∧ f x = y := by
  have hreverse : (mapValues f es).reverse = mapValues f es.reverse := List.map_reverse.symm
  simp only [← reverse_lookup_eq_some_iff, hreverse, lookup_mapValues, Option.map_eq_some_iff]

lemma SameFinal.mapValues (f : α → β) (h : SameFinal es fs) :
    SameFinal (mapValues f es) (mapValues f fs) := fun k y => by
  simp only [final_mapValues, h k]

lemma mem_of_mem_ofList {e : String × α} (h : e ∈ ofList es) : e ∈ es := by
  obtain ⟨earlier, later, rfl, _⟩ := mem_ofList_iff.mp h
  exact List.mem_append_right earlier List.mem_cons_self

end Keyed

namespace Term

mutual

def build : Term → Term
  | sequence ts => sequence (buildItems ts)
  | record es => recordOf (buildEntries es)
  | t => t

def buildItems : List Term → List Term
  | [] => []
  | t :: ts => build t :: buildItems ts

def buildEntries : List (String × Term) → List (String × Term)
  | [] => []
  | (k, t) :: es => (k, build t) :: buildEntries es

end

@[simp] lemma build_sequence (ts : List Term) : (sequence ts).build = sequence (ts.map build) := by
  have hitems : buildItems ts = ts.map build := eq_map_of_cons rfl (fun _ _ => rfl) ts
  rw [build, hitems]

@[simp] lemma build_record (es : List (String × Term)) :
    (record es).build = recordOf (Keyed.mapValues build es) := by
  have hentries : buildEntries es = Keyed.mapValues build es :=
    eq_map_of_cons rfl (fun _ _ => rfl) es
  rw [build, hentries]

theorem wellFormed_build (t : Term) : t.build.WellFormed := by
  induction t using induction_children with
  | sequence ts ih =>
    rw [build_sequence, wellFormed_sequence]
    exact List.forall_mem_map.mpr ih
  | record es ih =>
    rw [build_record, recordOf, wellFormed_record]
    refine ⟨Keyed.ordered_ofList _, fun e he => ?_⟩
    obtain ⟨e', he', rfl⟩ := List.mem_map.mp (Keyed.mem_of_mem_ofList he)
    exact ih e' he'
  | primitive p | callable c | var v | wildcard => trivial

theorem build_eq_self_iff {t : Term} : t.build = t ↔ t.WellFormed := by
  refine ⟨fun h => h ▸ wellFormed_build t, fun h => ?_⟩
  induction t using induction_children with
  | sequence ts ih =>
    rw [build_sequence, List.map_congr_left fun t ht => ih t ht (wellFormed_sequence.mp h t ht), List.map_id']
  | record es ih =>
    obtain ⟨hordered, hvalues⟩ := wellFormed_record.mp h
    have hentries : Keyed.mapValues build es = es :=
      calc es.map (fun e => (e.1, e.2.build))
          = es.map id := List.map_congr_left fun e he => Prod.ext rfl (ih e he (hvalues e he))
        _ = es := List.map_id es
    rw [build_record, hentries, recordOf, Keyed.ofList_of_ordered hordered]
  | primitive p | callable c | var v | wildcard => rfl

/-- Somewhere in a draft the entries of a record are exchanged for others with the same final values. -/
inductive Revises : Term → Term → Prop
  | entries {es fs : List (String × Term)} (h : Keyed.SameFinal es fs) : Revises (record es) (record fs)
  | item {t u : Term} (before after : List Term) (h : Revises t u) :
      Revises (sequence (before ++ t :: after)) (sequence (before ++ u :: after))
  | entry {t u : Term} (before : List (String × Term)) (k : String) (after : List (String × Term))
      (h : Revises t u) : Revises (record (before ++ (k, t) :: after)) (record (before ++ (k, u) :: after))

variable {a b : Term}

lemma Revises.symm (h : Revises a b) : Revises b a := by
  induction h with
  | entries h => exact .entries fun k x => (h k x).symm
  | item before after _ ih => exact .item before after ih
  | entry before k after _ ih => exact .entry before k after ih

lemma Revises.build_eq (h : Revises a b) : a.build = b.build := by
  induction h with
  | entries h =>
    rw [build_record, build_record, recordOf, recordOf, Keyed.sameFinal_iff.mp (h.mapValues build)]
  | item before after _ ih => simp [ih]
  | entry before k after _ ih => simp [Keyed.mapValues, ih]

end Term

lemma reflTransGen_of_forall_mem {α β : Type _} {R : α → α → Prop} {f : β → β} (mk : List β → α) {xs : List β}
    (h : ∀ x ∈ xs, ∀ before after,
      ReflTransGen R (mk (before ++ x :: after)) (mk (before ++ f x :: after))) :
    ReflTransGen R (mk xs) (mk (xs.map f)) := by
  suffices hmk : ∀ before, ReflTransGen R (mk (before ++ xs)) (mk (before ++ xs.map f)) from hmk []
  induction xs with
  | nil => exact fun before => .refl
  | cons x xs ih =>
    intro before
    obtain ⟨hx, hxs⟩ := List.forall_mem_cons.mp h
    have hrest := ih hxs (before ++ [f x])
    rw [List.append_assoc, List.append_assoc] at hrest
    exact (hx before xs).trans hrest

namespace Term

variable {a b : Term}

lemma revises_build (t : Term) : ReflTransGen Revises t t.build := by
  induction t using induction_children with
  | sequence ts ih =>
    rw [build_sequence]
    exact reflTransGen_of_forall_mem sequence fun t ht before after =>
      (ih t ht).lift (fun u => sequence (before ++ u :: after)) fun _ _ => .item before after
  | record es ih =>
    have hvalues : ReflTransGen Revises (record es) (record (Keyed.mapValues build es)) :=
      reflTransGen_of_forall_mem record fun e he before after =>
        (ih e he).lift (fun u => record (before ++ (e.1, u) :: after)) fun _ _ => .entry before e.1 after
    rw [build_record]
    exact hvalues.tail (.entries (Keyed.sameFinal_ofList _))
  | primitive p | callable c | var v | wildcard => exact .refl

theorem build_eq_iff : a.build = b.build ↔ ReflTransGen Revises a b := by
  constructor
  · intro h
    have hback : ReflTransGen Revises b.build b :=
      ReflTransGen.mono (fun _ _ => Revises.symm) _ _ (revises_build b).swap
    exact (h ▸ revises_build a).trans hback
  · intro h
    induction h with
    | refl => rfl
    | tail _ hlast ih => exact ih.trans hlast.build_eq

end Term

open Term (Revises)

theorem record_determined_by_final_values (req : Requirements) (cfg : Config) :
    (∀ es, ∃ r, Term.recordOf es = .record r ∧ Keyed.Collects es r ∧
        ∀ r', Keyed.Collects es r' → r' = r) ∧
      (∀ es fs, Term.recordOf es = Term.recordOf fs ↔ Keyed.SameFinal es fs) ∧
      ∀ a a' b b', ReflTransGen Revises a a' → ReflTransGen Revises b b' →
        unify req cfg a.build b.build = unify req cfg a'.build b'.build := by
  refine ⟨fun es => ?_, fun es fs => ?_, fun a a' b b' ha hb => ?_⟩
  · have hr : Keyed.Collects es (Keyed.ofList es) := Keyed.collects_ofList es
    exact ⟨Keyed.ofList es, rfl, hr, fun r' hr' => hr'.unique hr⟩
  · rw [Keyed.sameFinal_iff, Term.recordOf, Term.recordOf, Term.record.injEq]
  · rw [Term.build_eq_iff.mpr ha, Term.build_eq_iff.mpr hb]

section Parcel

open Term (sequence record var primitive)

def parcelDraft (contents : Term) : Term :=
  sequence [record [("to", var ⟨0⟩), ("contents", primitive .nil), ("contents", contents)]]

def parcelContents : Term := record [("weight", var ⟨1⟩), ("item", var ⟨2⟩), ("weight", var ⟨3⟩)]

def revisedContents : Term := record [("item", var ⟨2⟩), ("weight", var ⟨3⟩)]

def parcelRevision : Term := sequence [record [("contents", revisedContents), ("to", var ⟨0⟩)]]

def parcelData : Term :=
  sequence [record [("to", primitive (.string "B")), ("contents",
    record [("weight", primitive (.long 7)), ("item", primitive (.string "tea"))])]]

def parcelBindings : Bindings :=
  .several [(⟨2⟩, primitive (.string "tea")), (⟨3⟩, primitive (.long 7)), (⟨0⟩, primitive (.string "B"))]

theorem record_determined_by_final_values_parcel :
    ReflTransGen Revises (parcelDraft parcelContents) parcelRevision ∧
      unify (fun _ => none) .standard (parcelDraft parcelContents).build parcelData.build =
        .unified parcelBindings ∧
      unify (fun _ => none) .standard parcelRevision.build parcelData.build =
        .unified parcelBindings := by
  have hcontents : Revises parcelContents revisedContents := .entries (Keyed.sameFinal_iff.mpr rfl)
  have hinner : Revises (parcelDraft parcelContents) (parcelDraft revisedContents) :=
    .item [] [] (.entry [("to", var ⟨0⟩), ("contents", primitive .nil)] "contents" [] hcontents)
  have houter : Revises (parcelDraft revisedContents) parcelRevision :=
    .item [] [] (.entries (Keyed.sameFinal_iff.mpr rfl))
  have hrevision := (ReflTransGen.single hinner).tail houter
  have hunify : unify (fun _ => none) .standard (parcelDraft parcelContents).build parcelData.build =
      .unified parcelBindings := rfl
  refine ⟨hrevision, hunify, ?_⟩
  rw [← (record_determined_by_final_values _ _).2.2 _ _ _ _ hrevision .refl]
  exact hunify

end Parcel

end Unification
