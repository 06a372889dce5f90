import Unification.Proofs.Parts

namespace Unification.Term

variable {θ σ : Variable → Term}

mutual

def subst (θ : Variable → Term) : Term → Term
  | var v => θ v
  | sequence ts => sequence (substItems θ ts)
  | record es => record (substEntries θ es)
  | t => t

def substItems (θ : Variable → Term) : List Term → List Term
  | [] => []
  | t :: ts => subst θ t :: substItems θ ts

def substEntries (θ : Variable → Term) : List (String × Term) → List (String × Term)
  | [] => []
  | (k, t) :: es => (k, subst θ t) :: substEntries θ es

end

lemma substItems_eq (ts : List Term) : substItems θ ts = ts.map (subst θ) :=
  eq_map_of_cons rfl (fun _ _ => rfl) ts

lemma substEntries_eq (es : List (String × Term)) :
    substEntries θ es = Keyed.mapValues (subst θ) es :=
  eq_map_of_cons rfl (fun _ _ => rfl) es

@[simp] lemma subst_var (v : Variable) : (var v).subst θ = θ v := rfl
@[simp] lemma subst_primitive (p : Primitive) : (primitive p).subst θ = primitive p := rfl
@[simp] lemma subst_callable (c : Callable) : (callable c).subst θ = callable c := rfl
@[simp] lemma subst_wildcard : wildcard.subst θ = wildcard := rfl

@[simp] lemma subst_sequence (ts : List Term) :
    (sequence ts).subst θ = sequence (ts.map (subst θ)) := by
  rw [subst, substItems_eq]

@[simp] lemma subst_record (es : List (String × Term)) :
    (record es).subst θ = record (Keyed.mapValues (subst θ) es) := by
  rw [subst, substEntries_eq]

lemma subst_congr {t : Term} (h : ∀ v, Occurs v t → θ v = σ v) : t.subst θ = t.subst σ := by
  induction t using induction_children with
  | sequence ts ih =>
    rw [subst_sequence, subst_sequence]
    exact congrArg sequence (List.map_congr_left fun t ht =>
      ih t ht fun v hv => h v (occurs_sequence.mpr ⟨t, ht, hv⟩))
  | record es ih =>
    rw [subst_record, subst_record]
    exact congrArg record (List.map_congr_left fun e he =>
      congrArg (Prod.mk e.1) (ih e he fun v hv => h v (occurs_record.mpr ⟨e, he, hv⟩)))
  | var v => exact h v (occurs_var.mpr rfl)
  | primitive p | callable c | wildcard => rfl

lemma subst_variables (t : Term) : t.subst var = t := by
  induction t using induction_children with
  | sequence ts ih => rw [subst_sequence, List.map_congr_left ih, List.map_id']
  | record es ih =>
    rw [subst_record, Keyed.mapValues,
      List.map_congr_left fun e he => congrArg (Prod.mk e.1) (ih e he), List.map_id']
  | primitive p | callable c | var v | wildcard => rfl

lemma subst_subst (t : Term) : (t.subst θ).subst σ = t.subst fun v => (θ v).subst σ := by
  induction t using induction_children with
  | sequence ts ih =>
    simp only [subst_sequence, List.map_map]
    exact congrArg sequence (List.map_congr_left ih)
  | record es ih =>
    simp only [subst_record, Keyed.mapValues, List.map_map]
    exact congrArg record (List.map_congr_left fun e he => congrArg (Prod.mk e.1) (ih e he))
  | primitive p | callable c | var v | wildcard => rfl

lemma subst_of_isGround {t : Term} (ht : t.isGround = true) : t.subst θ = t :=
  (subst_congr fun v hv => (isGround_iff.mp ht v hv).elim).trans t.subst_variables

section Substitute

variable {f : Variable → Option Term}

lemma substituteItems_eq_some_iff {ts us : List Term} :
    substituteItems f ts = some us ↔ List.Forall₂ (fun t u => t.substitute f = some u) ts us := by
  induction ts generalizing us with
  | nil => cases us <;> simp [substituteItems]
  | cons t ts ih =>
    rw [substituteItems, List.forall₂_cons_left_iff]
    simp only [← ih]
    cases t.substitute f with
    | none => simp
    | some u => cases substituteItems f ts <;> simp [eq_comm]

lemma substituteEntries_eq_some_iff {es fs : List (String × Term)} :
    substituteEntries f es = some fs ↔ Keyed.keys es = Keyed.keys fs ∧
      List.Forall₂ (fun t u => t.substitute f = some u) (Keyed.values es) (Keyed.values fs) := by
  rw [← Keyed.forall₂_iff]
  induction es generalizing fs with
  | nil => cases fs <;> simp [substituteEntries]
  | cons e es ih =>
    rw [substituteEntries, List.forall₂_cons_left_iff]
    simp only [← ih]
    cases e.2.substitute f with
    | none => simp
    | some u => cases substituteEntries f es <;> simp [eq_comm]

lemma substitute_sequence {ts : List Term} {x : Term} : (sequence ts).substitute f = some x ↔
    ∃ us, List.Forall₂ (fun t u => t.substitute f = some u) ts us ∧ sequence us = x := by
  simp only [substitute, Option.map_eq_some_iff, substituteItems_eq_some_iff]

lemma substitute_record {es : List (String × Term)} {x : Term} :
    (record es).substitute f = some x ↔ ∃ fs, (Keyed.keys es = Keyed.keys fs ∧
      List.Forall₂ (fun t u => t.substitute f = some u) (Keyed.values es) (Keyed.values fs)) ∧
      record fs = x := by
  simp only [substitute, Option.map_eq_some_iff, substituteEntries_eq_some_iff]

lemma substitute_record_eq_recordOf {es : List (String × Term)} (h : Keyed.Ordered es) :
    (record es).substitute f = (substituteEntries f es).map recordOf := by
  refine Option.map_congr fun fs hfs => ?_
  rw [recordOf, Keyed.ofList_of_ordered (h.of_keys_eq (substituteEntries_eq_some_iff.mp hfs).1)]

lemma substitute_eq_some {t : Term} (h : ∀ v, Occurs v t → f v = some (θ v)) :
    t.substitute f = some (t.subst θ) := by
  induction t using induction_children with
  | sequence ts ih =>
    refine substitute_sequence.mpr ⟨ts.map (subst θ), ?_, (subst_sequence ts).symm⟩
    rw [List.forall₂_map_right_iff, List.forall₂_same]
    exact fun t ht => ih t ht fun v hv => h v (occurs_sequence.mpr ⟨t, ht, hv⟩)
  | record es ih =>
    refine substitute_record.mpr
      ⟨Keyed.mapValues (subst θ) es, ⟨(Keyed.keys_mapValues _).symm, ?_⟩, (subst_record es).symm⟩
    rw [Keyed.values_mapValues, List.forall₂_map_right_iff, List.forall₂_same]
    intro t ht
    obtain ⟨e, he, rfl⟩ := List.mem_map.mp ht
    exact ih e he fun v hv => h v (occurs_record.mpr ⟨e, he, hv⟩)
  | var v => exact h v (occurs_var.mpr rfl)
  | primitive p | callable c | wildcard => rfl

end Substitute

lemma mem_children_subst {t u : Term} (h : u ∈ t.children) : u.subst θ ∈ (t.subst θ).children := by
  cases t with
  | sequence ts =>
    rw [subst_sequence]
    exact List.mem_map_of_mem h
  | record es =>
    rw [subst_record, children, Keyed.values_mapValues]
    exact List.mem_map_of_mem h
  | _ => cases h

lemma size_subst_child_lt {t u : Term} (h : u ∈ t.children) : (u.subst θ).size < (t.subst θ).size :=
  size_lt_of_mem_children (mem_children_subst h)

lemma size_le_size_subst {t : Term} {v : Variable} (h : Occurs v t) :
    (θ v).size ≤ (t.subst θ).size := by
  induction t using children_induction with
  | node t ih =>
    rcases occurs_iff.mp h with rfl | ⟨u, hu, hv⟩
    · exact le_rfl
    · exact (ih u hu hv).trans (size_subst_child_lt hu).le

lemma size_lt_size_subst {t : Term} {v : Variable} (h : Occurs v t) (ht : t.isVariable = false) :
    (θ v).size < (t.subst θ).size := by
  rcases occurs_iff.mp h with rfl | ⟨u, hu, hv⟩
  · cases ht
  · exact (size_le_size_subst hv).trans_lt (size_subst_child_lt hu)

lemma mem_parts_subst {t w : Term} (h : w ∈ (t.subst θ).parts) :
    (∃ v, Occurs v t ∧ w ∈ (θ v).parts) ∨
      ∃ u ∈ t.parts, u.isVariable = false ∧ w = u.subst θ := by
  induction t using induction_children with
  | sequence ts ih =>
    rw [subst_sequence, parts_sequence, List.mem_cons] at h
    rcases h with rfl | h
    · exact .inr ⟨sequence ts, self_mem_parts _, rfl, (subst_sequence ts).symm⟩
    · obtain ⟨_, hu, hw⟩ := List.mem_flatMap.mp h
      obtain ⟨t, ht, rfl⟩ := List.mem_map.mp hu
      rcases ih t ht hw with ⟨v, hv, hw⟩ | ⟨u, hu, hw⟩
      · exact .inl ⟨v, occurs_sequence.mpr ⟨t, ht, hv⟩, hw⟩
      · refine .inr ⟨u, ?_, hw⟩
        rw [parts_sequence]
        exact List.mem_cons_of_mem _ (List.mem_flatMap.mpr ⟨t, ht, hu⟩)
  | record es ih =>
    rw [subst_record, parts_record, List.mem_cons] at h
    rcases h with rfl | h
    · exact .inr ⟨record es, self_mem_parts _, rfl, (subst_record es).symm⟩
    · obtain ⟨_, hf, hw⟩ := List.mem_flatMap.mp h
      obtain ⟨e, he, rfl⟩ := List.mem_map.mp hf
      rcases ih e he hw with ⟨v, hv, hw⟩ | ⟨u, hu, hw⟩
      · exact .inl ⟨v, occurs_record.mpr ⟨e, he, hv⟩, hw⟩
      · refine .inr ⟨u, ?_, hw⟩
        rw [parts_record]
        exact List.mem_cons_of_mem _ (List.mem_flatMap.mpr ⟨e, he, hu⟩)
  | var v => exact .inl ⟨v, occurs_var.mpr rfl, h⟩
  | primitive p | callable c | wildcard => exact .inr ⟨w, h, by simp_all [isVariable, asVariable]⟩

lemma occurs_subst {t : Term} {w : Variable} (h : Occurs w (t.subst θ)) :
    ∃ v, Occurs v t ∧ Occurs w (θ v) := by
  rcases mem_parts_subst h with hv | ⟨u, _, hu, hw⟩
  · exact hv
  · cases u <;> simp [isVariable, asVariable] at hu hw

lemma occurs_subst_of_occurs {t : Term} {v w : Variable} (hv : Occurs v t) (hw : Occurs w (θ v)) :
    Occurs w (t.subst θ) := by
  induction t using children_induction with
  | node t ih =>
    rcases occurs_iff.mp hv with rfl | ⟨u, hu, hv⟩
    · exact hw
    · exact occurs_iff.mpr (.inr ⟨_, mem_children_subst hu, ih u hu hv⟩)

lemma nanFree_subst {t : Term} (ht : t.NaNFree) (hθ : ∀ v, Occurs v t → (θ v).NaNFree) :
    (t.subst θ).NaNFree := by
  intro w hw
  rcases mem_parts_subst hw with ⟨v, hv, hw⟩ | ⟨u, hu, hnv, rfl⟩
  · exact hθ v hv w hw
  · have hn := ht u hu
    cases u with
    | primitive p => exact hn
    | var v => cases hnv
    | sequence ts => rw [subst_sequence]; rfl
    | record es => rw [subst_record]; rfl
    | callable c | wildcard => rfl

lemma wellFormed_subst {t : Term} (ht : t.WellFormed) (hθ : ∀ v, Occurs v t → (θ v).WellFormed) :
    (t.subst θ).WellFormed := by
  induction t using induction_children with
  | sequence ts ih =>
    rw [subst_sequence, wellFormed_sequence]
    rintro _ hu
    obtain ⟨t, hmem, rfl⟩ := List.mem_map.mp hu
    exact ih t hmem (wellFormed_sequence.mp ht t hmem)
      fun v hv => hθ v (occurs_sequence.mpr ⟨t, hmem, hv⟩)
  | record es ih =>
    obtain ⟨ho, hes⟩ := wellFormed_record.mp ht
    rw [subst_record, wellFormed_record]
    refine ⟨(Keyed.ordered_mapValues _).mpr ho, ?_⟩
    rintro _ hf
    obtain ⟨e, hmem, rfl⟩ := List.mem_map.mp hf
    exact ih e hmem (hes e hmem) fun v hv => hθ v (occurs_record.mpr ⟨e, hmem, hv⟩)
  | var v => exact hθ v (occurs_var.mpr rfl)
  | primitive p | callable c | wildcard => trivial

lemma exact_subst {cfg : Config} {t : Term} (ht : t.Exact cfg)
    (hθ : ∀ v, Occurs v t → (θ v).Exact cfg) : (t.subst θ).Exact cfg where
  wellFormed := wellFormed_subst ht.wellFormed fun v hv => (hθ v hv).wellFormed
  omits key hk w hw := by
    rcases mem_parts_subst hw with ⟨v, hv, hw⟩ | ⟨u, hu, hnv, rfl⟩
    · exact (hθ v hv).omits key hk w hw
    · have hkey := ht.omits key hk u hu
      cases u with
      | record es =>
        rw [subst_record, hasKey, Keyed.contains_mapValues]
        exact hkey
      | sequence ts =>
        rw [subst_sequence]
        rfl
      | var v => cases hnv
      | primitive p | callable c | wildcard => rfl

end Unification.Term
