import Unification.Proofs.Conversion

namespace Unification

namespace Term

mutual

def mapPrimitives (f : Primitive → Primitive) : Term → Term
  | primitive p => primitive (f p)
  | sequence ts => sequence (mapPrimitivesItems f ts)
  | record es => record (mapPrimitivesEntries f es)
  | t => t

def mapPrimitivesItems (f : Primitive → Primitive) : List Term → List Term
  | [] => []
  | t :: ts => mapPrimitives f t :: mapPrimitivesItems f ts

def mapPrimitivesEntries (f : Primitive → Primitive) : List (String × Term) → List (String × Term)
  | [] => []
  | (k, t) :: es => (k, mapPrimitives f t) :: mapPrimitivesEntries f es

end

lemma mapPrimitives_sequence (f : Primitive → Primitive) (ts : List Term) :
    mapPrimitives f (sequence ts) = sequence (ts.map (mapPrimitives f)) := by
  have hitems : mapPrimitivesItems f ts = ts.map (mapPrimitives f) :=
    eq_map_of_cons rfl (fun _ _ => rfl) ts
  rw [mapPrimitives, hitems]

lemma mapPrimitives_record (f : Primitive → Primitive) (es : List (String × Term)) :
    mapPrimitives f (record es) = record (Keyed.mapValues (mapPrimitives f) es) := by
  have hentries : mapPrimitivesEntries f es = Keyed.mapValues (mapPrimitives f) es :=
    eq_map_of_cons rfl (fun _ _ => rfl) es
  rw [mapPrimitives, hentries]

end Term

def Primitive.dateText [Scalars] : Primitive → Primitive
  | date d => string (Scalars.dateText d)
  | p => p

namespace Document

lemma wellFormed_array {ds : List Document} : (array ds).WellFormed ↔ ∀ d ∈ ds, d.WellFormed := by
  rw [WellFormed]
  induction ds with
  | nil => simp [WellFormedItems]
  | cons d ds ih => rw [WellFormedItems, ih, List.forall_mem_cons]

lemma wellFormed_object {es : List (String × Document)} :
    (object es).WellFormed ↔ Keyed.Ordered es ∧ ∀ e ∈ es, e.2.WellFormed := by
  have hentries : WellFormedEntries es ↔ ∀ e ∈ es, e.2.WellFormed := by
    induction es with
    | nil => simp [WellFormedEntries]
    | cons e es ih => rw [WellFormedEntries, ih, List.forall_mem_cons]
  rw [WellFormed, hentries]

end Document

namespace Term

variable {t : Term} {d : Document}

lemma wellFormed_mapPrimitives {f : Primitive → Primitive} :
    (t.mapPrimitives f).WellFormed ↔ t.WellFormed := by
  induction t using induction_children with
  | sequence ts ih =>
    rw [mapPrimitives_sequence, wellFormed_sequence, wellFormed_sequence, List.forall_mem_map]
    exact forall₂_congr ih
  | record es ih =>
    rw [mapPrimitives_record, wellFormed_record, wellFormed_record, Keyed.ordered_mapValues,
      Keyed.mapValues, List.forall_mem_map]
    exact and_congr_right fun _ => forall₂_congr ih
  | primitive p | callable c | var v | wildcard => rfl

section Scalars

variable [Scalars]

lemma wellFormed_ofDocument : (ofDocument d).WellFormed ↔ d.WellFormed := by
  induction d using Document.induction_children with
  | array ds ih =>
    rw [ofDocument_array, wellFormed_sequence, Document.wellFormed_array, List.forall_mem_map]
    exact forall₂_congr ih
  | object es ih =>
    rw [ofDocument_object, wellFormed_record, Document.wellFormed_object, Keyed.ordered_mapValues,
      Keyed.mapValues, List.forall_mem_map]
    exact and_congr_right fun _ => forall₂_congr (List.forall_mem_map.mp ih)
  | integer n | float x =>
    rw [ofDocument, ofNumber]
    cases Scalars.asInt64? _ <;> exact iff_of_true trivial trivial
  | null | bool b | string s => rfl

variable [LawfulScalars]

theorem ofDocument_of_toDocument? (h : t.toDocument? = some d) :
    ofDocument d = t.mapPrimitives Primitive.dateText := by
  induction t using induction_children generalizing d with
  | sequence ts ih =>
    obtain ⟨ds, hds, rfl⟩ := toDocument?_sequence.mp h
    have heq := forall₂_of_forall_mem (fun t ht d h' => (@ih t ht d h').symm) hds
    rw [ofDocument_array, mapPrimitives_sequence, map_eq_map_of_forall₂ heq]
  | record es ih =>
    obtain ⟨fs, ⟨hkeys, hds⟩, rfl⟩ := toDocument?_record.mp h
    have ih : ∀ t ∈ Keyed.values es, ∀ d, t.toDocument? = some d →
        t.mapPrimitives Primitive.dateText = ofDocument d :=
      List.forall_mem_map.mpr fun e he d h' => (@ih e he d h').symm
    have heq := forall₂_of_forall_mem ih hds
    have hentries : Keyed.mapValues ofDocument fs = Keyed.mapValues (mapPrimitives Primitive.dateText) es :=
      Keyed.eq_of_keys_of_values (by simp [hkeys]) (by simp [map_eq_map_of_forall₂ heq])
    rw [ofDocument_object, mapPrimitives_record, hentries]
  | primitive p =>
    cases p with
    | long n =>
      cases (toDocument?_long n).symm.trans h
      exact ofNumber_ofLong n
    | float x =>
      have hx : x.isFinite = true := exists_toDocument?_iff.mp ⟨d, h⟩ _ (self_mem_parts _)
      cases (toDocument?_float ⟨x, hx⟩).symm.trans h
      exact ofNumber_float ⟨x, hx⟩
    | _ =>
      cases h
      rfl
  | callable c | var v | wildcard => cases h

theorem toDocument?_reads_back (t : Term) :
    ((∃ d, t.toDocument? = some d) ↔ t.Writable) ∧
      ∀ d, t.toDocument? = some d →
        ofDocument d = t.mapPrimitives Primitive.dateText ∧ (d.WellFormed ↔ t.WellFormed) := by
  refine ⟨exists_toDocument?_iff, fun d h => ?_⟩
  have hread := ofDocument_of_toDocument? h
  refine ⟨hread, ?_⟩
  rw [← wellFormed_ofDocument, hread, wellFormed_mapPrimitives]

end Scalars

section Journal

def journalNight : Instant := ⟨1483228799, ⟨1500000000, by decide⟩⟩

def journal (note : Term) : Term :=
  record [("at", primitive (.date journalNight)), ("log", sequence [record [("", primitive (.long Int64.minValue))],
    primitive (.float ⟨0x8000000000000000⟩), note])]

def journalDocument : Document :=
  .object [("at", .string journalNight.toRfc3339), ("log", .array [.object [("", .ofLong Int64.minValue)],
    .float ⟨⟨0x8000000000000000⟩, rfl⟩, .array []])]

theorem toDocument?_reads_back_journal :
    (journal (sequence [])).toDocument? = some journalDocument ∧
      ofDocument journalDocument = (journal (sequence [])).mapPrimitives Primitive.dateText ∧
      journalDocument.WellFormed ∧ (journal (callable ⟨0⟩)).toDocument? = none := by
  have h : (journal (sequence [])).toDocument? = some journalDocument := rfl
  obtain ⟨hread, hwf⟩ := (toDocument?_reads_back (journal (sequence []))).2 _ h
  have hlost : ¬ (journal (callable ⟨0⟩)).Writable := by decide
  refine ⟨h, hread, hwf.mpr (by decide), ?_⟩
  rw [← (toDocument?_reads_back _).1, ← Option.ne_none_iff_exists', not_not] at hlost
  exact hlost

end Journal

end Term

end Unification
