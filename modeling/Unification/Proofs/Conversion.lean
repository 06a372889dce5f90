import Unification.Document
import Unification.Proofs.Parts
import Unification.Proofs.Rounding

namespace Unification

open Scalars

/-- What the conversions rely on. An integer above 63 bits is read as its nearest float. -/
class LawfulScalars [Scalars] : Prop where
  asInt64?_eq_some_iff {n : Number} {i : Int64} : asInt64? n = some i ↔ n = .ofLong i
  exists_asFloat? (n : Number) : ∃ x, asFloat? n = some x ∧ x.isFinite = true
  asFloat?_float (x : Number.Float) : asFloat? (.float x) = some x.1
  isNearest_of_asFloat? {n : Number.Integer} {x : Binary64} (hn : 2 ^ 63 ≤ n.1)
    (hx : asFloat? (.integer n) = some x) : x.IsNearest n.1.toNat
  ofInt64_eq (i : Int64) : ofInt64 i = .ofLong i
  ofFloat?_eq_some_iff {x : Binary64} {n : Number} : ofFloat? x = some n ↔ ∃ h, n = .float ⟨x, h⟩

namespace Number

variable {n : Integer} {i : Int64}

lemma integer_eq_ofLong_iff : integer n = ofLong i ↔ i.toInt = n.1 := by
  rw [ofLong, integer.injEq, Subtype.ext_iff, eq_comm]

lemma exists_ofLong (hn : n.1 < 2 ^ 63) : ∃ i, integer n = ofLong i :=
  ⟨Int64.ofInt n.1, integer_eq_ofLong_iff.mpr (Int64.toInt_ofInt_of_le n.2.1 hn)⟩

lemma form_of_nonneg (hn : 0 ≤ n.1) : ∃ u, (integer n).form = .unsigned u ∧ (u.toNat : ℤ) = n.1 := by
  have hlt : n.1 < 2 ^ 64 := n.2.2
  have hsize : n.1.toNat < 2 ^ 64 := by omega
  refine ⟨_, if_pos hn, ?_⟩
  rw [UInt64.toNat_ofNat_of_lt' hsize, Int.toNat_of_nonneg hn]

lemma form_of_neg (hn : n.1 < 0) : ∃ i, (integer n).form = .signed i ∧ i.toInt = n.1 := by
  have hlt : n.1 < 2 ^ 63 := by omega
  exact ⟨_, if_neg (not_le.mpr hn), Int64.toInt_ofInt_of_le n.2.1 hlt⟩

lemma asInt64?_form_iff {n : Number} : n.form.asInt64? = some i ↔ n = ofLong i := by
  cases n with
  | float x => simp [form, Form.asInt64?, ofLong]
  | integer n =>
    rw [integer_eq_ofLong_iff]
    rcases lt_or_ge n.1 0 with hn | hn
    · obtain ⟨j, hj, hval⟩ := form_of_neg hn
      rw [hj, Form.asInt64?, Option.some_inj, ← hval, Int64.toInt_inj, eq_comm]
    · obtain ⟨u, hu, hval⟩ := form_of_nonneg hn
      rw [hu, Form.asInt64?, ← hval]
      split
      · next hlt =>
        have hlt : u.toNat < 2 ^ 63 := hlt
        rw [Option.some_inj, ← Int64.toInt_inj, Int64.toInt_ofNat_of_lt hlt, eq_comm]
      · next hle =>
        have hle : ¬ u.toNat < 2 ^ 63 := hle
        have hi : i.toInt < 2 ^ 63 := i.toInt_lt
        simp only [reduceCtorEq, false_iff]
        omega

lemma exists_asFloat?_form (n : Number) : ∃ x, n.form.asFloat? = some x ∧ x.isFinite = true := by
  have hlog {m : ℕ} (hm : m < 2 ^ 64) : m.log2 < 1023 := by
    rcases Nat.eq_zero_or_pos m with rfl | hpos
    · decide
    · have := (Nat.log2_lt hpos.ne').mpr hm
      omega
  cases n with
  | float x => exact ⟨_, rfl, x.2⟩
  | integer n =>
    rcases lt_or_ge n.1 0 with hn | hn
    · obtain ⟨j, hj, hval⟩ := form_of_neg hn
      have hlow : -2 ^ 63 ≤ n.1 := n.2.1
      exact ⟨_, by rw [hj]; rfl, Binary64.isFinite_ofInt (hlog (by omega))⟩
    · obtain ⟨u, hu, hval⟩ := form_of_nonneg hn
      have hhigh : n.1 < 2 ^ 64 := n.2.2
      exact ⟨_, by rw [hu]; rfl, Binary64.isFinite_ofNat (hlog (by omega))⟩

lemma isNearest_of_asFloat?_form {x : Binary64} (hn : 2 ^ 63 ≤ n.1)
    (hx : (integer n).form.asFloat? = some x) : x.IsNearest n.1.toNat := by
  obtain ⟨u, hu, hval⟩ := form_of_nonneg (n := n) (by omega)
  have hhigh : n.1 < 2 ^ 64 := n.2.2
  have hne : u.toNat ≠ 0 := by omega
  have hlog : u.toNat.log2 < 64 := (Nat.log2_lt hne).mpr (by omega)
  rw [hu, Form.asFloat?, Option.some_inj] at hx
  rw [← hx, ← hval, Int.toNat_natCast]
  exact Binary64.isNearest_ofNat hne (by omega)

lemma ofFloat?_eq_some_iff {x : Binary64} {n : Number} :
    ofFloat? x = some n ↔ ∃ h, n = float ⟨x, h⟩ := by
  rw [ofFloat?]
  split
  · next h => simp [h, eq_comm]
  · next h => simp [h]

end Number

instance : LawfulScalars where
  asInt64?_eq_some_iff := Number.asInt64?_form_iff
  exists_asFloat? := Number.exists_asFloat?_form
  asFloat?_float _ := rfl
  isNearest_of_asFloat? := Number.isNearest_of_asFloat?_form
  ofInt64_eq _ := rfl
  ofFloat?_eq_some_iff := Number.ofFloat?_eq_some_iff

lemma exists_forall₂_iff {α β : Type _} {R : α → β → Prop} {xs : List α} :
    (∃ ys, List.Forall₂ R xs ys) ↔ ∀ x ∈ xs, ∃ y, R x y := by
  induction xs with
  | nil => simp
  | cons x xs ih =>
    simp only [List.forall_mem_cons, ← ih, List.forall₂_cons_left_iff]
    constructor
    · rintro ⟨_, y, ys, hy, hys, rfl⟩
      exact ⟨⟨y, hy⟩, ys, hys⟩
    · rintro ⟨⟨y, hy⟩, ys, hys⟩
      exact ⟨_, y, ys, hy, hys, rfl⟩

lemma map_eq_map_of_forall₂ {α β γ : Type _} {f : α → γ} {g : β → γ} {xs : List α} {ys : List β}
    (h : List.Forall₂ (fun x y => f x = g y) xs ys) : xs.map f = ys.map g := by
  induction h with
  | nil => rfl
  | cons hxy _ ih => rw [List.map_cons, List.map_cons, hxy, ih]

namespace Document

@[elab_as_elim]
theorem induction_children {motive : Document → Prop} (null : motive null)
    (bool : ∀ b, motive (bool b)) (integer : ∀ n, motive (integer n))
    (float : ∀ x, motive (float x)) (string : ∀ s, motive (string s))
    (array : ∀ ds, (∀ d ∈ ds, motive d) → motive (array ds))
    (object : ∀ es, (∀ d ∈ Keyed.values es, motive d) → motive (object es)) (d : Document) :
    motive d := by
  refine @Document.rec motive (fun ds => ∀ d ∈ ds, motive d)
    (fun es => ∀ d ∈ Keyed.values es, motive d) (fun e => motive e.2)
    null bool (fun n => n.casesOn integer float) string array object ?_ ?_ ?_ ?_ ?_ d
  · simp
  · intro d ds hd hds
    exact List.forall_mem_cons.mpr ⟨hd, hds⟩
  · simp [Keyed.values]
  · intro e es he hes
    exact List.forall_mem_cons.mpr ⟨he, hes⟩
  · exact fun _ _ hd => hd

inductive Part (e : Document) : Document → Prop
  | self : Part e e
  | item {d ds} (hd : d ∈ ds) (h : Part e d) : Part e (array ds)
  | member {d es} (hd : d ∈ Keyed.values es) (h : Part e d) : Part e (object es)

def FitsLong (d : Document) : Prop := ∀ n, Part (integer n) d → n.1 < 2 ^ 63

/-- The second document has the nearest float for each integer above 63 bits of the first. -/
inductive RoundsTo : Document → Document → Prop
  | null : RoundsTo null null
  | bool (b) : RoundsTo (bool b) (bool b)
  | long {n} (hn : n.1 < 2 ^ 63) : RoundsTo (integer n) (integer n)
  | rounded {n x} (hn : 2 ^ 63 ≤ n.1) (hx : x.1.IsNearest n.1.toNat) : RoundsTo (integer n) (float x)
  | float (x) : RoundsTo (float x) (float x)
  | string (s) : RoundsTo (string s) (string s)
  | array {ds ds'} (h : List.Forall₂ RoundsTo ds ds') : RoundsTo (array ds) (array ds')
  | object {es es'} (hkeys : Keyed.keys es = Keyed.keys es')
      (h : List.Forall₂ RoundsTo (Keyed.values es) (Keyed.values es')) : RoundsTo (object es) (object es')

lemma RoundsTo.eq_of_fitsLong {d d' : Document} (h : d.RoundsTo d') (hd : d.FitsLong) : d' = d := by
  induction d using induction_children generalizing d' with
  | null | bool b | float x | string s =>
    cases h
    rfl
  | integer n =>
    cases h with
    | long hn => rfl
    | rounded hn hx => exact absurd (hd n .self) (not_lt.mpr hn)
  | array ds ih =>
    cases h with
    | array h =>
      have heq := forall₂_of_forall_mem
        (fun e he e' h' => (ih e he h' fun n hn => hd n (.item he hn)).symm) h
      rw [List.forall₂_eq_eq_eq] at heq
      rw [heq]
  | object es ih =>
    cases h with
    | object hkeys h =>
      have heq := forall₂_of_forall_mem
        (fun e he e' h' => (ih e he h' fun n hn => hd n (.member he hn)).symm) h
      rw [List.forall₂_eq_eq_eq] at heq
      rw [Keyed.eq_of_keys_of_values hkeys heq]

end Document

namespace Term

def isWritable : Term → Bool
  | primitive (.float x) => x.isFinite
  | primitive _ | sequence _ | record _ => true
  | callable _ | var _ | wildcard => false

def Writable (t : Term) : Prop := ∀ u ∈ t.parts, u.isWritable = true

instance : DecidablePred Writable :=
  fun t => inferInstanceAs (Decidable (∀ u ∈ t.parts, u.isWritable = true))

lemma Writable.of_mem_parts {t u : Term} (ht : t.Writable) (hu : u ∈ t.parts) : u.Writable :=
  fun w hw => ht w (parts_subset hu hw)

@[simp] lemma writable_sequence {ts : List Term} :
    (sequence ts).Writable ↔ ∀ t ∈ ts, t.Writable :=
  forall_mem_parts_sequence.trans (and_iff_right rfl)

@[simp] lemma writable_record {es : List (String × Term)} :
    (record es).Writable ↔ ∀ t ∈ Keyed.values es, t.Writable :=
  forall_mem_parts_record.trans (and_iff_right rfl)

lemma Writable.nanFree {t : Term} (ht : t.Writable) : t.NaNFree := by
  intro u hu
  have hw := ht u hu
  cases u with
  | primitive p =>
    cases p with
    | float x => exact Binary64.isNaN_eq_false_of_isFinite hw
    | _ => rfl
  | _ => rfl

variable [Scalars]

lemma ofDocuments_eq (ds : List Document) : ofDocuments ds = ds.map ofDocument :=
  eq_map_of_cons rfl (fun _ _ => rfl) ds

lemma ofMembers_eq (es : List (String × Document)) : ofMembers es = Keyed.mapValues ofDocument es :=
  eq_map_of_cons rfl (fun _ _ => rfl) es

@[simp] lemma ofDocument_array (ds : List Document) :
    ofDocument (.array ds) = sequence (ds.map ofDocument) := by
  rw [ofDocument, ofDocuments_eq]

@[simp] lemma ofDocument_object (es : List (String × Document)) :
    ofDocument (.object es) = record (Keyed.mapValues ofDocument es) := by
  rw [ofDocument, ofMembers_eq]

lemma ofDocument_object_eq_recordOf {es : List (String × Document)} (h : Keyed.Ordered es) :
    ofDocument (.object es) = recordOf (ofMembers es) := by
  have hordered : Keyed.Ordered (ofMembers es) := by rwa [ofMembers_eq, Keyed.ordered_mapValues]
  rw [recordOf, Keyed.ofList_of_ordered hordered, ofDocument]

lemma toDocuments?_eq_some_iff {ts : List Term} {ds : List Document} :
    toDocuments? ts = some ds ↔ List.Forall₂ (fun t d => t.toDocument? = some d) ts ds := by
  induction ts generalizing ds with
  | nil => cases ds <;> simp [toDocuments?]
  | cons t ts ih =>
    rw [toDocuments?, List.forall₂_cons_left_iff]
    simp only [← ih]
    cases t.toDocument? with
    | none => simp
    | some d => cases toDocuments? ts <;> simp [eq_comm]

lemma toMembers?_eq_some_iff {es : List (String × Term)} {fs : List (String × Document)} :
    toMembers? es = some fs ↔ Keyed.keys es = Keyed.keys fs ∧
      List.Forall₂ (fun t d => t.toDocument? = some d) (Keyed.values es) (Keyed.values fs) := by
  rw [← Keyed.forall₂_iff]
  induction es generalizing fs with
  | nil => cases fs <;> simp [toMembers?]
  | cons e es ih =>
    rw [toMembers?, List.forall₂_cons_left_iff]
    simp only [← ih]
    cases e.2.toDocument? with
    | none => simp
    | some d => cases toMembers? es <;> simp [eq_comm]

lemma toDocument?_record_eq_objectOf {es : List (String × Term)} (h : Keyed.Ordered es) :
    (record es).toDocument? = (toMembers? es).map .objectOf := by
  refine Option.map_congr fun fs hfs => ?_
  rw [Document.objectOf, Keyed.ofList_of_ordered (h.of_keys_eq (toMembers?_eq_some_iff.mp hfs).1)]

lemma toDocument?_sequence {ts : List Term} {d : Document} :
    (sequence ts).toDocument? = some d ↔
      ∃ ds, List.Forall₂ (fun t d => t.toDocument? = some d) ts ds ∧ Document.array ds = d := by
  simp only [toDocument?, Option.map_eq_some_iff, toDocuments?_eq_some_iff]

lemma toDocument?_record {es : List (String × Term)} {d : Document} :
    (record es).toDocument? = some d ↔ ∃ fs, (Keyed.keys es = Keyed.keys fs ∧
      List.Forall₂ (fun t d => t.toDocument? = some d) (Keyed.values es) (Keyed.values fs)) ∧
      Document.object fs = d := by
  simp only [toDocument?, Option.map_eq_some_iff, toMembers?_eq_some_iff]

lemma toDocument?_ofDocument_array {ds : List Document} {d' : Document} :
    (ofDocument (.array ds)).toDocument? = some d' ↔
      ∃ ds', List.Forall₂ (fun d d' => (ofDocument d).toDocument? = some d') ds ds' ∧
        Document.array ds' = d' := by
  rw [ofDocument_array, toDocument?_sequence]
  simp only [List.forall₂_map_left_iff]

lemma toDocument?_ofDocument_object {es : List (String × Document)} {d' : Document} :
    (ofDocument (.object es)).toDocument? = some d' ↔
      ∃ es', (Keyed.keys es = Keyed.keys es' ∧
        List.Forall₂ (fun d d' => (ofDocument d).toDocument? = some d') (Keyed.values es) (Keyed.values es')) ∧
        Document.object es' = d' := by
  rw [ofDocument_object, toDocument?_record]
  simp only [Keyed.keys_mapValues, Keyed.values_mapValues, List.forall₂_map_left_iff]

variable [LawfulScalars]

theorem exists_toDocument?_iff {t : Term} : (∃ d, t.toDocument? = some d) ↔ t.Writable := by
  induction t using induction_children with
  | sequence ts ih =>
    rw [writable_sequence, ← forall₂_congr ih, ← exists_forall₂_iff]
    simp only [toDocument?_sequence]
    exact ⟨fun ⟨_, ds, hds, _⟩ => ⟨ds, hds⟩, fun ⟨ds, hds⟩ => ⟨_, ds, hds, rfl⟩⟩
  | record es ih =>
    have ih : ∀ t ∈ Keyed.values es, (∃ d, t.toDocument? = some d) ↔ t.Writable :=
      List.forall_mem_map.mpr ih
    rw [writable_record, ← forall₂_congr ih, ← exists_forall₂_iff]
    simp only [toDocument?_record]
    constructor
    · rintro ⟨_, fs, ⟨-, hds⟩, _⟩
      exact ⟨_, hds⟩
    · rintro ⟨ds, hds⟩
      have hlen := (Keyed.length_keys_eq es).trans hds.length_eq
      exact ⟨_, _, ⟨(Keyed.keys_zip hlen).symm, (Keyed.values_zip hlen).symm ▸ hds⟩, rfl⟩
  | primitive p =>
    cases p with
    | float x =>
      have hfloat : (∃ n, ofFloat? x = some n) ↔ x.isFinite = true := by
        simp only [LawfulScalars.ofFloat?_eq_some_iff]
        exact ⟨fun ⟨_, h, _⟩ => h, fun h => ⟨_, h, rfl⟩⟩
      simpa [toDocument?, Primitive.toDocument?, Writable, isWritable] using hfloat
    | _ => simp [toDocument?, Primitive.toDocument?, Writable, isWritable]
  | callable c | var v | wildcard => simp [toDocument?, Writable, isWritable]

lemma ofNumber_ofLong (i : Int64) : ofNumber (.ofLong i) = primitive (.long i) := by
  rw [ofNumber, LawfulScalars.asInt64?_eq_some_iff.mpr rfl]

lemma asInt64?_eq_none {n : Number} (h : ∀ i, n ≠ .ofLong i) : asInt64? n = none :=
  Option.eq_none_iff_forall_ne_some.mpr fun i hi => h i (LawfulScalars.asInt64?_eq_some_iff.mp hi)

lemma ofNumber_of_asInt64?_eq_none {n : Number} (h : asInt64? n = none) :
    ∃ x, asFloat? n = some x ∧ x.isFinite = true ∧ ofNumber n = primitive (.float x) := by
  obtain ⟨x, hx, hfinite⟩ := LawfulScalars.exists_asFloat? n
  exact ⟨x, hx, hfinite, by rw [ofNumber, h, hx, Option.getD_some]⟩

lemma ofNumber_float (x : Number.Float) : ofNumber (.float x) = primitive (.float x.1) := by
  have hnone : asInt64? (.float x) = none := asInt64?_eq_none fun i hi => by cases hi
  obtain ⟨y, hy, -, heq⟩ := ofNumber_of_asInt64?_eq_none hnone
  cases (LawfulScalars.asFloat?_float x).symm.trans hy
  exact heq

variable {n : Number.Integer}

lemma exists_ofNumber_of_le (hn : 2 ^ 63 ≤ n.1) : ∃ x : Number.Float,
    x.1.IsNearest n.1.toNat ∧ ofNumber (.integer n) = primitive (.float x.1) := by
  have hnone : asInt64? (.integer n) = none := by
    refine asInt64?_eq_none fun i hi => ?_
    have heq := Number.integer_eq_ofLong_iff.mp hi
    have hlt := i.toInt_lt
    omega
  obtain ⟨x, hx, hfinite, heq⟩ := ofNumber_of_asInt64?_eq_none hnone
  exact ⟨⟨x, hfinite⟩, LawfulScalars.isNearest_of_asFloat? hn hx, heq⟩

lemma toDocument?_long (i : Int64) : (primitive (.long i)).toDocument? = some (.ofLong i) :=
  congrArg (fun n => some (Document.number n)) (LawfulScalars.ofInt64_eq i)

lemma toDocument?_float (x : Number.Float) :
    (primitive (.float x.1)).toDocument? = some (.float x) :=
  congrArg (Option.map Document.number) (LawfulScalars.ofFloat?_eq_some_iff.mpr ⟨x.2, rfl⟩)

lemma toDocument?_ofNumber_of_lt (hn : n.1 < 2 ^ 63) :
    (ofNumber (.integer n)).toDocument? = some (.integer n) := by
  obtain ⟨i, hi⟩ := Number.exists_ofLong hn
  rw [hi, ofNumber_ofLong, toDocument?_long, Document.ofLong, Document.integer, hi]

lemma writable_ofDocument (d : Document) : (ofDocument d).Writable := by
  induction d using Document.induction_children with
  | integer n =>
    rw [ofDocument, ← exists_toDocument?_iff]
    rcases lt_or_ge n.1 (2 ^ 63) with hn | hn
    · exact ⟨_, toDocument?_ofNumber_of_lt hn⟩
    · obtain ⟨x, -, hx⟩ := exists_ofNumber_of_le hn
      exact ⟨_, hx ▸ toDocument?_float x⟩
  | float x =>
    rw [ofDocument, ofNumber_float, ← exists_toDocument?_iff]
    exact ⟨_, toDocument?_float x⟩
  | array ds ih =>
    rw [ofDocument_array, writable_sequence]
    exact List.forall_mem_map.mpr ih
  | object es ih =>
    rw [ofDocument_object, writable_record, Keyed.values_mapValues]
    exact List.forall_mem_map.mpr ih
  | null | bool b | string s => exact exists_toDocument?_iff.mp ⟨_, rfl⟩

lemma roundsTo_of_toDocument? {d d' : Document} (h : (ofDocument d).toDocument? = some d') :
    d.RoundsTo d' := by
  induction d using Document.induction_children generalizing d' with
  | null =>
    cases h
    exact .null
  | bool b =>
    cases h
    exact .bool b
  | string s =>
    cases h
    exact .string s
  | float x =>
    rw [ofDocument, ofNumber_float, toDocument?_float, Option.some_inj] at h
    exact h ▸ .float x
  | integer n =>
    rw [ofDocument] at h
    rcases lt_or_ge n.1 (2 ^ 63) with hn | hn
    · cases (toDocument?_ofNumber_of_lt hn).symm.trans h
      exact .long hn
    · obtain ⟨x, hnearest, hx⟩ := exists_ofNumber_of_le hn
      rw [hx, toDocument?_float, Option.some_inj] at h
      exact h ▸ .rounded hn hnearest
  | array ds ih =>
    obtain ⟨ds', hds, rfl⟩ := toDocument?_ofDocument_array.mp h
    exact .array (forall₂_of_forall_mem (fun d hd d' => @ih d hd d') hds)
  | object es ih =>
    obtain ⟨es', ⟨hkeys, hds⟩, rfl⟩ := toDocument?_ofDocument_object.mp h
    exact .object hkeys (forall₂_of_forall_mem (fun d hd d' => @ih d hd d') hds)

lemma ofDocument_eq_of_toDocument? {d d' : Document} (h : (ofDocument d).toDocument? = some d') :
    ofDocument d' = ofDocument d := by
  induction d using Document.induction_children generalizing d' with
  | null | bool b | string s =>
    cases h
    rfl
  | float x =>
    rw [ofDocument, ofNumber_float, toDocument?_float, Option.some_inj] at h
    rw [← h]
  | integer n =>
    rw [ofDocument] at h ⊢
    rcases lt_or_ge n.1 (2 ^ 63) with hn | hn
    · cases (toDocument?_ofNumber_of_lt hn).symm.trans h
      rfl
    · obtain ⟨x, -, hx⟩ := exists_ofNumber_of_le hn
      rw [hx, toDocument?_float, Option.some_inj] at h
      rw [← h, hx, ofDocument, ofNumber_float]
  | array ds ih =>
    obtain ⟨ds', hds, rfl⟩ := toDocument?_ofDocument_array.mp h
    have heq := forall₂_of_forall_mem (fun d hd d' h' => (@ih d hd d' h').symm) hds
    rw [ofDocument_array, ofDocument_array, map_eq_map_of_forall₂ heq]
  | object es ih =>
    obtain ⟨es', ⟨hkeys, hds⟩, rfl⟩ := toDocument?_ofDocument_object.mp h
    have heq := forall₂_of_forall_mem (fun d hd d' h' => (@ih d hd d' h').symm) hds
    have hentries : Keyed.mapValues ofDocument es' = Keyed.mapValues ofDocument es :=
      Keyed.eq_of_keys_of_values (by simp [hkeys]) (by simp [map_eq_map_of_forall₂ heq])
    rw [ofDocument_object, ofDocument_object, hentries]

end Term

open Term (ofDocument ofNumber)

theorem Document.exists_roundsTo [Scalars] [LawfulScalars] (d : Document) :
    (ofDocument d).Writable ∧ (ofDocument d).NaNFree ∧
      (∀ n, Part (number n) d → asInt64? n = none →
        ∃ x, asFloat? n = some x ∧ ofNumber n = .primitive (.float x)) ∧
      ∃ d', (ofDocument d).toDocument? = some d' ∧ d.RoundsTo d' ∧ (d.FitsLong → d' = d) ∧
        (ofDocument d').toDocument? = some d' := by
  have hwritable := Term.writable_ofDocument d
  obtain ⟨d', hd'⟩ := Term.exists_toDocument?_iff.mpr hwritable
  have hround := Term.roundsTo_of_toDocument? hd'
  have hagain : (ofDocument d').toDocument? = some d' := by
    rw [Term.ofDocument_eq_of_toDocument? hd', hd']
  refine ⟨hwritable, hwritable.nanFree, fun n _ hnone => ?_, d', hd', hround, hround.eq_of_fitsLong, hagain⟩
  obtain ⟨x, hx, -, heq⟩ := Term.ofNumber_of_asInt64?_eq_none hnone
  exact ⟨x, hx, heq⟩

section Readings

def readings : Document :=
  .object [("a", .array [.integer ⟨2 ^ 63, by decide⟩, .integer ⟨-2 ^ 63, by decide⟩]),
    ("b", .object [("a", .integer ⟨2 ^ 64 - 1, by decide⟩), ("c", .float ⟨⟨0x8000000000000000⟩, by decide⟩)]),
    ("c", .integer ⟨2 ^ 63 - 1, by decide⟩)]

def roundedReadings : Document :=
  .object [("a", .array [.float ⟨⟨0x43e0000000000000⟩, by decide⟩, .integer ⟨-2 ^ 63, by decide⟩]),
    ("b", .object [("a", .float ⟨⟨0x43f0000000000000⟩, by decide⟩), ("c", .float ⟨⟨0x8000000000000000⟩, by decide⟩)]),
    ("c", .integer ⟨2 ^ 63 - 1, by decide⟩)]

theorem Document.exists_roundsTo_readings :
    (ofDocument readings).toDocument? = some roundedReadings ∧ readings.RoundsTo roundedReadings ∧
      (ofDocument roundedReadings).toDocument? = some roundedReadings := by
  have h : (ofDocument readings).toDocument? = some roundedReadings := rfl
  obtain ⟨-, -, -, d', hd', hround, -, hagain⟩ := exists_roundsTo readings
  cases h.symm.trans hd'
  exact ⟨h, hround, hagain⟩

end Readings

end Unification
