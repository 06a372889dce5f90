import Unification.Constraint
import Unification.Proofs.Parts

namespace Unification

lemma Binary64.equals_trans {x y z : Binary64} (hxy : x.equals y = true) (hyz : y.equals z = true) :
    x.equals z = true := by
  simp only [equals, Bool.and_eq_true, Bool.or_eq_true, Bool.not_eq_true', beq_iff_eq] at *
  obtain ⟨⟨hx, -⟩, hxy⟩ := hxy
  obtain ⟨⟨-, hz⟩, hyz⟩ := hyz
  refine ⟨⟨hx, hz⟩, ?_⟩
  have hzero {u w : Binary64} (h : u.bits = w.bits) : u.isZero = w.isZero := by
    rw [isZero, isZero, magnitude, magnitude, h]
  rcases hxy with hxy | ⟨hx0, hy0⟩
  · rcases hyz with hyz | ⟨hy0, hz0⟩
    · exact .inl (hxy.trans hyz)
    · exact .inr ⟨hzero hxy ▸ hy0, hz0⟩
  · rcases hyz with hyz | ⟨-, hz0⟩
    · exact .inr ⟨hx0, hzero hyz ▸ hy0⟩
    · exact .inr ⟨hx0, hz0⟩

namespace Primitive

lemma equals_comm (p q : Primitive) : p.equals q = q.equals p := by
  cases p <;> cases q <;> simp only [equals, Binary64.equals_comm, Bool.beq_comm]

lemma equals_trans {p q r : Primitive} (hpq : p.equals q = true) (hqr : q.equals r = true) :
    p.equals r = true := by
  cases p <;> cases q <;> simp only [equals, Bool.false_eq_true, beq_iff_eq] at hpq <;>
    cases r <;> simp only [equals, Bool.false_eq_true, beq_iff_eq] at hqr ⊢
  case float.float.float => exact Binary64.equals_trans hpq hqr
  all_goals exact hpq.trans hqr

end Primitive

namespace Term

lemma itemsEqual_iff {xs ys : List Term} :
    itemsEqual xs ys = true ↔ List.Forall₂ (fun x y => x.equals y = true) xs ys := by
  induction xs generalizing ys with
  | nil => cases ys <;> simp [itemsEqual]
  | cons x xs ih => cases ys <;> simp [itemsEqual, ih]

lemma entriesEqual_iff {es fs : List (String × Term)} :
    entriesEqual es fs = true ↔ Keyed.keys es = Keyed.keys fs ∧
      List.Forall₂ (fun x y => x.equals y = true) (Keyed.values es) (Keyed.values fs) := by
  rw [← Keyed.forall₂_iff]
  induction es generalizing fs with
  | nil => cases fs <;> simp [entriesEqual]
  | cons e es ih => cases fs <;> simp [entriesEqual, ih]

@[simp] lemma equals_sequence {xs ys : List Term} : (sequence xs).equals (sequence ys) = true ↔
    List.Forall₂ (fun x y => x.equals y = true) xs ys := itemsEqual_iff

@[simp] lemma equals_record {es fs : List (String × Term)} :
    (record es).equals (record fs) = true ↔ Keyed.keys es = Keyed.keys fs ∧
      List.Forall₂ (fun x y => x.equals y = true) (Keyed.values es) (Keyed.values fs) :=
  entriesEqual_iff

lemma mem_values {es : List (String × Term)} {t : Term} :
    t ∈ Keyed.values es ↔ ∃ e ∈ es, e.2 = t := by
  simp [Keyed.values]

lemma equals_refl {t : Term} (ht : t.NaNFree) : t.equals t = true := by
  induction t using induction_children with
  | sequence ts ih =>
    rw [equals_sequence, List.forall₂_same]
    exact fun t hmem => ih t hmem ((hereditary_forall_parts _).item ht hmem)
  | record es ih =>
    rw [equals_record, List.forall₂_same]
    refine ⟨rfl, fun t hmem => ?_⟩
    obtain ⟨e, he, rfl⟩ := mem_values.mp hmem
    exact ih e he ((hereditary_forall_parts _).entry ht he)
  | primitive p =>
    have hp : p.isNaN = false := ht _ (self_mem_parts _)
    simp [equals, Primitive.equals_self, hp]
  | callable c | var v => simp [equals]
  | wildcard => rfl

lemma equals_symm {x y : Term} (h : x.equals y = true) : y.equals x = true := by
  induction x using induction_children generalizing y with
  | sequence xs ih =>
    cases y with
    | sequence ys =>
      rw [equals_sequence] at h ⊢
      exact (forall₂_of_forall_mem (fun x hx y => @ih x hx y) h).flip
    | _ => simp [equals] at h
  | record es ih =>
    cases y with
    | record fs =>
      rw [equals_record] at h ⊢
      have hes : ∀ x ∈ Keyed.values es, ∀ y, x.equals y = true → y.equals x = true := by
        intro x hx
        obtain ⟨e, he, rfl⟩ := mem_values.mp hx
        exact fun y => @ih e he y
      exact ⟨h.1.symm, (forall₂_of_forall_mem hes h.2).flip⟩
    | _ => simp [equals] at h
  | primitive p =>
    cases y with
    | primitive q =>
      rw [equals] at h ⊢
      exact Primitive.equals_comm p q ▸ h
    | _ => simp [equals] at h
  | callable c | var v | wildcard => cases y <;> simp_all [equals]

lemma sizeItems_eq_of_forall₂ {xs ys : List Term} (h : List.Forall₂ (fun x y => x.size = y.size) xs ys) :
    sizeItems xs = sizeItems ys := by
  induction h with
  | nil => rfl
  | cons hh _ ih => rw [sizeItems, sizeItems, hh, ih]

lemma size_eq_of_equals {x y : Term} (h : x.equals y = true) : x.size = y.size := by
  induction x using induction_children generalizing y with
  | sequence xs ih =>
    cases y with
    | sequence ys =>
      have hxy := forall₂_of_forall_mem (fun x hx y => @ih x hx y) (equals_sequence.mp h)
      exact congrArg (· + 1) (sizeItems_eq_of_forall₂ hxy)
    | _ => simp [equals] at h
  | record es ih =>
    cases y with
    | record fs =>
      have hes : ∀ x ∈ Keyed.values es, ∀ y, x.equals y = true → x.size = y.size := by
        intro x hx
        obtain ⟨e, he, rfl⟩ := mem_values.mp hx
        exact fun y => @ih e he y
      have hxy := forall₂_of_forall_mem hes (equals_record.mp h).2
      rw [size, size, sizeEntries_eq, sizeEntries_eq, sizeItems_eq_of_forall₂ hxy]
    | _ => simp [equals] at h
  | primitive p | callable c | var v | wildcard => cases y <;> simp_all [equals, size]

lemma forall₂_equals_trans {xs ys zs : List Term}
    (ih : ∀ x ∈ xs, ∀ y z, x.equals y = true → y.equals z = true → x.equals z = true)
    (hxy : List.Forall₂ (fun x y => x.equals y = true) xs ys)
    (hyz : List.Forall₂ (fun y z => y.equals z = true) ys zs) :
    List.Forall₂ (fun x z => x.equals z = true) xs zs := by
  induction hxy generalizing zs with
  | nil => exact hyz
  | cons hh _ iht =>
    cases hyz with
    | cons hh' ht' =>
      exact .cons (ih _ List.mem_cons_self _ _ hh hh')
        (iht (fun x hx => ih x (List.mem_cons_of_mem _ hx)) ht')

lemma equals_trans {x y z : Term} (hxy : x.equals y = true) (hyz : y.equals z = true) :
    x.equals z = true := by
  induction x using induction_children generalizing y z with
  | sequence xs ih =>
    cases y with
    | sequence ys =>
      cases z with
      | sequence zs =>
        rw [equals_sequence] at hxy hyz ⊢
        exact forall₂_equals_trans (fun x hx y z => @ih x hx y z) hxy hyz
      | _ => simp [equals] at hyz
    | _ => simp [equals] at hxy
  | record es ih =>
    cases y with
    | record fs =>
      cases z with
      | record gs =>
        rw [equals_record] at hxy hyz ⊢
        refine ⟨hxy.1.trans hyz.1, forall₂_equals_trans (fun x hx y z => ?_) hxy.2 hyz.2⟩
        obtain ⟨e, he, rfl⟩ := mem_values.mp hx
        exact @ih e he y z
      | _ => simp [equals] at hyz
    | _ => simp [equals] at hxy
  | primitive p =>
    cases y with
    | primitive q =>
      cases z with
      | primitive r => exact Primitive.equals_trans hxy hyz
      | _ => simp [equals] at hyz
    | _ => simp [equals] at hxy
  | callable c | var v | wildcard => cases y <;> cases z <;> simp_all [equals]

end Term

lemma TypeDescriptor.of_eq_of_equals {x y : Term} (h : x.equals y = true) :
    TypeDescriptor.of x = TypeDescriptor.of y := by
  cases x with
  | primitive p =>
    cases y with
    | primitive q => cases p <;> cases q <;> simp_all [Term.equals, Primitive.equals, of]
    | _ => cases h
  | _ => cases y <;> simp_all [Term.equals, of]

end Unification
