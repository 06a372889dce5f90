import Mathlib.Tactic.Common
import Unification.Config
import Unification.Proofs.SortedEntries
import Unification.Term

namespace Unification

lemma forall₂_of_forall_mem {α β : Type _} {R S : α → β → Prop} {xs : List α} {ys : List β}
    (hRS : ∀ x ∈ xs, ∀ y, R x y → S x y) (h : List.Forall₂ R xs ys) : List.Forall₂ S xs ys :=
  ((List.forall₂_and_left xs ys).mpr ⟨hRS, h⟩).imp fun _ y hxy => hxy.1 y hxy.2

lemma eq_map_of_cons {α β : Type _} {f : α → β} {g : List α → List β} (hnil : g [] = [])
    (hcons : ∀ x xs, g (x :: xs) = f x :: g xs) (xs : List α) : g xs = xs.map f := by
  induction xs with
  | nil => exact hnil
  | cons x xs ih => rw [hcons, ih, List.map_cons]

namespace Term

@[elab_as_elim]
theorem induction_children {motive : Term → Prop}
    (primitive : ∀ p, motive (primitive p))
    (sequence : ∀ ts, (∀ t ∈ ts, motive t) → motive (sequence ts))
    (record : ∀ es, (∀ e ∈ es, motive e.2) → motive (record es))
    (callable : ∀ c, motive (callable c)) (var : ∀ v, motive (var v))
    (wildcard : motive wildcard) (t : Term) : motive t := by
  refine @Term.rec motive (fun ts => ∀ t ∈ ts, motive t) (fun es => ∀ e ∈ es, motive e.2)
    (fun e => motive e.2)
    primitive sequence record callable var wildcard ?_ ?_ ?_ ?_ ?_ t
  · simp
  · intro t ts ht hts
    exact List.forall_mem_cons.mpr ⟨ht, hts⟩
  · simp
  · intro e es he hes
    exact List.forall_mem_cons.mpr ⟨he, hes⟩
  · exact fun _ _ ht => ht

mutual

def parts : Term → List Term
  | sequence ts => sequence ts :: partsOfItems ts
  | record es => record es :: partsOfEntries es
  | t => [t]

def partsOfItems : List Term → List Term
  | [] => []
  | t :: ts => parts t ++ partsOfItems ts

def partsOfEntries : List (String × Term) → List Term
  | [] => []
  | (_, t) :: es => parts t ++ partsOfEntries es

end

lemma partsOfItems_eq (ts : List Term) : partsOfItems ts = ts.flatMap parts := by
  induction ts with
  | nil => rfl
  | cons t ts ih => simp [partsOfItems, ih]

lemma partsOfEntries_eq (es : List (String × Term)) :
    partsOfEntries es = es.flatMap fun e => parts e.2 := by
  induction es with
  | nil => rfl
  | cons e es ih => simp [partsOfEntries, ih]

@[simp] lemma parts_primitive (p : Primitive) : (primitive p).parts = [primitive p] := rfl
@[simp] lemma parts_callable (c : Callable) : (callable c).parts = [callable c] := rfl
@[simp] lemma parts_var (v : Variable) : (var v).parts = [var v] := rfl
@[simp] lemma parts_wildcard : wildcard.parts = [wildcard] := rfl

@[simp] lemma parts_sequence (ts : List Term) :
    (sequence ts).parts = sequence ts :: ts.flatMap parts := by
  rw [parts, partsOfItems_eq]

@[simp] lemma parts_record (es : List (String × Term)) :
    (record es).parts = record es :: es.flatMap fun e => parts e.2 := by
  rw [parts, partsOfEntries_eq]

lemma forall_mem_parts_sequence {q : Term → Prop} {ts : List Term} :
    (∀ u ∈ (sequence ts).parts, q u) ↔ q (sequence ts) ∧ ∀ t ∈ ts, ∀ u ∈ t.parts, q u := by
  rw [parts_sequence, List.forall_mem_cons, List.forall_mem_flatMap]

lemma forall_mem_parts_record {q : Term → Prop} {es : List (String × Term)} :
    (∀ u ∈ (record es).parts, q u) ↔ q (record es) ∧ ∀ t ∈ Keyed.values es, ∀ u ∈ t.parts, q u := by
  rw [parts_record, List.forall_mem_cons, List.forall_mem_flatMap, Keyed.values, List.forall_mem_map]

lemma self_mem_parts (t : Term) : t ∈ t.parts := by
  cases t <;> simp

lemma parts_subset {t u : Term} (h : u ∈ t.parts) : u.parts ⊆ t.parts := by
  induction t using induction_children with
  | sequence ts ih =>
    rw [parts_sequence] at h ⊢
    rcases List.mem_cons.mp h with rfl | h
    · simp
    · obtain ⟨t, ht, hu⟩ := List.mem_flatMap.mp h
      exact List.subset_cons_of_subset _ fun w hw =>
        List.mem_flatMap.mpr ⟨t, ht, ih t ht hu hw⟩
  | record es ih =>
    rw [parts_record] at h ⊢
    rcases List.mem_cons.mp h with rfl | h
    · simp
    · obtain ⟨e, he, hu⟩ := List.mem_flatMap.mp h
      exact List.subset_cons_of_subset _ fun w hw =>
        List.mem_flatMap.mpr ⟨e, he, ih e he hu hw⟩
  | primitive p | callable c | var v | wildcard => simp_all

lemma length_parts (t : Term) : t.parts.length = t.size := by
  induction t using induction_children with
  | sequence ts ih =>
    have h : (ts.flatMap parts).length = sizeItems ts := by
      induction ts with
      | nil => rfl
      | cons t ts iht =>
        have ht := ih t List.mem_cons_self
        have hts := iht fun u hu => ih u (List.mem_cons_of_mem _ hu)
        simp only [List.flatMap_cons, List.length_append, sizeItems, ht, hts]
    simp [size, h]
  | record es ih =>
    have h : (es.flatMap fun e => parts e.2).length = sizeEntries es := by
      induction es with
      | nil => rfl
      | cons e es ihe =>
        have he := ih e List.mem_cons_self
        have hes := ihe fun f hf => ih f (List.mem_cons_of_mem _ hf)
        simp only [List.flatMap_cons, List.length_append, sizeEntries, he, hes]
    simp [size, h]
  | primitive p | callable c | var v | wildcard => rfl

def children : Term → List Term
  | sequence ts => ts
  | record es => Keyed.values es
  | _ => []

@[elab_as_elim]
theorem children_induction {motive : Term → Prop}
    (node : ∀ t, (∀ u ∈ t.children, motive u) → motive t) (t : Term) : motive t := by
  induction t using induction_children with
  | sequence ts ih => exact node _ ih
  | record es ih =>
    refine node _ fun u hu => ?_
    obtain ⟨e, he, rfl⟩ := List.mem_map.mp hu
    exact ih e he
  | primitive p | callable c | var v | wildcard => exact node _ (by simp [children])

lemma size_pos (t : Term) : 0 < t.size := by
  cases t <;> simp [size]

lemma sizeEntries_eq (es : List (String × Term)) : sizeEntries es = sizeItems (Keyed.values es) := by
  induction es with
  | nil => rfl
  | cons e es ih =>
    rw [sizeEntries, ih]
    rfl

lemma size_le_sizeItems {ts : List Term} {t : Term} (h : t ∈ ts) : t.size ≤ sizeItems ts := by
  induction ts with
  | nil => cases h
  | cons u ts ih =>
    rcases List.mem_cons.mp h with rfl | h
    · exact Nat.le_add_right _ _
    · exact (ih h).trans (Nat.le_add_left _ _)

lemma size_lt_of_mem_children {t u : Term} (h : u ∈ t.children) : u.size < t.size := by
  cases t with
  | sequence ts => exact Nat.lt_succ_of_le (size_le_sizeItems h)
  | record es =>
    rw [size, sizeEntries_eq]
    exact Nat.lt_succ_of_le (size_le_sizeItems h)
  | _ => cases h

def isNaN : Term → Bool
  | primitive p => p.isNaN
  | _ => false

def hasKey (key : String) : Term → Bool
  | record es => Keyed.contains es key
  | _ => false

def NaNFree (t : Term) : Prop := ∀ u ∈ t.parts, u.isNaN = false

def WildcardFree (t : Term) : Prop := ∀ u ∈ t.parts, u.isWildcard = false

def Omits (key : String) (t : Term) : Prop := ∀ u ∈ t.parts, u.hasKey key = false

instance : DecidablePred NaNFree :=
  fun t => inferInstanceAs (Decidable (∀ u ∈ t.parts, u.isNaN = false))

instance : DecidablePred WildcardFree :=
  fun t => inferInstanceAs (Decidable (∀ u ∈ t.parts, u.isWildcard = false))

instance (key : String) : DecidablePred (Omits key) :=
  fun t => inferInstanceAs (Decidable (∀ u ∈ t.parts, u.hasKey key = false))

def Occurs (v : Variable) (t : Term) : Prop := var v ∈ t.parts

@[simp] lemma occurs_var {v w : Variable} : Occurs v (var w) ↔ v = w := by simp [Occurs]

@[simp] lemma occurs_sequence {v : Variable} {ts : List Term} :
    Occurs v (sequence ts) ↔ ∃ t ∈ ts, Occurs v t := by
  simp [Occurs]

@[simp] lemma occurs_record {v : Variable} {es : List (String × Term)} :
    Occurs v (record es) ↔ ∃ e ∈ es, Occurs v e.2 := by
  simp [Occurs]

lemma occurs_iff {v : Variable} {t : Term} :
    Occurs v t ↔ t = var v ∨ ∃ u ∈ t.children, Occurs v u := by
  cases t with
  | var w => simp [children, eq_comm]
  | sequence ts => simp [children]
  | record es =>
    simp only [occurs_record, children, Keyed.values, reduceCtorEq, false_or]
    constructor
    · rintro ⟨e, he, hv⟩
      exact ⟨e.2, List.mem_map_of_mem he, hv⟩
    · rintro ⟨u, hu, hv⟩
      obtain ⟨e, he, rfl⟩ := List.mem_map.mp hu
      exact ⟨e, he, hv⟩
  | _ => simp [children, Occurs]

structure Hereditary (p : Term → Prop) : Prop where
  item : ∀ {ts t}, p (sequence ts) → t ∈ ts → p t
  entry : ∀ {es e}, p (record es) → e ∈ es → p e.2

lemma Hereditary.child {p : Term → Prop} (hp : Hereditary p) {t u : Term} (ht : p t)
    (hu : u ∈ t.children) : p u := by
  cases t with
  | sequence ts => exact hp.item ht hu
  | record es =>
    obtain ⟨e, he, rfl⟩ := List.mem_map.mp hu
    exact hp.entry ht he
  | _ => cases hu

lemma Hereditary.and {p q : Term → Prop} (hp : Hereditary p) (hq : Hereditary q) :
    Hereditary fun t => p t ∧ q t where
  item h ht := ⟨hp.item h.1 ht, hq.item h.2 ht⟩
  entry h he := ⟨hp.entry h.1 he, hq.entry h.2 he⟩

lemma hereditary_forall_occurs (q : Variable → Prop) : Hereditary fun t => ∀ v, Occurs v t → q v where
  item h ht v hv := h v (occurs_sequence.mpr ⟨_, ht, hv⟩)
  entry h he v hv := h v (occurs_record.mpr ⟨_, he, hv⟩)

lemma hereditary_forall_parts (q : Term → Prop) : Hereditary fun t => ∀ u ∈ t.parts, q u where
  item {ts t} h ht u hu := h u (by
    rw [parts_sequence]
    exact List.mem_cons_of_mem _ (List.mem_flatMap.mpr ⟨t, ht, hu⟩))
  entry {es e} h he u hu := h u (by
    rw [parts_record]
    exact List.mem_cons_of_mem _ (List.mem_flatMap.mpr ⟨e, he, hu⟩))

lemma hereditary_mem_parts (roots : List Term) : Hereditary (· ∈ roots.flatMap parts) where
  item {ts t} h ht := by
    obtain ⟨r, hr, hts⟩ := List.mem_flatMap.mp h
    refine List.mem_flatMap.mpr ⟨r, hr, parts_subset hts ?_⟩
    rw [parts_sequence]
    exact List.mem_cons_of_mem _ (List.mem_flatMap.mpr ⟨t, ht, t.self_mem_parts⟩)
  entry {es e} h he := by
    obtain ⟨r, hr, hes⟩ := List.mem_flatMap.mp h
    refine List.mem_flatMap.mpr ⟨r, hr, parts_subset hes ?_⟩
    rw [parts_record]
    exact List.mem_cons_of_mem _ (List.mem_flatMap.mpr ⟨e, he, e.2.self_mem_parts⟩)

lemma wellFormedItems_iff {ts : List Term} : WellFormedItems ts ↔ ∀ t ∈ ts, t.WellFormed := by
  induction ts with
  | nil => simp [WellFormedItems]
  | cons t ts ih => simp [WellFormedItems, ih]

lemma wellFormedEntries_iff {es : List (String × Term)} :
    WellFormedEntries es ↔ ∀ e ∈ es, e.2.WellFormed := by
  induction es with
  | nil => simp [WellFormedEntries]
  | cons e es ih => simp [WellFormedEntries, ih]

@[simp] lemma wellFormed_sequence {ts : List Term} :
    (sequence ts).WellFormed ↔ ∀ t ∈ ts, t.WellFormed := wellFormedItems_iff

@[simp] lemma wellFormed_record {es : List (String × Term)} :
    (record es).WellFormed ↔ Keyed.Ordered es ∧ ∀ e ∈ es, e.2.WellFormed := by
  rw [← wellFormedEntries_iff]
  rfl

mutual

def decideWellFormed : (t : Term) → Decidable t.WellFormed
  | sequence ts => decideWellFormedItems ts
  | record es => @instDecidableAnd _ _ inferInstance (decideWellFormedEntries es)
  | primitive _ | callable _ | var _ | wildcard => .isTrue trivial

def decideWellFormedItems : (ts : List Term) → Decidable (WellFormedItems ts)
  | [] => .isTrue trivial
  | t :: ts => @instDecidableAnd _ _ (decideWellFormed t) (decideWellFormedItems ts)

def decideWellFormedEntries : (es : List (String × Term)) → Decidable (WellFormedEntries es)
  | [] => .isTrue trivial
  | (_, t) :: es => @instDecidableAnd _ _ (decideWellFormed t) (decideWellFormedEntries es)

end

instance : DecidablePred WellFormed := decideWellFormed

lemma hereditary_wellFormed : Hereditary WellFormed where
  item h ht := wellFormed_sequence.mp h _ ht
  entry h he := (wellFormed_record.mp h).2 _ he

structure Strict (cfg : Config) (t : Term) : Prop where
  wellFormed : t.WellFormed
  wildcardFree : t.WildcardFree
  nanFree : t.NaNFree
  omits : ∀ key, cfg.catchAll = some key → t.Omits key

instance (cfg : Config) : DecidablePred (Strict cfg) := fun t =>
  decidable_of_iff
    (t.WellFormed ∧ t.WildcardFree ∧ t.NaNFree ∧ ∀ key ∈ cfg.catchAll, t.Omits key)
    ⟨fun ⟨hw, hf, hn, ho⟩ => ⟨hw, hf, hn, ho⟩, fun h => ⟨h.wellFormed, h.wildcardFree, h.nanFree, h.omits⟩⟩

lemma hereditary_strict (cfg : Config) : Hereditary (Strict cfg) where
  item h ht := ⟨hereditary_wellFormed.item h.wellFormed ht,
    (hereditary_forall_parts _).item h.wildcardFree ht, (hereditary_forall_parts _).item h.nanFree ht,
    fun key hk => (hereditary_forall_parts _).item (h.omits key hk) ht⟩
  entry h he := ⟨hereditary_wellFormed.entry h.wellFormed he,
    (hereditary_forall_parts _).entry h.wildcardFree he, (hereditary_forall_parts _).entry h.nanFree he,
    fun key hk => (hereditary_forall_parts _).entry (h.omits key hk) he⟩

structure Exact (cfg : Config) (t : Term) : Prop where
  wellFormed : t.WellFormed
  omits : ∀ key, cfg.catchAll = some key → t.Omits key

instance (cfg : Config) : DecidablePred (Exact cfg) := fun t =>
  decidable_of_iff (t.WellFormed ∧ ∀ key ∈ cfg.catchAll, t.Omits key)
    ⟨fun ⟨hw, ho⟩ => ⟨hw, ho⟩, fun h => ⟨h.wellFormed, h.omits⟩⟩

lemma hereditary_exact (cfg : Config) : Hereditary (Exact cfg) where
  item h ht := ⟨hereditary_wellFormed.item h.wellFormed ht,
    fun key hk => (hereditary_forall_parts _).item (h.omits key hk) ht⟩
  entry h he := ⟨hereditary_wellFormed.entry h.wellFormed he,
    fun key hk => (hereditary_forall_parts _).entry (h.omits key hk) he⟩

lemma Exact.contains_eq_false {cfg : Config} {es : List (String × Term)} (h : Exact cfg (record es))
    {key : String} (hk : cfg.catchAll = some key) : Keyed.contains es key = false :=
  h.omits key hk _ (self_mem_parts _)

lemma Strict.exact {cfg : Config} {t : Term} (h : Strict cfg t) : Exact cfg t :=
  ⟨h.wellFormed, h.omits⟩

lemma Strict.contains_eq_false {cfg : Config} {es : List (String × Term)} (h : Strict cfg (record es))
    {key : String} (hk : cfg.catchAll = some key) : Keyed.contains es key = false :=
  h.exact.contains_eq_false hk

lemma isGround_iff {t : Term} : t.isGround = true ↔ ∀ v, ¬ Occurs v t := by
  induction t using induction_children with
  | sequence ts ih =>
    have h : areGround ts = true ↔ ∀ t ∈ ts, t.isGround = true := by
      clear ih
      induction ts with
      | nil => simp [areGround]
      | cons t ts iht => simp [areGround, iht]
    simp only [isGround, h, occurs_sequence, not_exists, not_and]
    exact ⟨fun hg v t ht => (ih t ht).mp (hg t ht) v, fun hg t ht => (ih t ht).mpr fun v => hg v t ht⟩
  | record es ih =>
    have h : entriesAreGround es = true ↔ ∀ e ∈ es, e.2.isGround = true := by
      clear ih
      induction es with
      | nil => simp [entriesAreGround]
      | cons e es ihe => simp [entriesAreGround, ihe]
    simp only [isGround, h, occurs_record, not_exists, not_and]
    exact ⟨fun hg v e he => (ih e he).mp (hg e he) v, fun hg e he => (ih e he).mpr fun v => hg v e he⟩
  | var v => simp [isGround]
  | primitive p | callable c | wildcard => simp [isGround, Occurs]

lemma isVariable_of_isGround {t : Term} (h : t.isGround = true) : t.isVariable = false := by
  cases t with
  | var v => cases h
  | _ => rfl

lemma hereditary_isGround : Hereditary (isGround · = true) where
  item h ht := isGround_iff.mpr ((hereditary_forall_occurs _).item (isGround_iff.mp h) ht)
  entry h he := isGround_iff.mpr ((hereditary_forall_occurs _).entry (isGround_iff.mp h) he)

end Term

end Unification
