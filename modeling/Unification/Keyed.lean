namespace Unification.Keyed

variable {α : Type _}

def Ordered (es : List (String × α)) : Prop := es.Pairwise (·.1 < ·.1)

def keys (es : List (String × α)) : List String := es.map (·.1)

def values (es : List (String × α)) : List α := es.map (·.2)

def contains (es : List (String × α)) (k : String) : Bool := (es.lookup k).isSome

def insert (k : String) (x : α) : List (String × α) → List (String × α)
  | [] => [(k, x)]
  | (l, y) :: es =>
    if k < l then (k, x) :: (l, y) :: es
    else if k = l then (k, x) :: es
    else (l, y) :: insert k x es

def ofList (es : List (String × α)) : List (String × α) :=
  es.foldl (fun r e => insert e.1 e.2 r) []

theorem lookup_cons_eq_ite {κ : Type _} [DecidableEq κ] (k l : κ) (x : α) (es : List (κ × α)) :
    ((k, x) :: es).lookup l = if l = k then some x else es.lookup l := by
  by_cases h : l = k
  · simp [h]
  · simp [List.lookup_cons, h, beq_eq_false_iff_ne.2 h]

theorem lookup_insert (k l : String) (x : α) (es : List (String × α)) :
    (insert k x es).lookup l = if l = k then some x else es.lookup l := by
  induction es with
  | nil => exact lookup_cons_eq_ite k l x []
  | cons e es ih =>
    obtain ⟨m, y⟩ := e
    simp only [insert]
    split
    · exact lookup_cons_eq_ite k l x _
    · split
      · next hkm =>
        subst hkm
        simp only [lookup_cons_eq_ite]
        split <;> rfl
      · next hkm =>
        simp only [lookup_cons_eq_ite, ih]
        by_cases hlm : l = m
        · simp [hlm, Ne.symm hkm]
        · simp [hlm]

theorem mem_insert {k : String} {x : α} {e : String × α} {es : List (String × α)}
    (h : e ∈ insert k x es) : e = (k, x) ∨ e ∈ es := by
  induction es with
  | nil => simpa [insert] using h
  | cons f es ih =>
    obtain ⟨l, y⟩ := f
    simp only [insert] at h
    split at h
    · simpa using h
    · split at h
      · rcases List.mem_cons.1 h with h | h
        · exact .inl h
        · exact .inr (List.mem_cons_of_mem _ h)
      · rcases List.mem_cons.1 h with h | h
        · exact .inr (h ▸ List.mem_cons_self)
        · exact (ih h).imp id (List.mem_cons_of_mem _)

theorem ordered_insert (k : String) (x : α) {es : List (String × α)} (h : Ordered es) :
    Ordered (insert k x es) := by
  induction es with
  | nil => exact List.pairwise_singleton _ _
  | cons e es ih =>
    obtain ⟨l, y⟩ := e
    obtain ⟨hl, hes⟩ := List.pairwise_cons.1 h
    simp only [insert]
    split
    · next hkl =>
      refine List.pairwise_cons.2 ⟨fun f hf => ?_, h⟩
      rcases List.mem_cons.1 hf with rfl | hf
      · exact hkl
      · exact String.lt_trans hkl (hl f hf)
    · next hkl =>
      split
      · next heq => exact List.pairwise_cons.2 ⟨fun f hf => heq ▸ hl f hf, hes⟩
      · next hne =>
        refine List.pairwise_cons.2 ⟨fun f hf => ?_, ih hes⟩
        rcases mem_insert hf with rfl | hf
        · exact Std.lt_of_le_of_ne (String.not_lt.1 hkl) (Ne.symm hne)
        · exact hl f hf

theorem ordered_ofList (es : List (String × α)) : Ordered (ofList es) := by
  suffices h : ∀ r : List (String × α), Ordered r → Ordered (es.foldl (fun r e => insert e.1 e.2 r) r) from
    h [] List.Pairwise.nil
  induction es with
  | nil => exact fun r hr => hr
  | cons e es ih => exact fun r hr => ih _ (ordered_insert e.1 e.2 hr)

end Unification.Keyed
