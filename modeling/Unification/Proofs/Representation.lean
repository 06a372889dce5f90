import Unification.Proofs.Writes

namespace Unification.Bindings

variable {s s' : Bindings} {ws : List (Variable × Term)} {v : Variable} {t : Term}

def Shape.ofCount : ℕ → Shape
  | 0 => .empty
  | 1 => .single
  | _ => .several

lemma Shape.ofCount_eq_several_iff {n : ℕ} : ofCount n = .several ↔ 2 ≤ n := by
  match n with
  | 0 | 1 => simp [ofCount]
  | n + 2 => simp [ofCount]

def Canonical (s : Bindings) : Prop := s.shape = .ofCount s.entries.length

lemma length_le_length_put (v : Variable) (t : Term) (es : List (Variable × Term)) :
    es.length ≤ (put v t es).length := by
  induction es with
  | nil => exact Nat.zero_le _
  | cons e es ih =>
    rw [put]
    split
    · exact le_rfl
    · exact Nat.succ_le_succ ih

lemma Canonical.insert (h : s.Canonical) (v : Variable) (t : Term) : (s.insert v t).Canonical := by
  cases s with
  | empty => rfl
  | single w u =>
    rw [Bindings.insert]
    split <;> rfl
  | several es =>
    have hlen : 2 ≤ es.length := Shape.ofCount_eq_several_iff.mp h.symm
    exact (Shape.ofCount_eq_several_iff.mpr (hlen.trans (length_le_length_put v t es))).symm

theorem canonical_ofList (ws : List (Variable × Term)) : (ofList ws).Canonical := by
  induction ws using List.reverseRecOn with
  | nil => rfl
  | append_singleton ws w ih =>
    rw [ofList_concat]
    exact ih.insert w.1 w.2

lemma Canonical.isEmpty_iff (h : s.Canonical) : s.isEmpty = true ↔ s.entries = [] := by
  cases s with
  | empty | single w u => simp [isEmpty, entries]
  | several es =>
    have hlen : 2 ≤ es.length := Shape.ofCount_eq_several_iff.mp h.symm
    have hne : es ≠ [] := List.ne_nil_of_length_pos (by omega)
    simp [isEmpty, entries, hne]

lemma entriesEqual_iff {es fs : List (Variable × Term)} : entriesEqual es fs = true ↔
    List.Forall₂ (fun e f => e.1 = f.1 ∧ e.2.equals f.2 = true) es fs := by
  induction es generalizing fs with
  | nil => cases fs <;> simp [entriesEqual]
  | cons e es ih => cases fs <;> simp [entriesEqual, ih]

lemma equals_eq (s s' : Bindings) :
    s.equals s' = (decide (s.shape = s'.shape) && entriesEqual s.entries s'.entries) := by
  cases s <;> cases s' <;> simp [equals, shape, entries, entriesEqual]

lemma Canonical.equals_iff (h : s.Canonical) (h' : s'.Canonical) : s.equals s' = true ↔
    List.Forall₂ (fun e f => e.1 = f.1 ∧ e.2.equals f.2 = true) s.entries s'.entries := by
  rw [equals_eq, Bool.and_eq_true, decide_eq_true_iff, entriesEqual_iff]
  refine and_iff_right_of_imp fun hes => ?_
  rw [h, h', hes.length_eq]

def FinalWrite (ws : List (Variable × Term)) (v : Variable) (t : Term) : Prop :=
  ∃ earlier later, ws = earlier ++ (v, t) :: later ∧ ∀ w ∈ later, w.1 ≠ v

lemma reverse_lookup_eq_some_iff : ws.reverse.lookup v = some t ↔ FinalWrite ws v t :=
  Keyed.reverse_lookup_eq_some_iff

lemma eq_of_keys_eq_of_subset {es fs : List (Variable × Term)} (hkeys : es.map Prod.fst = fs.map Prod.fst)
    (hnodup : (fs.map Prod.fst).Nodup) (hsub : es ⊆ fs) : es = fs := by
  have hlen : es.length = fs.length := by simpa using congrArg List.length hkeys
  refine List.ext_getElem hlen fun i hi hi' => ?_
  have hkey : es[i].1 = fs[i].1 := by
    have hi : i < (es.map Prod.fst).length := by simpa using hi
    simpa using List.getElem_of_eq hkeys hi
  exact List.inj_on_of_nodup_map hnodup (hsub (List.getElem_mem hi)) (List.getElem_mem hi') hkey

/-- The plain list of some writes: each written variable once, in the order of the first writes and with the
value of its last one. -/
structure Summary (ws es : List (Variable × Term)) : Prop where
  order : es.map Prod.fst = (ws.map Prod.fst).eraseDups
  distinct : (es.map Prod.fst).Nodup
  values : ∀ v t, (v, t) ∈ es ↔ FinalWrite ws v t

lemma Summary.unique {es fs : List (Variable × Term)} (he : Summary ws es) (hf : Summary ws fs) : es = fs :=
  eq_of_keys_eq_of_subset (he.order.trans hf.order.symm) hf.distinct fun e h =>
    (hf.values e.1 e.2).mpr ((he.values e.1 e.2).mp h)

theorem ofList_refines_list (ws : List (Variable × Term)) :
    (∀ es, Summary ws es ↔ es = (ofList ws).entries) ∧
      (∀ v t, (ofList ws).lookup v = some t ↔ FinalWrite ws v t) ∧
      (∀ v, (ofList ws).lookup v = none ↔ v ∉ ws.map Prod.fst) ∧
      (ofList ws).shape = .ofCount (ofList ws).entries.length ∧
      ∀ ws', (ofList ws).equals (ofList ws') = true ↔
        List.Forall₂ (fun e f => e.1 = f.1 ∧ e.2.equals f.2 = true)
          (ofList ws).entries (ofList ws').entries := by
  have hlookup : ∀ v t, (ofList ws).lookup v = some t ↔ FinalWrite ws v t := fun v t => by
    rw [lookup_ofList, reverse_lookup_eq_some_iff]
  have hsummary : Summary ws (ofList ws).entries :=
    ⟨keys_ofList ws, nodup_keys_ofList ws, fun v t =>
      (Keyed.lookup_eq_some_iff (nodup_keys_ofList ws)).symm.trans (hlookup v t)⟩
  refine ⟨fun es => ⟨fun h => h.unique hsummary, fun h => h ▸ hsummary⟩, hlookup, fun v => ?_,
    canonical_ofList ws, fun ws' => (canonical_ofList ws).equals_iff (canonical_ofList ws')⟩
  rw [lookup_ofList, List.lookup_eq_none_iff]
  simp only [List.mem_reverse, bne_iff_ne, List.mem_map, not_exists, not_and]
  exact forall₂_congr fun w hw => ⟨Ne.symm, Ne.symm⟩

end Unification.Bindings
