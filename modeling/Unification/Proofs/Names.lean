import Unification.Bindings
import Unification.Proofs.SortedEntries

namespace Unification.Bindings

variable {naming : Variable → String} {n : String} {v : Variable} {t : Term}
  {es : List (Variable × Term)}

lemma visible_of_hidden (h : ∃ e ∈ es, naming e.1 = naming v) :
    visible naming ((v, t) :: es) = visible naming es :=
  if_pos (by simpa using h)

lemma visible_of_last (h : ¬ ∃ e ∈ es, naming e.1 = naming v) :
    visible naming ((v, t) :: es) = (naming v, t) :: visible naming es :=
  if_neg (by simpa using h)

lemma mem_keys_visible : n ∈ Keyed.keys (visible naming es) ↔ ∃ e ∈ es, naming e.1 = n := by
  induction es with
  | nil => simp [visible, Keyed.keys]
  | cons e es ih =>
    obtain ⟨v, t⟩ := e
    by_cases h : ∃ e ∈ es, naming e.1 = naming v
    · obtain ⟨e, he, hv⟩ := h
      rw [visible_of_hidden ⟨e, he, hv⟩, ih, List.exists_mem_cons_iff]
      exact ⟨.inr, fun h => h.elim (fun hn => ⟨e, he, hv.trans hn⟩) id⟩
    · rw [visible_of_last h, List.exists_mem_cons_iff, ← ih]
      simp [Keyed.keys, eq_comm]

lemma nodup_keys_visible (es : List (Variable × Term)) : (Keyed.keys (visible naming es)).Nodup := by
  induction es with
  | nil => exact List.nodup_nil
  | cons e es ih =>
    obtain ⟨v, t⟩ := e
    by_cases h : ∃ e ∈ es, naming e.1 = naming v
    · rwa [visible_of_hidden h]
    · rw [visible_of_last h]
      exact List.nodup_cons.mpr ⟨fun hv => h (mem_keys_visible.mp hv), ih⟩

lemma lookup_visible_cons : (visible naming ((v, t) :: es)).lookup n =
    ((visible naming es).lookup n).or (if naming v = n then some t else none) := by
  by_cases hn : naming v = n
  · subst hn
    by_cases h : ∃ e ∈ es, naming e.1 = naming v
    · have hsome := Keyed.contains_iff.mpr (mem_keys_visible.mpr h)
      rw [visible_of_hidden h, Option.or_of_isSome hsome]
    · have hnone := Keyed.lookup_eq_none.mpr (mt mem_keys_visible.mp h)
      rw [visible_of_last h, Keyed.lookup_cons_eq_ite, hnone]
      simp
  · by_cases h : ∃ e ∈ es, naming e.1 = naming v
    · simp [visible_of_hidden h, hn]
    · simp [visible_of_last h, Keyed.lookup_cons_eq_ite, hn, Ne.symm hn]

lemma lookup_visible (es : List (Variable × Term)) :
    (visible naming es).lookup n = (es.reverse.find? fun e => naming e.1 == n).map (·.2) := by
  induction es with
  | nil => rfl
  | cons e es ih =>
    rw [lookup_visible_cons, ih, List.reverse_cons, List.find?_append]
    by_cases hn : naming e.1 = n <;> cases es.reverse.find? fun e => naming e.1 == n <;> simp [hn]

variable (naming) (s : Bindings)

lemma lookup_reported (n : String) : (s.reported naming).lookup n = s.get? naming n :=
  lookup_visible s.entries

lemma nodup_names : (s.names naming).Nodup := nodup_keys_visible s.entries

lemma mem_names_iff {n : String} : n ∈ s.names naming ↔ ∃ t, s.get? naming n = some t := by
  rw [← Option.isSome_iff_exists, ← lookup_reported]
  exact Keyed.contains_iff.symm

lemma exists_mem_of_get {n : String} {t : Term} (h : s.get? naming n = some t) :
    ∃ v, (v, t) ∈ s.entries ∧ naming v = n := by
  obtain ⟨⟨v, u⟩, hfind, rfl⟩ := Option.map_eq_some_iff.mp h
  have hn := List.find?_some hfind
  exact ⟨v, List.mem_reverse.mp (List.mem_of_find?_eq_some hfind), beq_iff_eq.mp hn⟩

end Unification.Bindings
