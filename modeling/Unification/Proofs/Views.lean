import Unification.Proofs.Extraction
import Unification.Proofs.Representation

namespace Unification.Bindings

variable {naming : Variable → String} {s : Bindings} {n : String} {t : Term} {d : Document}
  {es : List (Variable × Term)}

def unhidden (naming : Variable → String) (es : List (Variable × Term)) : List (Variable × Term) :=
  (es.zipIdx.filter fun p => (es.drop (p.2 + 1)).all fun e => naming e.1 ≠ naming p.1.1).map Prod.fst

lemma unhidden_cons (e : Variable × Term) : unhidden naming (e :: es) =
    if ∃ f ∈ es, naming f.1 = naming e.1 then unhidden naming es else e :: unhidden naming es := by
  have htail : ((es.zipIdx 1).filter fun p =>
      ((e :: es).drop (p.2 + 1)).all fun f => naming f.1 ≠ naming p.1.1).map Prod.fst =
        unhidden naming es := by
    rw [List.zipIdx_succ, List.filter_map, List.map_map]
    rfl
  rw [unhidden, List.zipIdx_cons, List.filter_cons]
  split
  · next h => rw [List.map_cons, htail, if_neg (by simpa using h)]
  · next h => rw [htail, if_pos (by simpa using h)]

lemma reported_eq (s : Bindings) :
    s.reported naming = (unhidden naming s.entries).map fun e => (naming e.1, e.2) := by
  rw [reported]
  induction s.entries with
  | nil => rfl
  | cons e es ih =>
    rw [unhidden_cons]
    by_cases h : ∃ f ∈ es, naming f.1 = naming e.1
    · rw [visible_of_hidden h, ih, if_pos h]
    · rw [visible_of_last h, ih, if_neg h, List.map_cons]

lemma mem_reported_iff : (n, t) ∈ s.reported naming ↔ s.get? naming n = some t := by
  rw [← lookup_reported]
  exact (Keyed.lookup_eq_some_iff (nodup_names naming s)).symm

lemma contains_iff : s.contains naming n = true ↔ n ∈ s.names naming := by
  rw [mem_names_iff, contains, Option.isSome_iff_exists]

lemma size_eq_card : s.size naming = (s.entries.map fun e => naming e.1).toFinset.card := by
  have hnames : (s.names naming).toFinset = (s.entries.map fun e => naming e.1).toFinset := by
    ext n
    rw [List.mem_toFinset, List.mem_toFinset, List.mem_map]
    exact mem_keys_visible
  rw [← hnames, List.toFinset_card_of_nodup (nodup_names naming s), names, List.length_map]
  rfl

lemma Canonical.isEmpty_iff_size (h : s.Canonical) : s.isEmpty = true ↔ s.size naming = 0 := by
  rw [h.isEmpty_iff, size_eq_card, Finset.card_eq_zero, List.toFinset_eq_empty_iff, List.map_eq_nil_iff]

lemma exists_mem_toDocument_iff [Scalars] (naming : Variable → String) (s : Bindings) :
    ∃ es, s.toDocument naming = .object es ∧ Keyed.Ordered es ∧
      ∀ n d, (n, d) ∈ es ↔ ∃ t, s.get? naming n = some t ∧ t.toDocument? = some d := by
  obtain ⟨es, heq, hordered, hlookup⟩ := s.exists_toDocument_eq naming
  refine ⟨es, heq, hordered, fun n d => ?_⟩
  rw [← Keyed.lookup_eq_some_iff hordered.nodup_keys, hlookup, Option.bind_eq_some_iff]

/-- Every view by name shows the last entry of each name and nothing else. The document has those of them
that can be written, and an entry that is hidden never takes the place of one that cannot. -/
structure ViewsAgree [Scalars] (naming : Variable → String) (s : Bindings) : Prop where
  reported : ∀ n t, (n, t) ∈ s.reported naming ↔ s.get? naming n = some t
  once : ((s.reported naming).map Prod.fst).Nodup
  last : s.reported naming = (unhidden naming s.entries).map fun e => (naming e.1, e.2)
  names : s.names naming = (s.reported naming).map Prod.fst
  contains : ∀ n, s.contains naming n = true ↔ n ∈ s.names naming
  size : s.size naming = (s.entries.map fun e => naming e.1).toFinset.card
  isEmpty : s.isEmpty = true ↔ s.size naming = 0
  document : ∃ es, s.toDocument naming = .object es ∧ Keyed.Ordered es ∧
    ∀ n d, (n, d) ∈ es ↔ ∃ t, s.get? naming n = some t ∧ t.toDocument? = some d

theorem viewsAgree_ofList [Scalars] (naming : Variable → String) (ws : List (Variable × Term)) :
    (ofList ws).ViewsAgree naming where
  reported _ _ := mem_reported_iff
  once := nodup_names naming (ofList ws)
  last := reported_eq (ofList ws)
  names := rfl
  contains _ := contains_iff
  size := size_eq_card
  isEmpty := (canonical_ofList ws).isEmpty_iff_size
  document := exists_mem_toDocument_iff naming (ofList ws)

section Hidden

def hiddenWrites : List (Variable × Term) :=
  [(⟨0⟩, .primitive .nil), (⟨1⟩, .primitive (.bool true)), (⟨2⟩, .wildcard)]

def hiddenNames : Variable → String := fun v => if v = ⟨1⟩ then "b" else "a"

theorem viewsAgree_ofList_hidden :
    (ofList hiddenWrites).reported hiddenNames = [("b", .primitive (.bool true)), ("a", .wildcard)] ∧
      (ofList hiddenWrites).get? hiddenNames "a" = some .wildcard ∧
      ∃ es, (ofList hiddenWrites).toDocument hiddenNames = .object es ∧ ("b", .bool true) ∈ es ∧
        ∀ d, ("a", d) ∉ es := by
  have hviews := viewsAgree_ofList hiddenNames hiddenWrites
  have hreported : (ofList hiddenWrites).reported hiddenNames =
      [("b", .primitive (.bool true)), ("a", .wildcard)] := rfl
  have hb : (ofList hiddenWrites).get? hiddenNames "b" = some (.primitive (.bool true)) :=
    (hviews.reported _ _).mp (by simp [hreported])
  have ha : (ofList hiddenWrites).get? hiddenNames "a" = some .wildcard :=
    (hviews.reported _ _).mp (by simp [hreported])
  obtain ⟨es, heq, -, hmem⟩ := hviews.document
  refine ⟨hreported, ha, es, heq, (hmem _ _).mpr ⟨_, hb, rfl⟩, fun d hd => ?_⟩
  obtain ⟨t, ht, hdoc⟩ := (hmem _ _).mp hd
  cases ha.symm.trans ht
  cases hdoc

end Hidden

end Unification.Bindings
