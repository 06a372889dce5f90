import Unification.Proofs.GroundMatching

/-! A record with the wildcard under the catch-all key against a record without that key. -/

namespace Unification

open Keyed

variable {req : Requirements} {cfg : Config} {es fs ls rs ls' rs' : List (String × Term)} {key : String}
  {x : Term} {tr tr' : Trail} {P : Prop}

namespace Goal

lemma shared_insert_left (h : key ∉ keys fs) : shared (insert key x es) fs = shared es fs := by
  have hnone : fs.lookup key = none := lookup_eq_none.mpr h
  induction es with
  | nil => simp [Keyed.insert, shared, hnone]
  | cons e es ih =>
    obtain ⟨l, y⟩ := e
    rw [Keyed.insert]
    split
    · simp [shared, hnone]
    · split
      · next heq => simp [shared, ← heq, hnone]
      · simp only [shared, List.filterMap_cons] at ih ⊢
        rw [ih]

lemma shared_insert_right (h : key ∉ keys es) : shared es (insert key x fs) = shared es fs := by
  refine List.filterMap_congr fun e he => ?_
  have hne : e.1 ≠ key := fun heq => h (heq ▸ List.mem_map_of_mem he)
  dsimp only
  rw [lookup_insert, if_neg hne]

lemma shared_common_right (hf : Ordered fs) : shared es (common fs es) = shared es fs := by
  refine List.filterMap_congr fun e he => ?_
  dsimp only
  rw [lookup_common hf (List.mem_map_of_mem he)]

lemma shared_common_left (es fs : List (String × Term)) : shared (common es fs) fs = shared es fs := by
  rw [shared, common, List.filterMap_filter]
  refine List.filterMap_congr fun e _ => ?_
  cases hl : fs.lookup e.1 <;> simp [contains, hl]

lemma absorbs_insert_iff (hes : key ∉ keys es) (hfs : key ∉ keys fs) :
    Absorbs key (insert key x es) fs ↔ keys es ⊆ keys fs ∧ ∃ k ∈ keys fs, k ∉ keys es := by
  have hkey : key ∈ keys (insert key x es) := mem_keys_insert.mpr (.inl rfl)
  constructor
  · intro h
    refine ⟨fun k hk => ?_, ?_⟩
    · by_contra hno
      apply hfs
      exact (fallsTo_of_absorbs h).rest k (mem_keys_insert.mpr (.inr hk)) (fun heq => hes (heq ▸ hk)) hno
    · obtain ⟨k, hk, hno⟩ := (fallsTo_of_absorbs h.symm).busy hkey hfs
      exact ⟨k, hk, fun hmem => hno (mem_keys_insert.mpr (.inr hmem))⟩
  · rintro ⟨hsub, k, hk, hno⟩
    apply absorbs_of_fallsTo (.inl hkey)
    · refine ⟨fun l hl hne hfree => ?_, fun hmem => absurd hmem hfs⟩
      exact absurd (hsub ((mem_keys_insert.mp hl).resolve_left hne)) hfree
    · refine ⟨fun _ _ _ _ => hkey, fun _ _ => ⟨k, hk, fun hmem => ?_⟩⟩
      rcases mem_keys_insert.mp hmem with rfl | hmem
      · exact hfs hk
      · exact hno hmem

lemma passes_of_mem_absorbed_wildcard {rest : Option Term} {extras : List Term} {g : Goal}
    (hrest : ∀ t ∈ rest, t.isWildcard = true) (hg : g ∈ absorbed rest extras) : g.Passes cfg := by
  cases rest with
  | none => cases hg
  | some t =>
    obtain ⟨y, -, rfl⟩ := List.mem_map.mp hg
    exact passes_of_isWildcard (.inl (hrest t rfl))

end Goal

open Goal (Absorbs shared extra absorbed ofRecords)

lemma reaches_append_passes_iff {gs hs : List Goal} (h : ∀ g ∈ hs, g.Passes cfg) :
    Reaches req cfg ⟨gs ++ hs, tr⟩ ⟨[], tr'⟩ ↔ Reaches req cfg ⟨gs, tr⟩ ⟨[], tr'⟩ := by
  rw [← ends_done_iff, ← ends_done_iff, Goal.ends_append_passes_iff h]

lemma reaches_records_iff (hc : cfg.catchAll = some key) (hkey : key ∈ keys ls ∨ key ∈ keys rs)
    (hl : ∀ t ∈ ls.lookup key, t.isWildcard = true) (hr : ∀ t ∈ rs.lookup key, t.isWildcard = true)
    (habs : Absorbs key ls rs ↔ P) (hshared : P → ofRecords cfg ls' rs' = shared ls rs) :
    Reaches req cfg ⟨[.unify (.record ls) (.record rs)], tr⟩ ⟨[], tr'⟩ ↔
      P ∧ Reaches req cfg ⟨[.unify (.record ls') (.record rs')], tr⟩ ⟨[], tr'⟩ := by
  have hgoals (hP : P) : Reaches req cfg ⟨ofRecords cfg ls rs, tr⟩ ⟨[], tr'⟩ ↔
      Reaches req cfg ⟨ofRecords cfg ls' rs', tr⟩ ⟨[], tr'⟩ := by
    rw [hshared hP, Goal.ofRecords_of_absorbs hc hkey (habs.mpr hP)]
    refine reaches_append_passes_iff fun g hg => ?_
    rcases List.mem_append.mp hg with hg | hg
    · exact Goal.passes_of_mem_absorbed_wildcard hr hg
    · exact Goal.passes_of_mem_absorbed_wildcard hl hg
  rw [reaches_iff_of_reduces (.compare (.records ls rs)),
    reaches_iff_of_reduces (.compare (.records ls' rs'))]
  refine ⟨fun h => ?_, fun ⟨hP, h⟩ => (hgoals hP).mpr h⟩
  have hclash := not_clash_of_reaches h
  rw [← contains_iff, ← contains_iff] at hkey
  rw [Goal.ofRecords_of_key hc hkey] at hclash
  have hP : P := habs.mp (Goal.absorbs_of_ofOpenRecords hkey hclash)
  exact ⟨hP, (hgoals hP).mp h⟩

section Open

variable (hc : cfg.catchAll = some key) (he : Ordered es) (hf : Ordered fs) (hes : key ∉ keys es)
  (hfs : key ∉ keys fs)

include hc he hf hes hfs

lemma reaches_open_left_iff :
    Reaches req cfg ⟨[.unify (.record (insert key .wildcard es)) (.record fs)], tr⟩ ⟨[], tr'⟩ ↔
      (keys es ⊆ keys fs ∧ ∃ k ∈ keys fs, k ∉ keys es) ∧
        Reaches req cfg ⟨[.unify (.record es) (.record (common fs es))], tr⟩ ⟨[], tr'⟩ := by
  refine reaches_records_iff hc (.inl (mem_keys_insert.mpr (.inl rfl))) ?_ ?_
    (Goal.absorbs_insert_iff hes hfs) fun hP => ?_
  · simp [lookup_insert, Term.isWildcard]
  · simp [lookup_eq_none.mpr hfs]
  · rw [Goal.ofRecords_of_keys cfg (keys_common_of_subset he hf hP.1).symm,
      Goal.shared_common_right hf, Goal.shared_insert_left hfs]

lemma reaches_open_right_iff :
    Reaches req cfg ⟨[.unify (.record fs) (.record (insert key .wildcard es))], tr⟩ ⟨[], tr'⟩ ↔
      (keys es ⊆ keys fs ∧ ∃ k ∈ keys fs, k ∉ keys es) ∧
        Reaches req cfg ⟨[.unify (.record (common fs es)) (.record es)], tr⟩ ⟨[], tr'⟩ := by
  have hturn : Absorbs key fs (insert key .wildcard es) ↔ Absorbs key (insert key .wildcard es) fs :=
    ⟨Absorbs.symm, Absorbs.symm⟩
  refine reaches_records_iff hc (.inr (mem_keys_insert.mpr (.inl rfl))) ?_ ?_
    (hturn.trans (Goal.absorbs_insert_iff hes hfs)) fun hP => ?_
  · simp [lookup_eq_none.mpr hfs]
  · simp [lookup_insert, Term.isWildcard]
  · rw [Goal.ofRecords_of_keys cfg (keys_common_of_subset he hf hP.1), Goal.shared_common_left,
      Goal.shared_insert_right hfs]

theorem unify_open_record_iff (req : Requirements) (s : Bindings) :
    (unify req cfg (.record (insert key .wildcard es)) (.record fs) = .unified s ↔
      keys es ⊆ keys fs ∧ (∃ k ∈ keys fs, k ∉ keys es) ∧
        unify req cfg (.record es) (.record (common fs es)) = .unified s) ∧
    (unify req cfg (.record fs) (.record (insert key .wildcard es)) = .unified s ↔
      keys es ⊆ keys fs ∧ (∃ k ∈ keys fs, k ∉ keys es) ∧
        unify req cfg (.record (common fs es)) (.record es) = .unified s) := by
  constructor
  · simp only [unify_eq_unified_iff, reaches_open_left_iff hc he hf hes hfs, and_assoc, exists_and_left]
  · simp only [unify_eq_unified_iff, reaches_open_right_iff hc he hf hes hfs, and_assoc, exists_and_left]

end Open

section Order

open Term (sequence record var primitive wildcard)

def orderPattern : List (String × Term) :=
  [("buyer", var ⟨0⟩), ("item", record [("_", wildcard), ("name", var ⟨1⟩)]), ("ship", var ⟨0⟩)]

def order : List (String × Term) :=
  [("buyer", sequence [primitive (.string "Ada"), var ⟨2⟩]),
    ("item", record [("name", primitive (.string "pen")), ("price", var ⟨3⟩)]), ("note", var ⟨4⟩),
    ("ship", sequence [primitive (.string "Ada"), primitive .nil])]

def orderBindings : Bindings :=
  .several [(⟨0⟩, sequence [primitive (.string "Ada"), var ⟨2⟩]), (⟨1⟩, primitive (.string "pen")),
    (⟨2⟩, primitive .nil)]

theorem unify_open_record_iff_order :
    Config.standard.catchAll = some "_" ∧ Ordered orderPattern ∧ Ordered order ∧
      "_" ∉ keys orderPattern ∧ "_" ∉ keys order ∧
      unify (fun _ => none) .standard (record orderPattern) (record (common order orderPattern)) =
        .unified orderBindings ∧
      unify (fun _ => none) .standard (record (insert "_" wildcard orderPattern)) (record order) =
        .unified orderBindings ∧
      unify (fun _ => none) .standard (record order) (record (insert "_" wildcard orderPattern)) =
        .unified orderBindings ∧
      (unify (fun _ => none) .standard (record (insert "_" wildcard orderPattern))
        (record (common order orderPattern))) ≠ .unified orderBindings := by
  have he : Ordered orderPattern := by decide
  have hf : Ordered order := by decide
  have hes : "_" ∉ keys orderPattern := by decide
  have hfs : "_" ∉ keys order := by decide
  have hmore : keys orderPattern ⊆ keys order ∧ ∃ k ∈ keys order, k ∉ keys orderPattern := by decide
  obtain ⟨hleft, hright⟩ := unify_open_record_iff rfl he hf hes hfs (fun _ => none) orderBindings
  have hnone : "_" ∉ keys (common order orderPattern) := by decide
  obtain ⟨hidle, -⟩ := unify_open_record_iff rfl he (ordered_common hf) hes hnone (fun _ => none)
    orderBindings
  refine ⟨rfl, he, hf, hes, hfs, rfl, hleft.mpr ⟨hmore.1, hmore.2, rfl⟩,
    hright.mpr ⟨hmore.1, hmore.2, rfl⟩, fun h => ?_⟩
  obtain ⟨-, ⟨k, hk, hno⟩, -⟩ := hidle.mp h
  rw [keys_common_of_subset he hf hmore.1] at hk
  exact hno hk

end Order

end Unification
