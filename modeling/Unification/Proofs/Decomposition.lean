import Unification.Proofs.Reduction

namespace Unification.Goal

open Keyed

def isClash : Goal → Bool
  | clash _ => true
  | _ => false

def mapTerms (f : Term → Term) : Goal → Goal
  | unify a b => unify (f a) (f b)
  | bind v t => bind v (f t)
  | clash why => clash why

lemma mem_zipWith_unify {xs ys : List Term} {g : Goal} (h : g ∈ List.zipWith unify xs ys) :
    ∃ x ∈ xs, ∃ y ∈ ys, g = unify x y := by
  rw [← List.map_uncurry_zip_eq_zipWith] at h
  obtain ⟨⟨x, y⟩, hxy, rfl⟩ := List.mem_map.mp h
  exact ⟨x, (List.of_mem_zip hxy).1, y, (List.of_mem_zip hxy).2, rfl⟩

lemma forall_mem_zipWith_unify {R : Term → Term → Prop} {xs ys : List Term}
    (hlen : xs.length = ys.length) (h : ∀ x y, unify x y ∈ List.zipWith unify xs ys → R x y) :
    List.Forall₂ R xs ys := by
  refine List.forall₂_iff_zip.mpr ⟨hlen, fun {x y} hxy => h x y ?_⟩
  rw [← List.map_uncurry_zip_eq_zipWith]
  exact List.mem_map.mpr ⟨(x, y), hxy, rfl⟩

lemma mem_zipWith_unify_of_forall {R : Term → Term → Prop} {xs ys : List Term} {g : Goal}
    (h : List.Forall₂ R xs ys) (hg : g ∈ List.zipWith unify xs ys) :
    ∃ x ∈ xs, ∃ y ∈ ys, R x y ∧ g = unify x y := by
  rw [← List.map_uncurry_zip_eq_zipWith] at hg
  obtain ⟨⟨x, y⟩, hxy, rfl⟩ := List.mem_map.mp hg
  exact ⟨x, (List.of_mem_zip hxy).1, y, (List.of_mem_zip hxy).2, (List.forall₂_iff_zip.mp h).2 hxy, rfl⟩

lemma ofSequences_eq_zip {xs ys : List Term} (h : ∀ g ∈ ofSequences xs ys, g.isClash = false) :
    xs.length = ys.length ∧ ofSequences xs ys = List.zipWith unify xs ys := by
  rw [ofSequences] at h ⊢
  split
  · next hlen => exact ⟨hlen, rfl⟩
  · next hlen =>
    rw [if_neg hlen] at h
    cases h _ (List.mem_singleton.mpr rfl)

variable {es fs : List (String × Term)}

lemma ofClosedRecords_eq_zip (he : Ordered es) (hf : Ordered fs)
    (h : ∀ g ∈ ofClosedRecords es fs, g.isClash = false) :
    keys es = keys fs ∧ ofClosedRecords es fs = List.zipWith unify (values es) (values fs) := by
  rw [ofClosedRecords] at h ⊢
  dsimp only at h ⊢
  split
  · next hlen =>
    rw [if_pos hlen] at h
    have hkeys : keys es = keys fs := by
      refine keys_eq_of_subset he hf hlen fun k hk => ?_
      obtain ⟨x, hx⟩ := mem_keys.mp hk
      by_contra hk
      cases (lookup_eq_none.mpr hk) ▸ h _ (List.mem_map.mpr ⟨(k, x), hx, rfl⟩)
    exact ⟨hkeys, map_lookup (fun x y => (y.map (unify x)).getD _) hf (List.Subset.refl fs) hkeys⟩
  · next hlen =>
    rw [if_neg hlen] at h
    cases h _ (List.mem_singleton.mpr rfl)

lemma ofClosedRecords_of_keys (hf : Ordered fs) (h : keys es = keys fs) :
    ofClosedRecords es fs = List.zipWith unify (values es) (values fs) := by
  rw [ofClosedRecords]
  dsimp only
  rw [if_pos (length_eq_of_keys_eq h)]
  exact map_lookup (fun x y => (y.map (unify x)).getD _) hf (List.Subset.refl fs) h

lemma shared_eq_zip (he : Ordered es) (hf : Ordered fs) :
    shared es fs = List.zipWith unify (values (common es fs)) (values (common fs es)) := by
  have hsub : common fs es ⊆ fs := List.filter_sublist.subset
  have hmap := map_lookup (fun x y => (y.map (unify x)).getD (unify x x)) hf hsub (keys_common he hf)
  refine Eq.trans ?_ hmap
  clear hmap hsub
  rw [shared, common]
  induction es with
  | nil => rfl
  | cons e es ih =>
    have he' := ih (List.pairwise_cons.mp he).2
    rw [List.filterMap_cons, List.filter_cons]
    cases hl : fs.lookup e.1 with
    | none => simpa [contains, hl] using he'
    | some y => simpa [contains, hl] using he'

def absorbed (rest : Option Term) (extras : List Term) : List Goal :=
  match rest with
  | some t => extras.map (unify t)
  | none => []

/-- Each record absorbs what only the other has, and no catch-all entry is idle. -/
structure Absorbs (key : String) (es fs : List (String × Term)) : Prop where
  left : fs.lookup key = none → extra key es fs = []
  right : es.lookup key = none → extra key fs es = []
  left_busy : fs.lookup key = none → extra key fs es ≠ []
  right_busy : es.lookup key = none → extra key es fs ≠ []

lemma Absorbs.symm {key : String} (h : Absorbs key es fs) : Absorbs key fs es :=
  ⟨h.right, h.left, h.right_busy, h.left_busy⟩

lemma ofOpenRecords_of_absorbs {key : String} (h : Absorbs key es fs) :
    ofOpenRecords key es fs = shared es fs ++ (absorbed (fs.lookup key) (extra key es fs) ++
      absorbed (es.lookup key) (extra key fs es)) := by
  simp only [ofOpenRecords]
  cases hl : es.lookup key with
  | none =>
    cases hr : fs.lookup key with
    | none => simp [absorb, absorbed, h.left hr, h.right hl]
    | some y => simp [absorb, absorbed, h.right hl, h.right_busy hl]
  | some x =>
    cases hr : fs.lookup key with
    | none => simp [absorb, absorbed, h.left hr, h.left_busy hr]
    | some y => simp [absorb, absorbed]

lemma absorbs_of_ofOpenRecords {key : String} (hkey : contains es key = true ∨ contains fs key = true)
    (h : ∀ g ∈ ofOpenRecords key es fs, g.isClash = false) : Absorbs key es fs := by
  simp only [ofOpenRecords] at h
  have h := fun g hg => h g (List.mem_append_right _ hg)
  cases hl : es.lookup key with
  | none =>
    cases hr : fs.lookup key with
    | none => simp [contains, hl, hr] at hkey
    | some y =>
      rw [hl, hr] at h
      have hbusy : extra key es fs ≠ [] := by
        rintro hnil
        cases h (clash (.idle key)) (by simp [hnil])
      have hright : extra key fs es = [] := by
        by_contra hne
        cases h (clash (.keys (keys es) (keys fs))) (by simp [absorb, hbusy, hne])
      exact ⟨by simp [hr], fun _ => hright, by simp [hr], fun _ => hbusy⟩
  | some x =>
    cases hr : fs.lookup key with
    | none =>
      rw [hl, hr] at h
      have hbusy : extra key fs es ≠ [] := by
        rintro hnil
        cases h (clash (.idle key)) (by simp [hnil])
      have hleft : extra key es fs = [] := by
        by_contra hne
        cases h (clash (.keys (keys es) (keys fs))) (by simp [absorb, hbusy, hne])
      exact ⟨fun _ => hleft, by simp [hl], fun _ => hbusy, by simp [hl]⟩
    | some y => exact ⟨by simp [hr], by simp [hl], by simp [hr], by simp [hl]⟩

lemma ofOpenRecords_eq_zip {key : String} (he : Ordered es) (hf : Ordered fs) (h : Absorbs key es fs) :
    ofOpenRecords key es fs = List.zipWith unify (values (common es fs)) (values (common fs es)) ++
      (absorbed (fs.lookup key) (extra key es fs) ++ absorbed (es.lookup key) (extra key fs es)) := by
  rw [ofOpenRecords_of_absorbs h, shared_eq_zip he hf]

lemma ofRecords_of_key {cfg : Config} {key : String} (hc : cfg.catchAll = some key)
    (hkey : contains es key = true ∨ contains fs key = true) :
    ofRecords cfg es fs = ofOpenRecords key es fs := by
  rw [ofRecords, hc]
  exact if_pos (by simpa using hkey)

lemma ofRecords_of_no_key {cfg : Config}
    (h : ∀ key, cfg.catchAll = some key → contains es key = false ∧ contains fs key = false) :
    ofRecords cfg es fs = ofClosedRecords es fs := by
  rw [ofRecords]
  cases hc : cfg.catchAll with
  | none => rfl
  | some key =>
    obtain ⟨hl, hr⟩ := h key hc
    simp [hl, hr]

lemma ofRecords_cases (cfg : Config) (es fs : List (String × Term)) :
    (∃ key, cfg.catchAll = some key ∧ (contains es key = true ∨ contains fs key = true) ∧
      ofRecords cfg es fs = ofOpenRecords key es fs) ∨
    ((∀ key, cfg.catchAll = some key → contains es key = false ∧ contains fs key = false) ∧
      ofRecords cfg es fs = ofClosedRecords es fs) := by
  by_cases h : ∃ key, cfg.catchAll = some key ∧ (contains es key = true ∨ contains fs key = true)
  · obtain ⟨key, hc, hkey⟩ := h
    exact .inl ⟨key, hc, hkey, ofRecords_of_key hc hkey⟩
  · have hno : ∀ key, cfg.catchAll = some key → contains es key = false ∧ contains fs key = false := by
      simpa using h
    exact .inr ⟨hno, ofRecords_of_no_key hno⟩

theorem ofRecords_eq {cfg : Config} (he : Ordered es) (hf : Ordered fs)
    (h : ∀ g ∈ ofRecords cfg es fs, g.isClash = false) :
    (∃ key, cfg.catchAll = some key ∧ (contains es key = true ∨ contains fs key = true) ∧
      Absorbs key es fs ∧ ofRecords cfg es fs =
        List.zipWith unify (values (common es fs)) (values (common fs es)) ++
          (absorbed (fs.lookup key) (extra key es fs) ++
            absorbed (es.lookup key) (extra key fs es))) ∨
    ((∀ key, cfg.catchAll = some key → contains es key = false ∧ contains fs key = false) ∧
      keys es = keys fs ∧ ofRecords cfg es fs = List.zipWith unify (values es) (values fs)) := by
  rcases ofRecords_cases cfg es fs with ⟨key, hc, hkey, heq⟩ | ⟨hkey, heq⟩
  · rw [heq] at h
    have ha := absorbs_of_ofOpenRecords hkey h
    exact .inl ⟨key, hc, hkey, ha, heq.trans (ofOpenRecords_eq_zip he hf ha)⟩
  · rw [heq] at h
    obtain ⟨hkeys, hzip⟩ := ofClosedRecords_eq_zip he hf h
    exact .inr ⟨hkey, hkeys, heq.trans hzip⟩

lemma mem_values_of_lookup {k : String} {t : Term} (h : es.lookup k = some t) : t ∈ values es :=
  List.mem_map.mpr ⟨(k, t), mem_of_lookup h, rfl⟩

lemma mem_values_of_mem_extra {key : String} {t : Term} (h : t ∈ extra key es fs) : t ∈ values es := by
  obtain ⟨e, he, rfl⟩ := List.mem_map.mp h
  exact List.mem_map.mpr ⟨e, List.mem_of_mem_filter he, rfl⟩

lemma mem_shared {g : Goal} (h : g ∈ shared es fs) :
    ∃ x ∈ values es, ∃ y ∈ values fs, g = unify x y := by
  obtain ⟨e, he, hg⟩ := List.mem_filterMap.mp h
  obtain ⟨y, hy, rfl⟩ := Option.map_eq_some_iff.mp hg
  exact ⟨e.2, List.mem_map.mpr ⟨e, he, rfl⟩, y, mem_values_of_lookup hy, rfl⟩

lemma mem_absorb {rest : Option Term} {extras : List Term} {why : Clash} {g : Goal}
    (h : g ∈ absorb rest extras (clash why)) :
    (∃ x ∈ rest, ∃ y ∈ extras, g = unify x y) ∨ g.isClash = true := by
  cases rest with
  | some t =>
    obtain ⟨y, hy, rfl⟩ := List.mem_map.mp h
    exact .inl ⟨t, rfl, y, hy, rfl⟩
  | none =>
    by_cases hn : extras = []
    · simp [absorb, hn] at h
    · simp only [absorb, List.isEmpty_iff, hn, if_false, List.mem_singleton] at h
      exact .inr (h ▸ rfl)

lemma mem_ofClosedRecords {g : Goal} (h : g ∈ ofClosedRecords es fs) :
    (∃ x ∈ values es, ∃ y ∈ values fs, g = unify x y) ∨ g.isClash = true := by
  simp only [ofClosedRecords] at h
  split at h
  · obtain ⟨e, he, rfl⟩ := List.mem_map.mp h
    cases hl : fs.lookup e.1 with
    | none => exact .inr rfl
    | some y =>
      exact .inl ⟨e.2, List.mem_map.mpr ⟨e, he, rfl⟩, y, mem_values_of_lookup hl, rfl⟩
  · exact .inr (List.mem_singleton.mp h ▸ rfl)

lemma mem_ofRecords {cfg : Config} {g : Goal} (h : g ∈ ofRecords cfg es fs) :
    (∃ x ∈ values es, ∃ y ∈ values fs, g = unify x y) ∨
    (∃ key, cfg.catchAll = some key ∧ contains fs key = true ∧
      ∃ x ∈ values fs, ∃ y ∈ values es, g = unify x y) ∨ g.isClash = true := by
  rcases ofRecords_cases cfg es fs with ⟨key, hc, _, heq⟩ | ⟨_, heq⟩
  · rw [heq] at h
    simp only [ofOpenRecords] at h
    rcases List.mem_append.mp h with h | h
    · exact .inl (mem_shared h)
    · split at h
      · exact .inr (.inr (List.mem_singleton.mp h ▸ rfl))
      · split at h
        · exact .inr (.inr (List.mem_singleton.mp h ▸ rfl))
        · rcases List.mem_append.mp h with h | h
          · rcases mem_absorb h with ⟨x, hx, y, hy, rfl⟩ | h
            · have hl : fs.lookup key = some x := hx
              exact .inr (.inl ⟨key, hc, by simp [contains, hl], x, mem_values_of_lookup hl, y,
                mem_values_of_mem_extra hy, rfl⟩)
            · exact .inr (.inr h)
          · rcases mem_absorb h with ⟨x, hx, y, hy, rfl⟩ | h
            · exact .inl ⟨x, mem_values_of_lookup hx, y, mem_values_of_mem_extra hy, rfl⟩
            · exact .inr (.inr h)
  · rw [heq] at h
    rcases mem_ofClosedRecords h with h | h
    · exact .inl h
    · exact .inr (.inr h)

lemma mem_ofSequences {xs ys : List Term} {g : Goal} (h : g ∈ ofSequences xs ys) :
    (∃ x ∈ xs, ∃ y ∈ ys, g = unify x y) ∨ g.isClash = true := by
  rw [ofSequences] at h
  split at h
  · exact .inl (mem_zipWith_unify h)
  · exact .inr (List.mem_singleton.mp h ▸ rfl)

lemma Compares.mem_children {cfg : Config} {a b : Term} {gs : List Goal} {g : Goal}
    (h : Compares cfg a b gs) (hg : g ∈ gs) :
    (∃ x ∈ a.children, ∃ y ∈ b.children, g = unify x y ∨ g = unify y x) ∨ g.isClash = true := by
  cases h with
  | wildcard_left | wildcard_right | callables | primitives => cases hg
  | sequences xs ys =>
    rcases mem_ofSequences hg with ⟨x, hx, y, hy, rfl⟩ | hc
    · exact .inl ⟨x, hx, y, hy, .inl rfl⟩
    · exact .inr hc
  | records es fs =>
    rcases mem_ofRecords hg with ⟨x, hx, y, hy, rfl⟩ | ⟨_, _, _, y, hy, x, hx, rfl⟩ | hc
    · exact .inl ⟨x, hx, y, hy, .inl rfl⟩
    · exact .inl ⟨x, hx, y, hy, .inr rfl⟩
    · exact .inr hc

lemma exists_mem_ofRecords {cfg : Config} (he : Ordered es) (hf : Ordered fs)
    (hfree : ∀ key, cfg.catchAll = some key → contains fs key = false)
    (h : ∀ g ∈ ofRecords cfg es fs, g.isClash = false) {e : String × Term} (hmem : e ∈ es) :
    ∃ t, unify e.2 t ∈ ofRecords cfg es fs := by
  have hlook : es.lookup e.1 = some e.2 := lookup_of_mem he hmem
  rcases ofRecords_cases cfg es fs with ⟨key, hc, hkey, heq⟩ | ⟨_, heq⟩
  · rw [heq] at h ⊢
    have ha := absorbs_of_ofOpenRecords hkey h
    have hnone : fs.lookup key = none := by simpa [contains] using hfree key hc
    rw [ofOpenRecords_of_absorbs ha]
    cases hl : fs.lookup e.1 with
    | some y =>
      refine ⟨y, List.mem_append_left _ (List.mem_filterMap.mpr ⟨e, hmem, ?_⟩)⟩
      simp [hl]
    | none =>
      by_cases hek : e.1 = key
      · obtain ⟨t, ht⟩ := List.exists_mem_of_ne_nil _ (ha.left_busy hnone)
        refine ⟨t, List.mem_append_right _ (List.mem_append_right _ ?_)⟩
        rw [← hek, hlook, hek]
        exact List.mem_map_of_mem ht
      · have hextra : e.2 ∈ extra key es fs :=
          List.mem_map.mpr ⟨e, List.mem_filter.mpr ⟨hmem, by simp [contains, hl, hek]⟩, rfl⟩
        rw [ha.left hnone] at hextra
        cases hextra
  · rw [heq] at h ⊢
    obtain ⟨hkeys, -⟩ := ofClosedRecords_eq_zip he hf h
    obtain ⟨y, hy⟩ := mem_keys.mp (hkeys ▸ mem_keys.mpr ⟨e.2, hmem⟩)
    refine ⟨y, ?_⟩
    rw [ofClosedRecords]
    dsimp only
    rw [if_pos (length_eq_of_keys_eq hkeys)]
    exact List.mem_map.mpr ⟨e, hmem, by simp [lookup_of_mem hf hy]⟩

lemma exists_mem_ofSequences {xs ys : List Term} (h : ∀ g ∈ ofSequences xs ys, g.isClash = false)
    {x : Term} (hx : x ∈ xs) : ∃ y, unify x y ∈ ofSequences xs ys := by
  obtain ⟨hlen, hzip⟩ := ofSequences_eq_zip h
  rw [hzip, ← List.map_uncurry_zip_eq_zipWith]
  obtain ⟨i, hi, rfl⟩ := List.mem_iff_getElem.mp hx
  refine ⟨ys[i], List.mem_map.mpr ⟨(xs[i], ys[i]), ?_, rfl⟩⟩
  exact List.mem_iff_getElem.mpr ⟨i, by simp [hlen ▸ hi, hi], by simp⟩

lemma ofSequences_self (ts : List Term) : ofSequences ts ts = ts.map fun t => unify t t := by
  rw [ofSequences, if_pos rfl, List.zipWith_self]

lemma mem_ofSequences_self {ts : List Term} {g : Goal} (h : g ∈ ofSequences ts ts) :
    ∃ t ∈ ts, g = unify t t := by
  rw [ofSequences_self] at h
  obtain ⟨t, ht, rfl⟩ := List.mem_map.mp h
  exact ⟨t, ht, rfl⟩

lemma mem_extra {key : String} {x : Term} :
    x ∈ extra key es fs ↔ ∃ k, (k, x) ∈ es ∧ k ≠ key ∧ k ∉ keys fs := by
  have hfree (k : String) : contains fs k = false ↔ k ∉ keys fs := by
    rw [← contains_iff, Bool.not_eq_true]
  simp only [extra, values, List.mem_map, List.mem_filter, Bool.and_eq_true, Bool.not_eq_true', hfree,
    bne_iff_ne]
  constructor
  · rintro ⟨⟨k, x⟩, ⟨hmem, hk, hne⟩, rfl⟩
    exact ⟨k, hmem, hne, hk⟩
  · rintro ⟨k, hmem, hne, hk⟩
    exact ⟨(k, x), ⟨hmem, hk, hne⟩, rfl⟩

lemma extra_ne_nil {key : String} :
    extra key es fs ≠ [] ↔ ∃ k ∈ keys es, k ≠ key ∧ k ∉ keys fs := by
  constructor
  · intro h
    obtain ⟨x, hx⟩ := List.exists_mem_of_ne_nil _ h
    obtain ⟨k, hmem, hk⟩ := mem_extra.mp hx
    exact ⟨k, mem_keys.mpr ⟨x, hmem⟩, hk⟩
  · rintro ⟨k, hmem, hk⟩
    obtain ⟨x, hx⟩ := mem_keys.mp hmem
    exact List.ne_nil_of_mem (mem_extra.mpr ⟨k, hx, hk⟩)

lemma ofClosedRecords_eq_shared (h : keys es = keys fs) : ofClosedRecords es fs = shared es fs := by
  rw [ofClosedRecords, shared]
  dsimp only
  rw [if_pos (length_eq_of_keys_eq h), ← List.filterMap_eq_map]
  refine List.filterMap_congr fun e he => ?_
  have hmem : e.1 ∈ keys fs := h ▸ mem_keys.mpr ⟨e.2, he⟩
  obtain ⟨y, hy⟩ := Option.isSome_iff_exists.mp (contains_iff.mpr hmem)
  simp [hy]

lemma ofRecords_of_keys (cfg : Config) (h : keys es = keys fs) : ofRecords cfg es fs = shared es fs := by
  have hextra {es fs : List (String × Term)} (h : keys es = keys fs) (key : String) :
      extra key es fs = [] := by
    by_contra hne
    obtain ⟨k, hk, _, hno⟩ := extra_ne_nil.mp hne
    exact hno (h ▸ hk)
  rcases ofRecords_cases cfg es fs with ⟨key, _, _, heq⟩ | ⟨_, heq⟩
  · have hrest : es.lookup key = none ↔ fs.lookup key = none := by
      rw [lookup_eq_none, lookup_eq_none, h]
    rw [heq]
    simp only [ofOpenRecords, hextra h key, hextra h.symm key]
    cases hl : es.lookup key <;> cases hr : fs.lookup key <;> simp_all [absorb]
  · rw [heq, ofClosedRecords_eq_shared h]

lemma ofRecords_self {cfg : Config} (he : Ordered es) :
    ofRecords cfg es es = es.map fun e => unify e.2 e.2 := by
  rw [ofRecords_of_keys cfg rfl, shared, ← List.filterMap_eq_map]
  refine List.filterMap_congr fun e hmem => ?_
  simp only [lookup_of_mem he hmem, Option.map_some, Function.comp_apply]

lemma mem_ofRecords_self {cfg : Config} (he : Ordered es) {g : Goal} (h : g ∈ ofRecords cfg es es) :
    ∃ e ∈ es, g = unify e.2 e.2 := by
  rw [ofRecords_self he] at h
  obtain ⟨e, hmem, rfl⟩ := List.mem_map.mp h
  exact ⟨e, hmem, rfl⟩

section Map

/-- `F` changes the terms of a comparison by `f` and leaves the clashes of two shapes alone. -/
structure Lifts (f : Term → Term) (F : Goal → Goal) : Prop where
  unify : ∀ a b, F (unify a b) = unify (f a) (f b)
  lengths : ∀ m n, F (clash (.lengths m n)) = clash (.lengths m n)
  keys : ∀ ks ls, F (clash (.keys ks ls)) = clash (.keys ks ls)
  idle : ∀ key, F (clash (.idle key)) = clash (.idle key)

lemma lifts_mapTerms (f : Term → Term) : Lifts f (mapTerms f) := by
  constructor <;> intros <;> rfl

variable {f : Term → Term} {F : Goal → Goal} (hF : Lifts f F)

include hF

lemma Lifts.ofSequences (xs ys : List Term) :
    ofSequences (xs.map f) (ys.map f) = (Goal.ofSequences xs ys).map F := by
  simp only [Goal.ofSequences, List.length_map]
  split
  · simp only [List.zipWith_map, List.map_zipWith, hF.unify]
  · simp [hF.lengths]

lemma Lifts.shared (es fs : List (String × Term)) :
    shared (mapValues f es) (mapValues f fs) = (Goal.shared es fs).map F := by
  simp only [Goal.shared, mapValues, List.filterMap_map, List.map_filterMap]
  refine List.filterMap_congr fun e _ => ?_
  have hl : (List.map (fun e => (e.1, f e.2)) fs).lookup e.1 = (fs.lookup e.1).map f :=
    lookup_mapValues f e.1
  simp [hl, Function.comp_def, hF.unify]

lemma Lifts.ofClosedRecords (es fs : List (String × Term)) :
    ofClosedRecords (mapValues f es) (mapValues f fs) = (Goal.ofClosedRecords es fs).map F := by
  simp only [Goal.ofClosedRecords, length_mapValues, keys_mapValues]
  split
  · simp only [mapValues, List.map_map]
    refine List.map_congr_left fun e _ => ?_
    have hl : (List.map (fun e => (e.1, f e.2)) fs).lookup e.1 = (fs.lookup e.1).map f :=
      lookup_mapValues f e.1
    cases h : fs.lookup e.1 <;> simp [hl, h, hF.unify, hF.keys]
  · simp [hF.keys]

lemma Lifts.absorb (rest : Option Term) (extras : List Term) (ks ls : List String) :
    absorb (rest.map f) (extras.map f) (clash (.keys ks ls)) =
      (Goal.absorb rest extras (clash (.keys ks ls))).map F := by
  cases rest with
  | some t => simp [Goal.absorb, hF.unify]
  | none => by_cases hn : extras = [] <;> simp [Goal.absorb, hn, hF.keys]

omit hF in
lemma extra_mapValues (f : Term → Term) (key : String) (es fs : List (String × Term)) :
    extra key (mapValues f es) (mapValues f fs) = (extra key es fs).map f := by
  simp only [extra, contains_mapValues]
  simp only [values, mapValues, List.filter_map, List.map_map]
  rfl

lemma Lifts.ofOpenRecords (key : String) (es fs : List (String × Term)) :
    ofOpenRecords key (mapValues f es) (mapValues f fs) = (Goal.ofOpenRecords key es fs).map F := by
  simp only [Goal.ofOpenRecords, hF.shared, extra_mapValues, lookup_mapValues, keys_mapValues,
    hF.absorb, Option.isSome_map, Option.isNone_map, List.isEmpty_map, List.map_append]
  congr 1
  split
  · simp [hF.idle]
  · split <;> simp [hF.idle]

lemma Lifts.ofRecords (cfg : Config) (es fs : List (String × Term)) :
    ofRecords cfg (mapValues f es) (mapValues f fs) = (Goal.ofRecords cfg es fs).map F := by
  simp only [Goal.ofRecords, contains_mapValues, hF.ofOpenRecords, hF.ofClosedRecords]
  cases cfg.catchAll with
  | none => rfl
  | some key => exact (apply_ite (List.map F) _ _ _).symm

end Map

end Unification.Goal
