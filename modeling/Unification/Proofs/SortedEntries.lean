import Mathlib.Data.List.Forall2
import Mathlib.Data.List.Sort
import Mathlib.Tactic.Tauto
import Unification.Keyed

namespace Unification.Keyed

variable {α β : Type _} {es fs : List (String × α)}

instance : Decidable (Ordered es) := inferInstanceAs (Decidable (List.Pairwise _ es))

lemma mem_keys {k : String} : k ∈ keys es ↔ ∃ x, (k, x) ∈ es := by
  simp [keys]

lemma contains_iff {k : String} : contains es k = true ↔ k ∈ keys es := by
  rw [contains, List.lookup_isSome_iff]
  simp only [keys, List.mem_map, beq_iff_eq, @eq_comm _ k]

lemma lookup_eq_none {k : String} : es.lookup k = none ↔ k ∉ keys es := by
  rw [← contains_iff, contains, ← Option.not_isSome_iff_eq_none]

lemma mem_of_lookup {k : String} {x : α} (h : es.lookup k = some x) : (k, x) ∈ es := by
  obtain ⟨l₁, l₂, rfl, _⟩ := List.lookup_eq_some_iff.mp h
  simp

lemma Ordered.pairwise_keys (h : Ordered es) : (keys es).Pairwise (· < ·) :=
  List.pairwise_map.mpr h

lemma Ordered.nodup_keys (h : Ordered es) : (keys es).Nodup := h.pairwise_keys.nodup

lemma lookup_eq_some_iff {κ : Type _} [DecidableEq κ] {es : List (κ × α)}
    (h : (es.map Prod.fst).Nodup) {k : κ} {x : α} : es.lookup k = some x ↔ (k, x) ∈ es := by
  induction es with
  | nil => simp
  | cons e es ih =>
    obtain ⟨l, y⟩ := e
    obtain ⟨hl, hes⟩ := List.nodup_cons.mp h
    rw [lookup_cons_eq_ite, List.mem_cons]
    split
    · next heq =>
      subst heq
      have hnot : (k, x) ∉ es := fun hx => hl (List.mem_map.mpr ⟨_, hx, rfl⟩)
      simp [hnot, eq_comm]
    · next hne => simp [hne, ih hes]

def Final {κ : Type _} (es : List (κ × α)) (k : κ) (x : α) : Prop :=
  ∃ earlier later, es = earlier ++ (k, x) :: later ∧ ∀ e ∈ later, e.1 ≠ k

lemma reverse_lookup_eq_some_iff {κ : Type _} [DecidableEq κ] {es : List (κ × α)} {k : κ} {x : α} :
    es.reverse.lookup k = some x ↔ Final es k x := by
  rw [List.lookup_eq_some_iff]
  constructor
  · rintro ⟨later, earlier, heq, hlater⟩
    refine ⟨earlier.reverse, later.reverse, ?_, fun e he => ?_⟩
    · rw [← es.reverse_reverse, heq, List.reverse_append, List.reverse_cons, List.append_assoc]
      rfl
    · exact (bne_iff_ne.mp (hlater e (List.mem_reverse.mp he))).symm
  · rintro ⟨earlier, later, rfl, hlater⟩
    refine ⟨later.reverse, earlier.reverse, by simp, fun e he => ?_⟩
    exact bne_iff_ne.mpr (hlater e (List.mem_reverse.mp he)).symm

lemma lookup_of_mem (h : Ordered es) {k : String} {x : α} (hx : (k, x) ∈ es) :
    es.lookup k = some x :=
  (lookup_eq_some_iff h.nodup_keys).mpr hx

lemma lookup_ofList (es : List (String × α)) (k : String) :
    (ofList es).lookup k = es.reverse.lookup k := by
  rw [ofList, ← List.foldr_reverse]
  induction es.reverse with
  | nil => rfl
  | cons e fs ih => rw [List.foldr_cons, lookup_insert, lookup_cons_eq_ite, ih]

lemma lookup_ofList_of_nodup (h : (keys es).Nodup) (k : String) :
    (ofList es).lookup k = es.lookup k := by
  have hreverse : (es.reverse.map Prod.fst).Nodup := by
    rw [List.map_reverse]
    exact List.nodup_reverse.mpr h
  refine Option.ext fun x => ?_
  rw [lookup_ofList, lookup_eq_some_iff hreverse, List.mem_reverse, ← lookup_eq_some_iff h]

lemma Ordered.eq_of_mem_iff (he : Ordered es) (hf : Ordered fs) (h : ∀ e, e ∈ es ↔ e ∈ fs) : es = fs := by
  have hperm : es.Perm fs :=
    (List.perm_ext_iff_of_nodup he.nodup_keys.of_map hf.nodup_keys.of_map).mpr h
  exact hperm.eq_of_pairwise (fun e f _ _ hef hfe => absurd hfe (String.lt_asymm hef)) he hf

lemma ofList_of_ordered (h : Ordered es) : ofList es = es := by
  refine (ordered_ofList es).eq_of_mem_iff h fun e => ?_
  rw [← lookup_eq_some_iff (ordered_ofList es).nodup_keys, lookup_ofList_of_nodup h.nodup_keys,
    lookup_eq_some_iff h.nodup_keys]

lemma keys_eq_of_mem_iff (he : Ordered es) (hf : Ordered fs)
    (h : ∀ k, k ∈ keys es ↔ k ∈ keys fs) : keys es = keys fs :=
  he.pairwise_keys.eq_of_mem_iff hf.pairwise_keys h

lemma length_eq_of_keys_eq {fs : List (String × β)} (h : keys es = keys fs) : es.length = fs.length := by
  simpa [keys] using congrArg List.length h

lemma fst_getElem_eq {fs : List (String × β)} (h : keys es = keys fs) {i : ℕ} (he : i < es.length)
    (hf : i < fs.length) : es[i].1 = fs[i].1 := by
  have hi : i < (keys es).length := by simpa [keys] using he
  simpa [keys] using List.getElem_of_eq h hi

lemma Ordered.of_keys_eq {fs : List (String × β)} (h : Ordered es) (hkeys : keys es = keys fs) :
    Ordered fs := by
  have hpairwise := h.pairwise_keys
  rw [hkeys] at hpairwise
  exact List.pairwise_map.mp hpairwise

lemma keys_eq_of_subset (he : Ordered es) (hf : Ordered fs) (hlen : es.length = fs.length)
    (h : keys es ⊆ keys fs) : keys es = keys fs := by
  have hp : (keys es).Perm (keys fs) :=
    (List.subperm_of_subset he.nodup_keys h).perm_of_length_le (by simp [keys, hlen])
  exact keys_eq_of_mem_iff he hf fun k => hp.mem_iff

lemma mem_keys_insert {k l : String} {x : α} : l ∈ keys (insert k x es) ↔ l = k ∨ l ∈ keys es := by
  rw [← contains_iff, ← contains_iff, contains, contains, lookup_insert]
  split
  · next heq => simp [heq]
  · next hne => simp [hne]

def common (es fs : List (String × α)) : List (String × α) := es.filter fun e => contains fs e.1

lemma mem_common {e : String × α} : e ∈ common es fs ↔ e ∈ es ∧ e.1 ∈ keys fs := by
  simp [common, contains_iff]

lemma ordered_common (he : Ordered es) : Ordered (common es fs) := he.filter _

lemma keys_common (he : Ordered es) (hf : Ordered fs) :
    keys (common es fs) = keys (common fs es) := by
  refine keys_eq_of_mem_iff (ordered_common he) (ordered_common hf) fun k => ?_
  simp only [mem_keys, mem_common]
  constructor
  · rintro ⟨x, hx, y, hy⟩
    exact ⟨y, hy, x, hx⟩
  · rintro ⟨y, hy, x, hx⟩
    exact ⟨x, hx, y, hy⟩

lemma lookup_common (hf : Ordered fs) {k : String} (hk : k ∈ keys es) :
    (common fs es).lookup k = fs.lookup k := by
  refine Option.ext fun x => ?_
  rw [lookup_eq_some_iff (ordered_common hf).nodup_keys, lookup_eq_some_iff hf.nodup_keys, mem_common]
  exact and_iff_left hk

lemma keys_common_of_subset (he : Ordered es) (hf : Ordered fs) (h : keys es ⊆ keys fs) :
    keys (common fs es) = keys es := by
  have hall : common es fs = es :=
    List.filter_eq_self.mpr fun e he => contains_iff.mpr (h (List.mem_map_of_mem he))
  rw [keys_common hf he, hall]

lemma map_lookup {γ : Type _} (f : α → Option α → γ) (hf : Ordered fs)
    {gs : List (String × α)} (hsub : gs ⊆ fs) (hkeys : keys es = keys gs) :
    es.map (fun e => f e.2 (fs.lookup e.1)) =
      List.zipWith (fun x y => f x (some y)) (values es) (values gs) := by
  induction es generalizing gs with
  | nil => simp [values]
  | cons e es ih =>
    cases gs with
    | nil => simp [keys] at hkeys
    | cons g gs =>
      obtain ⟨hk, hkeys⟩ : e.1 = g.1 ∧ keys es = keys gs := by simpa [keys] using hkeys
      obtain ⟨hg, hgs⟩ := List.cons_subset.mp hsub
      have hl : fs.lookup e.1 = some g.2 := lookup_of_mem hf (hk ▸ hg)
      simpa [values, hl] using ih hgs hkeys

def mapValues (f : α → β) (es : List (String × α)) : List (String × β) :=
  es.map fun e => (e.1, f e.2)

@[simp] lemma keys_mapValues (f : α → β) : keys (mapValues f es) = keys es := by
  simp [keys, mapValues, Function.comp_def]

@[simp] lemma values_mapValues (f : α → β) : values (mapValues f es) = (values es).map f := by
  simp [values, mapValues, Function.comp_def]

@[simp] lemma length_mapValues (f : α → β) : (mapValues f es).length = es.length := by
  simp [mapValues]

lemma lookup_mapValues (f : α → β) (k : String) :
    (mapValues f es).lookup k = (es.lookup k).map f := by
  induction es with
  | nil => rfl
  | cons e es ih =>
    obtain ⟨l, x⟩ := e
    rw [mapValues, List.map_cons, lookup_cons_eq_ite, lookup_cons_eq_ite]
    split
    · rfl
    · exact ih

@[simp] lemma contains_mapValues (f : α → β) (k : String) :
    contains (mapValues f es) k = contains es k := by
  simp [contains, lookup_mapValues]

lemma ordered_mapValues (f : α → β) : Ordered (mapValues f es) ↔ Ordered es :=
  List.pairwise_map

lemma keys_zip {ks : List String} {xs : List α} (h : ks.length = xs.length) :
    keys (ks.zip xs) = ks := List.map_fst_zip h.le

lemma values_zip {ks : List String} {xs : List α} (h : ks.length = xs.length) :
    values (ks.zip xs) = xs := List.map_snd_zip h.ge

lemma zip_keys_values (es : List (String × α)) : (keys es).zip (values es) = es :=
  (List.zip_of_prod rfl rfl).symm

lemma length_keys_eq (es : List (String × α)) : (keys es).length = (values es).length := by
  simp [keys, values]

lemma eq_of_keys_of_values (hk : keys es = keys fs) (hv : values es = values fs) : es = fs := by
  rw [← zip_keys_values es, hk, hv, zip_keys_values]

lemma forall₂_iff {R : α → β → Prop} {es : List (String × α)} {fs : List (String × β)} :
    List.Forall₂ (fun e f => e.1 = f.1 ∧ R e.2 f.2) es fs ↔
      keys es = keys fs ∧ List.Forall₂ R (values es) (values fs) := by
  induction es generalizing fs with
  | nil => cases fs <;> simp [keys, values]
  | cons e es ih =>
    cases fs with
    | nil => simp [keys]
    | cons f fs =>
      simp only [List.forall₂_cons, ih, keys, values, List.map_cons, List.cons.injEq]
      tauto

section FilterMap

variable {f : α → Option β}

lemma nodup_keys_filterMap (h : (keys es).Nodup) :
    (keys (es.filterMap fun e => (f e.2).map (e.1, ·))).Nodup := by
  have hne : es.Pairwise (·.1 ≠ ·.1) := List.pairwise_map.mp h
  refine List.pairwise_map.mpr (hne.filterMap _ fun e e' hee' x hx y hy => ?_)
  obtain ⟨_, -, rfl⟩ := Option.map_eq_some_iff.mp hx
  obtain ⟨_, -, rfl⟩ := Option.map_eq_some_iff.mp hy
  exact hee'

lemma lookup_filterMap (h : (keys es).Nodup) (k : String) :
    (es.filterMap fun e => (f e.2).map (e.1, ·)).lookup k = (es.lookup k).bind f := by
  refine Option.ext fun y => ?_
  rw [lookup_eq_some_iff (nodup_keys_filterMap h), List.mem_filterMap, Option.bind_eq_some_iff]
  constructor
  · rintro ⟨⟨l, x⟩, hx, hy⟩
    obtain ⟨_, hfx, heq⟩ := Option.map_eq_some_iff.mp hy
    obtain ⟨rfl, rfl⟩ := Prod.mk.inj heq
    exact ⟨x, (lookup_eq_some_iff h).mpr hx, hfx⟩
  · rintro ⟨x, hx, hfx⟩
    exact ⟨(k, x), (lookup_eq_some_iff h).mp hx, by simp [hfx]⟩

end FilterMap

end Unification.Keyed
