import Unification.Proofs.Passes
import Unification.Proofs.Termination

/-! The rules of matching, which take the entries of a record in no order. -/

namespace Unification

open Keyed

structure FallsTo (key : String) (es fs : List (String × Term)) : Prop where
  rest : ∀ k ∈ keys es, k ≠ key → k ∉ keys fs → key ∈ keys fs
  busy : key ∈ keys fs → key ∉ keys es → ∃ k ∈ keys es, k ∉ keys fs

inductive Match (cfg : Config) : Term → Term → Prop
  | wildcard_left (b : Term) : Match cfg .wildcard b
  | wildcard_right (a : Term) : Match cfg a .wildcard
  | primitives {p q : Primitive} (h : p.equals q = true) : Match cfg (.primitive p) (.primitive q)
  | callables (c : Callable) : Match cfg (.callable c) (.callable c)
  | sequences {xs ys : List Term} (hlen : xs.length = ys.length)
      (h : ∀ i (hx : i < xs.length) (hy : i < ys.length), Match cfg xs[i] ys[i]) :
      Match cfg (.sequence xs) (.sequence ys)
  | closed_records {es fs : List (String × Term)}
      (hno : ∀ key, cfg.catchAll = some key → key ∉ keys es ∧ key ∉ keys fs)
      (hkeys : ∀ k, k ∈ keys es ↔ k ∈ keys fs)
      (shared : ∀ k x y, (k, x) ∈ es → (k, y) ∈ fs → Match cfg x y) :
      Match cfg (.record es) (.record fs)
  | open_records {key : String} {es fs : List (String × Term)} (hc : cfg.catchAll = some key)
      (hkey : key ∈ keys es ∨ key ∈ keys fs) (hleft : FallsTo key es fs) (hright : FallsTo key fs es)
      (shared : ∀ k x y, (k, x) ∈ es → (k, y) ∈ fs → Match cfg x y)
      (left : ∀ k x y, (k, x) ∈ es → k ≠ key → k ∉ keys fs → (key, y) ∈ fs → Match cfg y x)
      (right : ∀ k x y, (k, y) ∈ fs → k ≠ key → k ∉ keys es → (key, x) ∈ es → Match cfg x y) :
      Match cfg (.record es) (.record fs)

variable {req : Requirements} {cfg : Config} {a b : Term} {g : Goal} {gs : List Goal} {key : String}
  {es es' fs fs' : List (String × Term)}

lemma FallsTo.congr_right (h : FallsTo key es fs) (hkeys : ∀ k, k ∈ keys fs ↔ k ∈ keys fs') :
    FallsTo key es fs' where
  rest k hk hne hno := (hkeys key).mp (h.rest k hk hne (hno ∘ (hkeys k).mp))
  busy hg hno := by
    obtain ⟨k, hk, hfree⟩ := h.busy ((hkeys key).mpr hg) hno
    exact ⟨k, hk, hfree ∘ (hkeys k).mpr⟩

lemma FallsTo.congr_left (h : FallsTo key fs es) (hkeys : ∀ k, k ∈ keys fs ↔ k ∈ keys fs') :
    FallsTo key fs' es where
  rest k hk hne hno := h.rest k ((hkeys k).mpr hk) hne hno
  busy he hno := by
    obtain ⟨k, hk, hfree⟩ := h.busy he (hno ∘ (hkeys key).mp)
    exact ⟨k, (hkeys k).mp hk, hfree⟩

namespace Goal

lemma mem_shared_iff (hf : Ordered fs) :
    g ∈ shared es fs ↔ ∃ k x y, (k, x) ∈ es ∧ (k, y) ∈ fs ∧ g = unify x y := by
  simp only [shared, List.mem_filterMap, Option.map_eq_some_iff]
  constructor
  · rintro ⟨⟨k, x⟩, hx, y, hy, rfl⟩
    exact ⟨k, x, y, hx, mem_of_lookup hy, rfl⟩
  · rintro ⟨k, x, y, hx, hy, rfl⟩
    exact ⟨(k, x), hx, y, lookup_of_mem hf hy, rfl⟩

lemma mem_absorbed_iff (hf : Ordered fs) : g ∈ absorbed (fs.lookup key) (extra key es fs) ↔
    ∃ k x y, (k, x) ∈ es ∧ k ≠ key ∧ k ∉ keys fs ∧ (key, y) ∈ fs ∧ g = unify y x := by
  constructor
  · intro hg
    cases hl : fs.lookup key with
    | none => simp [absorbed, hl] at hg
    | some y =>
      rw [hl] at hg
      obtain ⟨x, hx, rfl⟩ := List.mem_map.mp hg
      obtain ⟨k, hmem, hne, hk⟩ := mem_extra.mp hx
      exact ⟨k, x, y, hmem, hne, hk, mem_of_lookup hl, rfl⟩
  · rintro ⟨k, x, y, hmem, hne, hk, hy, rfl⟩
    rw [lookup_of_mem hf hy]
    exact List.mem_map_of_mem (mem_extra.mpr ⟨k, hmem, hne, hk⟩)

lemma fallsTo_of_absorbs (h : Absorbs key es fs) : FallsTo key es fs where
  rest k hk hne hno := by
    by_contra hkey
    exact extra_ne_nil.mpr ⟨k, hk, hne, hno⟩ (h.left (lookup_eq_none.mpr hkey))
  busy _ hkey := by
    obtain ⟨k, hk, _, hno⟩ := extra_ne_nil.mp (h.right_busy (lookup_eq_none.mpr hkey))
    exact ⟨k, hk, hno⟩

lemma absorbs_of_fallsTo (hkey : key ∈ keys es ∨ key ∈ keys fs) (hleft : FallsTo key es fs)
    (hright : FallsTo key fs es) : Absorbs key es fs := by
  have hnil {es fs : List (String × Term)} (h : FallsTo key es fs) (hl : fs.lookup key = none) :
      extra key es fs = [] := by
    by_contra hne
    obtain ⟨k, hk, hne, hno⟩ := extra_ne_nil.mp hne
    exact lookup_eq_none.mp hl (h.rest k hk hne hno)
  have hbusy {es fs : List (String × Term)} (h : FallsTo key es fs) (hf : key ∈ keys fs)
      (he : es.lookup key = none) : extra key es fs ≠ [] := by
    have he := lookup_eq_none.mp he
    obtain ⟨k, hk, hno⟩ := h.busy hf he
    exact extra_ne_nil.mpr ⟨k, hk, fun heq => he (heq ▸ hk), hno⟩
  exact {
    left := hnil hleft
    right := hnil hright
    left_busy := fun hf => hbusy hright (hkey.resolve_right (lookup_eq_none.mp hf)) hf
    right_busy := fun he => hbusy hleft (hkey.resolve_left (lookup_eq_none.mp he)) he }

lemma ofRecords_of_absorbs (hc : cfg.catchAll = some key) (hkey : key ∈ keys es ∨ key ∈ keys fs)
    (h : Absorbs key es fs) : ofRecords cfg es fs = shared es fs ++
      (absorbed (fs.lookup key) (extra key es fs) ++ absorbed (es.lookup key) (extra key fs es)) := by
  rw [ofRecords_of_key hc (by simpa only [contains_iff] using hkey), ofOpenRecords_of_absorbs h]

lemma Compares.matched (h : Compares cfg a b gs) (ha : a.WellFormed) (hb : b.WellFormed)
    (hclash : ∀ g ∈ gs, g.isClash = false) (hgs : ∀ x y, unify x y ∈ gs → Match cfg x y) :
    Match cfg a b := by
  cases h with
  | wildcard_left => exact .wildcard_left b
  | wildcard_right => exact .wildcard_right a
  | sequences xs ys =>
    obtain ⟨hlen, hzip⟩ := ofSequences_eq_zip hclash
    have hxy := forall_mem_zipWith_unify hlen fun x y hg => hgs x y (hzip ▸ hg)
    exact .sequences hlen (List.forall₂_iff_get.mp hxy).2
  | records es fs =>
    have hes := (Term.wellFormed_record.mp ha).1
    have hfs := (Term.wellFormed_record.mp hb).1
    rcases ofRecords_cases cfg es fs with ⟨key, hc, hkey, heq⟩ | ⟨hno, heq⟩
    · rw [heq] at hclash
      have habs := absorbs_of_ofOpenRecords hkey hclash
      have hkey : key ∈ keys es ∨ key ∈ keys fs := by simpa only [contains_iff] using hkey
      rw [ofRecords_of_absorbs hc hkey habs] at hgs
      refine .open_records hc hkey (fallsTo_of_absorbs habs) (fallsTo_of_absorbs habs.symm) ?_ ?_ ?_
      · intro k x y hx hy
        exact hgs x y (List.mem_append_left _ ((mem_shared_iff hfs).mpr ⟨k, x, y, hx, hy, rfl⟩))
      · intro k x y hx hne hk hy
        refine hgs y x (List.mem_append_right _ (List.mem_append_left _ ?_))
        exact (mem_absorbed_iff hfs).mpr ⟨k, x, y, hx, hne, hk, hy, rfl⟩
      · intro k x y hy hne hk hx
        refine hgs x y (List.mem_append_right _ (List.mem_append_right _ ?_))
        exact (mem_absorbed_iff hes).mpr ⟨k, y, x, hy, hne, hk, hx, rfl⟩
    · rw [heq] at hclash hgs
      obtain ⟨hkeys, -⟩ := ofClosedRecords_eq_zip hes hfs hclash
      rw [ofClosedRecords_eq_shared hkeys] at hgs
      have hno : ∀ key, cfg.catchAll = some key → key ∉ keys es ∧ key ∉ keys fs := by
        simpa only [← contains_iff, Bool.not_eq_true] using hno
      refine .closed_records hno (fun k => by rw [hkeys]) fun k x y hx hy => ?_
      exact hgs x y ((mem_shared_iff hfs).mpr ⟨k, x, y, hx, hy, rfl⟩)
  | callables c => exact .callables c
  | primitives h => exact .primitives h

lemma Passes.matched (h : (unify a b).Passes cfg) (ha : a.WellFormed) (hb : b.WellFormed) :
    Match cfg a b := by
  suffices hall : ∀ g, g.Passes cfg → ∀ a b, g = unify a b → a.WellFormed → b.WellFormed →
      Match cfg a b from hall _ h a b rfl ha hb
  clear h ha hb
  intro g h
  induction h with
  | @compare a b gs h hgs ih =>
    rintro _ _ ⟨⟩ ha hb
    have hall := h.all Term.hereditary_wellFormed ha hb
    exact h.matched ha hb (fun g hg => (hgs g hg).not_clash) fun x y hg =>
      ih _ hg x y rfl (hall _ hg).1 (hall _ hg).2

end Goal

lemma Match.passes (h : Match cfg a b) (ha : a.WellFormed) (hb : b.WellFormed) :
    (Goal.unify a b).Passes cfg := by
  induction h with
  | wildcard_left b => exact .compare (.wildcard_left b) (by simp)
  | wildcard_right a => exact .compare (.wildcard_right a) (by simp)
  | primitives h => exact .compare (.primitives h) (by simp)
  | callables c => exact .compare (.callables c) (by simp)
  | @sequences xs ys hlen _ ih =>
    have hxy : List.Forall₂ (fun x y => (Goal.unify x y).Passes cfg) xs ys :=
      List.forall₂_iff_get.mpr ⟨hlen, fun i hx hy => ih i hx hy
        (Term.wellFormed_sequence.mp ha _ (List.getElem_mem hx))
        (Term.wellFormed_sequence.mp hb _ (List.getElem_mem hy))⟩
    refine .compare (.sequences xs ys) fun g hg => ?_
    rw [Goal.ofSequences, if_pos hlen] at hg
    obtain ⟨x, _, y, _, hpass, rfl⟩ := Goal.mem_zipWith_unify_of_forall hxy hg
    exact hpass
  | @closed_records es fs hno hkeys _ ih =>
    obtain ⟨hes, hall⟩ := Term.wellFormed_record.mp ha
    obtain ⟨hfs, hall'⟩ := Term.wellFormed_record.mp hb
    have hno : ∀ key, cfg.catchAll = some key → contains es key = false ∧ contains fs key = false := by
      simpa only [← contains_iff, Bool.not_eq_true] using hno
    refine .compare (.records es fs) fun g hg => ?_
    rw [Goal.ofRecords_of_no_key hno, Goal.ofClosedRecords_eq_shared (keys_eq_of_mem_iff hes hfs hkeys)]
      at hg
    obtain ⟨k, x, y, hx, hy, rfl⟩ := (Goal.mem_shared_iff hfs).mp hg
    exact ih k x y hx hy (hall _ hx) (hall' _ hy)
  | @open_records key es fs hc hkey hleft hright _ _ _ ihs ihl ihr =>
    obtain ⟨hes, hall⟩ := Term.wellFormed_record.mp ha
    obtain ⟨hfs, hall'⟩ := Term.wellFormed_record.mp hb
    refine .compare (.records es fs) fun g hg => ?_
    rw [Goal.ofRecords_of_absorbs hc hkey (Goal.absorbs_of_fallsTo hkey hleft hright)] at hg
    rcases List.mem_append.mp hg with hg | hg
    · obtain ⟨k, x, y, hx, hy, rfl⟩ := (Goal.mem_shared_iff hfs).mp hg
      exact ihs k x y hx hy (hall _ hx) (hall' _ hy)
    · rcases List.mem_append.mp hg with hg | hg
      · obtain ⟨k, x, y, hx, hne, hk, hy, rfl⟩ := (Goal.mem_absorbed_iff hfs).mp hg
        exact ihl k x y hx hne hk hy (hall' _ hy) (hall _ hx)
      · obtain ⟨k, y, x, hy, hne, hk, hx, rfl⟩ := (Goal.mem_absorbed_iff hes).mp hg
        exact ihr k x y hy hne hk hx (hall _ hx) (hall' _ hy)

theorem passes_iff_match (ha : a.WellFormed) (hb : b.WellFormed) :
    (Goal.unify a b).Passes cfg ↔ Match cfg a b :=
  ⟨fun h => h.matched ha hb, fun h => h.passes ha hb⟩

theorem unify_eq_empty_or_mismatch_of_isGround (ha : a.WellFormed) (hb : b.WellFormed)
    (hga : a.isGround = true) (hgb : b.isGround = true) :
    (Match cfg a b ∧ unify req cfg a b = .unified .empty) ∨
      (¬ Match cfg a b ∧ ∃ why, unify req cfg a b = .mismatch why) := by
  rw [← passes_iff_match ha hb]
  by_cases h : (Goal.unify a b).Passes cfg
  · exact .inl ⟨h, Goal.unify_eq_empty_of_passes h⟩
  · have hfail : (unify req cfg a b).succeeded ≠ true := by
      rwa [Ne, Goal.unify_succeeded_iff_passes hga hgb]
    have hends : unify req cfg a b ≠ .endless := unify_ne_endless_of_isGround hgb
    refine .inr ⟨h, ?_⟩
    cases hu : unify req cfg a b with
    | unified s => simp [hu, Outcome.succeeded] at hfail
    | mismatch why => exact ⟨why, rfl⟩
    | endless => exact absurd hu hends

section Nested

open Term (record primitive wildcard)

def nestedPattern : Term :=
  record [("_", record [("_", wildcard), ("p", primitive (.long 1))]), ("q", primitive .nil)]

def nestedData : Term :=
  record [("q", primitive .nil),
    ("r", record [("p", primitive (.long 1)), ("s", primitive (.long 2))])]

def idleData : Term := record [("q", primitive .nil), ("r", record [("p", primitive (.long 1))])]

theorem unify_eq_empty_or_mismatch_of_isGround_nested :
    nestedPattern.WellFormed ∧ nestedData.WellFormed ∧ idleData.WellFormed ∧
      nestedPattern.isGround = true ∧ nestedData.isGround = true ∧ idleData.isGround = true ∧
      unify (fun _ => none) .standard nestedPattern nestedData = .unified .empty ∧
      Match .standard nestedPattern nestedData ∧
      unify (fun _ => none) .standard nestedPattern idleData = .mismatch (.idle "_") ∧
      ¬ Match .standard nestedPattern idleData := by
  have ha : nestedPattern.WellFormed := by decide
  have hb : nestedData.WellFormed := by decide
  have hi : idleData.WellFormed := by decide
  have hmatch : unify (fun _ => none) .standard nestedPattern nestedData = .unified .empty := rfl
  have hidle : unify (fun _ => none) .standard nestedPattern idleData = .mismatch (.idle "_") := rfl
  refine ⟨ha, hb, hi, rfl, rfl, rfl, hmatch, ?_, hidle, ?_⟩
  · rcases unify_eq_empty_or_mismatch_of_isGround ha hb rfl rfl with ⟨h, _⟩ | ⟨_, why, hwhy⟩
    · exact h
    · cases hmatch.symm.trans hwhy
  · rcases unify_eq_empty_or_mismatch_of_isGround ha hi rfl rfl with ⟨_, hunified⟩ | ⟨h, _⟩
    · cases hidle.symm.trans hunified
    · exact h

end Nested

end Unification
