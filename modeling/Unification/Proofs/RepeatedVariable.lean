import Mathlib.Data.List.TakeWhile
import Unification.Proofs.GroundMatching

/-! The values of one variable all match the first of them, and not always each other. -/

namespace Unification

open Keyed

variable {req : Requirements} {cfg : Config} {a b c t u : Term} {ts : List Term} {v : Variable}
  {s : Bindings} {tr tr' : Trail} {es fs gs : List (String × Term)} {key : String}

lemma Match.of_exact_record (h : Match cfg (.record fs) c) (hf : (Term.record fs).Exact cfg)
    (hc : c.Exact cfg) :
    c = .wildcard ∨ ∃ gs, c = .record gs ∧ (∀ k, k ∈ keys fs ↔ k ∈ keys gs) ∧
      ∀ k y z, (k, y) ∈ fs → (k, z) ∈ gs → Match cfg y z := by
  cases h with
  | wildcard_right => exact .inl rfl
  | closed_records _ hkeys shared => exact .inr ⟨_, rfl, hkeys, shared⟩
  | open_records hcfg hkey =>
    rw [← contains_iff, ← contains_iff, hf.contains_eq_false hcfg, hc.contains_eq_false hcfg] at hkey
    simp at hkey

theorem Match.trans (h : Match cfg a b) (h' : Match cfg b c) (hb : b.Exact cfg) (hw : b.WildcardFree)
    (hc : c.Exact cfg) : Match cfg a c := by
  have hexact := Term.hereditary_exact cfg
  have hfree := Term.hereditary_forall_parts (·.isWildcard = false)
  induction h generalizing c with
  | wildcard_left b => exact .wildcard_left c
  | wildcard_right a => cases hw _ (Term.self_mem_parts _)
  | primitives hpq =>
    cases h' with
    | wildcard_right => exact .wildcard_right _
    | primitives hqr => exact .primitives (Primitive.equals_trans hpq hqr)
  | callables d => exact h'
  | @sequences xs ys hlen _ ih =>
    cases h' with
    | wildcard_right => exact .wildcard_right _
    | @sequences _ zs hlen' h' =>
      refine .sequences (hlen.trans hlen') fun i hx hz => ?_
      have hy : i < ys.length := hlen ▸ hx
      exact ih i hx hy (h' i hy hz) (hexact.item hb (List.getElem_mem hy))
        (hfree.item hw (List.getElem_mem hy)) (hexact.item hc (List.getElem_mem hz))
  | @closed_records es fs hno hkeys _ ih =>
    rcases h'.of_exact_record hb hc with rfl | ⟨gs, rfl, hkeys', hshared⟩
    · exact .wildcard_right _
    · refine .closed_records (fun key hk => ?_) (fun k => (hkeys k).trans (hkeys' k)) ?_
      · obtain ⟨hes, hfs⟩ := hno key hk
        exact ⟨hes, hfs ∘ (hkeys' key).mpr⟩
      · intro k x z hx hz
        obtain ⟨y, hy⟩ := mem_keys.mp ((hkeys' k).mpr (mem_keys.mpr ⟨z, hz⟩))
        exact ih k x y hx hy (hshared k y z hy hz) (hexact.entry hb hy) (hfree.entry hw hy)
          (hexact.entry hc hz)
  | @open_records key es fs hcfg hkey hleft hright _ _ _ ihs _ ihr =>
    rcases h'.of_exact_record hb hc with rfl | ⟨gs, rfl, hkeys', hshared⟩
    · exact .wildcard_right _
    · -- only the first record has the catch-all entry, so nothing of it falls to the last one
      have hno : key ∉ keys gs := by
        rw [← contains_iff, hc.contains_eq_false hcfg]
        exact Bool.false_ne_true
      refine .open_records hcfg (hkey.imp_right (hkeys' key).mp) (hleft.congr_right hkeys')
        (hright.congr_left hkeys') ?_ ?_ ?_
      · intro k x z hx hz
        obtain ⟨y, hy⟩ := mem_keys.mp ((hkeys' k).mpr (mem_keys.mpr ⟨z, hz⟩))
        exact ihs k x y hx hy (hshared k y z hy hz) (hexact.entry hb hy) (hfree.entry hw hy)
          (hexact.entry hc hz)
      · intro k x z _ _ _ hz
        exact absurd (mem_keys.mpr ⟨z, hz⟩) hno
      · intro k x z hz hne hk hx
        obtain ⟨y, hy⟩ := mem_keys.mp ((hkeys' k).mpr (mem_keys.mpr ⟨z, hz⟩))
        exact ihr k x y hy hne hk hx (hshared k y z hy hz) (hexact.entry hb hy) (hfree.entry hw hy)
          (hexact.entry hc hz)

namespace Goal

lemma Passes.trans (hab : (unify a b).Passes cfg) (hbc : (unify b c).Passes cfg) (ha : a.WellFormed)
    (hb : b.Exact cfg) (hw : b.WildcardFree) (hc : c.Exact cfg) : (unify a c).Passes cfg := by
  rw [passes_iff_match ha hb.wellFormed] at hab
  rw [passes_iff_match hb.wellFormed hc.wellFormed] at hbc
  exact (passes_iff_match ha hc.wellFormed).mpr (hab.trans hbc hb hw hc)

lemma ofSequences_replicate (t : Term) (ts : List Term) :
    ofSequences (List.replicate ts.length t) ts = ts.map (unify t) := by
  rw [ofSequences, if_pos List.length_replicate]
  induction ts with
  | nil => rfl
  | cons u ts ih => rw [List.length_cons, List.replicate_succ, List.zipWith_cons_cons, ih, List.map_cons]

end Goal

lemma Term.concrete_of_isGround (hg : t.isGround = true) (hw : t.isWildcard = false) : t.Concrete :=
  ⟨isVariable_of_isGround hg, hw⟩

section Values

variable {rest : List Goal}

lemma reaches_rest_of_isWildcard (h : Reaches req cfg ⟨.unify (.var v) t :: rest, tr⟩ ⟨[], tr'⟩)
    (hw : t.isWildcard = true) : Reaches req cfg ⟨rest, tr⟩ ⟨[], tr'⟩ :=
  h.rest ((Goal.passes_of_isWildcard (.inr hw)).reaches tr)

lemma reaches_rest_of_isGround (h : Reaches req cfg ⟨.unify (.var v) t :: rest, tr⟩ ⟨[], tr'⟩)
    (hg : t.isGround = true) (hw : t.isWildcard = false) :
    (tr.bindings.lookup v = none ∧ Reaches req cfg ⟨rest, tr.assign v t⟩ ⟨[], tr'⟩) ∨
      ∃ u, tr.bindings.lookup v = some u ∧ Reaches req cfg ⟨.unify u t :: rest, tr⟩ ⟨[], tr'⟩ := by
  have hc : tr.bindings.candidate t = some t :=
    Bindings.candidate_of_concrete (Term.concrete_of_isGround hg hw)
  have hbind : Reaches req cfg ⟨.bind v t :: rest, tr⟩ ⟨[], tr'⟩ :=
    h.after (.single (.reduce (.variable_left hw)))
  cases hv : tr.bindings.lookup v with
  | some u => exact .inr ⟨u, rfl, hbind.after (.single (.reduce (.recheck hc hv)))⟩
  | none =>
    rcases hbind.cases_head with heq | ⟨x, hstep, hrest⟩
    · cases heq
    · cases hstep with
      | reduce h =>
        cases h with
        | bind_wildcard => cases hw
        | recheck _ hx => cases hv.symm.trans hx
        | exchange => cases hg
      | assign h =>
        cases h with
        | bind hc' _ _ =>
          cases hc.symm.trans hc'
          exact .inl ⟨rfl, hrest⟩

lemma passes_of_bound (h : Reaches req cfg ⟨ts.map (.unify (.var v)), tr⟩ ⟨[], tr'⟩)
    (hv : tr.bindings.lookup v = some u) (hu : u.isGround = true) (hts : ∀ t ∈ ts, t.isGround = true) :
    ∀ t ∈ ts, (Goal.unify u t).Passes cfg := by
  induction ts with
  | nil => simp
  | cons t ts ih =>
    obtain ⟨ht, hts⟩ := List.forall_mem_cons.mp hts
    rw [List.forall_mem_cons]
    cases hw : t.isWildcard with
    | true => exact ⟨Goal.passes_of_isWildcard (.inr hw), ih (reaches_rest_of_isWildcard h hw) hts⟩
    | false =>
      rcases reaches_rest_of_isGround h ht hw with ⟨hnone, _⟩ | ⟨u', hu', hrun⟩
      · cases hnone.symm.trans hv
      · cases hu'.symm.trans hv
        have hpass : (Goal.unify u t).Passes cfg :=
          Goal.passes_of_isRigid hrun _ List.mem_cons_self (by simp [Goal.isRigid, hu, ht])
        exact ⟨hpass, ih (Reaches.rest hrun (hpass.reaches tr)) hts⟩

lemma bound_of_unbound (h : Reaches req cfg ⟨ts.map (.unify (.var v)), tr⟩ ⟨[], tr'⟩)
    (hv : tr.bindings.lookup v = none) (hts : ∀ t ∈ ts, t.isGround = true) :
    tr'.bindings.lookup v = (ts.dropWhile Term.isWildcard).head? ∧
      ∀ u us, ts.dropWhile Term.isWildcard = u :: us → ∀ t ∈ us, (Goal.unify u t).Passes cfg := by
  induction ts with
  | nil => exact ⟨by rw [Reaches.eq_of_nil h, hv]; rfl, by simp⟩
  | cons t ts ih =>
    obtain ⟨ht, hts⟩ := List.forall_mem_cons.mp hts
    cases hw : t.isWildcard with
    | true =>
      rw [List.dropWhile_cons_of_pos hw]
      exact ih (reaches_rest_of_isWildcard h hw) hts
    | false =>
      rw [List.dropWhile_cons_of_neg (by simp [hw])]
      rcases reaches_rest_of_isGround h ht hw with ⟨_, hrun⟩ | ⟨u, hu, _⟩
      · have hbound : (tr.assign v t).bindings.lookup v = some t := by simp
        refine ⟨Reaches.lookup hrun hbound, ?_⟩
        rintro _ _ ⟨⟩
        exact passes_of_bound hrun hbound ht hts
      · cases hu.symm.trans hv

end Values

def leadingWildcards (ts : List Term) : ℕ := (ts.takeWhile Term.isWildcard).length

lemma getElem_cases {us : List Term} (h : ts.dropWhile Term.isWildcard = u :: us) {i : ℕ}
    (hi : i < ts.length) : ts[i].isWildcard = true ∨ (i = leadingWildcards ts ∧ ts[i] = u) ∨
      (leadingWildcards ts < i ∧ ts[i] ∈ us) := by
  have hmem : ∀ t ∈ ts.takeWhile Term.isWildcard, t.isWildcard = true :=
    fun t ht => List.mem_takeWhile_imp ht
  have hsplit := List.takeWhile_append_dropWhile (p := Term.isWildcard) (l := ts)
  rw [h] at hsplit
  rw [leadingWildcards]
  generalize ts.takeWhile Term.isWildcard = ws at hmem hsplit
  subst hsplit
  rcases lt_trichotomy i ws.length with hlt | rfl | hlt
  · rw [List.getElem_append_left hlt]
    exact .inl (hmem _ (List.getElem_mem hlt))
  · exact .inr (.inl ⟨rfl, by simp⟩)
  · refine .inr (.inr ⟨hlt, ?_⟩)
    obtain ⟨k, hk⟩ : ∃ k, i - ws.length = k + 1 := ⟨i - ws.length - 1, by omega⟩
    simp [List.getElem_append_right hlt.le, hk]

lemma getElem?_leadingWildcards (ts : List Term) :
    ts[leadingWildcards ts]? = (ts.dropWhile Term.isWildcard).head? := by
  have hsplit := List.takeWhile_append_dropWhile (p := Term.isWildcard) (l := ts)
  rw [leadingWildcards, List.head?_eq_getElem?]
  nth_rewrite 1 [← hsplit]
  rw [List.getElem?_append_right le_rfl, Nat.sub_self]

/-- Comparisons of two values of one variable: the later values have been compared with the first that
is not the wildcard, and with no other. -/
lemma passes_of_values {us : List Term} (hsplit : ts.dropWhile Term.isWildcard = u :: us)
    (hall : ∀ t ∈ us, (Goal.unify u t).Passes cfg) (hwf : ∀ t ∈ ts, t.WellFormed) {i j : ℕ}
    (hi : i < ts.length) (hj : j < ts.length) (hij : i ≠ j)
    (hcond : i ≤ leadingWildcards ts ∨ j ≤ leadingWildcards ts ∨
      (u.Exact cfg ∧ u.WildcardFree) ∧ (ts[i].Exact cfg ∨ ts[j].Exact cfg)) :
    (Goal.unify ts[i] ts[j]).Passes cfg := by
  have hwi : ts[i].WellFormed := hwf _ (List.getElem_mem hi)
  have hwj : ts[j].WellFormed := hwf _ (List.getElem_mem hj)
  rcases getElem_cases hsplit hi with hw | ⟨rfl, hiu⟩ | ⟨hlt, hmem⟩
  · exact Goal.passes_of_isWildcard (.inl hw)
  · rcases getElem_cases hsplit hj with hw | ⟨rfl, _⟩ | ⟨_, hmem⟩
    · exact Goal.passes_of_isWildcard (.inr hw)
    · exact absurd rfl hij
    · rw [hiu]
      exact hall _ hmem
  · rcases getElem_cases hsplit hj with hw | ⟨rfl, hju⟩ | ⟨hlt', hmem'⟩
    · exact Goal.passes_of_isWildcard (.inr hw)
    · rw [hju] at hwj ⊢
      exact (hall _ hmem).symm hwj hwi
    · obtain ⟨⟨hu, hfree⟩, hexact⟩ : (u.Exact cfg ∧ u.WildcardFree) ∧ (ts[i].Exact cfg ∨ ts[j].Exact cfg) :=
        (hcond.resolve_left hlt.not_ge).resolve_left hlt'.not_ge
      rcases hexact with hexact | hexact
      · have hji := ((hall _ hmem').symm hu.wellFormed hwj).trans (hall _ hmem) hwj hu hfree hexact
        exact hji.symm hwj hwi
      · exact ((hall _ hmem).symm hu.wellFormed hwi).trans (hall _ hmem') hwi hu hfree hexact

theorem unify_values_of_unify_replicate (hts : ∀ t ∈ ts, t.WellFormed ∧ t.isGround = true)
    (h : unify req cfg (.sequence (List.replicate ts.length (.var v))) (.sequence ts) = .unified s) :
    s.lookup v = ts[leadingWildcards ts]? ∧
      ∀ i j (hi : i < ts.length) (hj : j < ts.length), i ≠ j →
        (i ≤ leadingWildcards ts ∨ j ≤ leadingWildcards ts ∨
          (∀ u, s.lookup v = some u → u.Exact cfg ∧ u.WildcardFree) ∧
            (ts[i].Exact cfg ∨ ts[j].Exact cfg)) →
        (unify req cfg ts[i] ts[j]).succeeded = true := by
  have hwf : ∀ t ∈ ts, t.WellFormed := fun t ht => (hts t ht).1
  have hg : ∀ t ∈ ts, t.isGround = true := fun t ht => (hts t ht).2
  obtain ⟨tr, hrun, rfl⟩ := unify_eq_unified_iff.mp h
  have hstart : Reaches req cfg ⟨[.unify (.sequence (List.replicate ts.length (.var v))) (.sequence ts)],
      .start .empty⟩ ⟨ts.map (.unify (.var v)) ++ [], .start .empty⟩ :=
    .single (.reduce (.compare (Goal.ofSequences_replicate (.var v) ts ▸ .sequences _ _)))
  rw [List.append_nil] at hstart
  have hvalues := hrun.after hstart
  obtain ⟨hlook, hpass⟩ := bound_of_unbound hvalues rfl hg
  rw [getElem?_leadingWildcards]
  refine ⟨hlook, fun i j hi hj hij hcond => ?_⟩
  rw [Goal.unify_succeeded_iff_passes (hg _ (List.getElem_mem hi)) (hg _ (List.getElem_mem hj))]
  cases hsplit : ts.dropWhile Term.isWildcard with
  | nil =>
    have hall := List.dropWhile_eq_nil_iff.mp hsplit
    exact Goal.passes_of_isWildcard (.inl (hall _ (List.getElem_mem hi)))
  | cons u us =>
    rw [hsplit, List.head?_cons] at hlook
    exact passes_of_values hsplit (hpass u us hsplit) hwf hi hj hij
      (hcond.imp_right (Or.imp_right (And.imp_left fun hu => hu u hlook)))

section Conflict

open Term (sequence record var primitive wildcard)

def thrice : Term := sequence (List.replicate 3 (var ⟨0⟩))

def openFirst : Term := sequence [sequence [wildcard], sequence [primitive .nil], sequence [primitive (.long 1)]]

def restFirst : Term :=
  sequence [record [("_", primitive .nil)], record [("a", primitive .nil)], record [("b", primitive .nil)]]

def restTwice : Term :=
  sequence [record [("a", primitive .nil), ("b", primitive (.long 1))],
    record [("_", primitive (.long 1)), ("a", primitive .nil)],
    record [("_", primitive .nil), ("b", primitive (.long 1))]]

theorem unify_values_not_pairwise :
    (unify (fun _ => none) .standard thrice openFirst).succeeded = true ∧
      (unify (fun _ => none) .standard (sequence [primitive .nil])
        (sequence [primitive (.long 1)])).succeeded = false ∧
      (unify (fun _ => none) .standard thrice restFirst).succeeded = true ∧
      (unify (fun _ => none) .standard (record [("a", primitive .nil)])
        (record [("b", primitive .nil)])).succeeded = false ∧
      (unify (fun _ => none) .standard thrice restTwice).succeeded = true ∧
      (unify (fun _ => none) .standard (record [("_", primitive (.long 1)), ("a", primitive .nil)])
        (record [("_", primitive .nil), ("b", primitive (.long 1))])).succeeded = false :=
  ⟨rfl, rfl, rfl, rfl, rfl, rfl⟩

def agreedValue : Term := record [("a", sequence [primitive (.float ⟨0⟩)]), ("b", primitive .nil)]

def restOfValue : Term := record [("_", wildcard), ("a", sequence [wildcard])]

def blurOfValue : Term :=
  record [("a", sequence [primitive (.float ⟨0x8000000000000000⟩)]), ("b", wildcard)]

theorem unify_values_of_unify_replicate_agreed :
    (∀ t ∈ [wildcard, agreedValue, restOfValue, blurOfValue], t.WellFormed ∧ t.isGround = true) ∧
      unify (fun _ => none) .standard (sequence (List.replicate 4 (var ⟨0⟩)))
        (sequence [wildcard, agreedValue, restOfValue, blurOfValue]) = .unified (.single ⟨0⟩ agreedValue) ∧
      agreedValue.Exact .standard ∧ agreedValue.WildcardFree ∧ blurOfValue.Exact .standard ∧
      (unify (fun _ => none) .standard restOfValue blurOfValue).succeeded = true := by
  have hts : ∀ t ∈ [wildcard, agreedValue, restOfValue, blurOfValue], t.WellFormed ∧ t.isGround = true := by
    decide
  have h : unify (fun _ => none) .standard (sequence (List.replicate 4 (var ⟨0⟩)))
      (sequence [wildcard, agreedValue, restOfValue, blurOfValue]) = .unified (.single ⟨0⟩ agreedValue) := rfl
  have hu : agreedValue.Exact .standard := by decide
  have hfree : agreedValue.WildcardFree := by decide
  have hblur : blurOfValue.Exact .standard := by decide
  obtain ⟨hlook, hpairs⟩ := unify_values_of_unify_replicate hts h
  refine ⟨hts, h, hu, hfree, hblur, hpairs 2 3 (by decide) (by decide) (by decide) (.inr (.inr ⟨?_, .inr hblur⟩))⟩
  rintro u hu'
  cases hu'
  exact ⟨hu, hfree⟩

end Conflict

end Unification
