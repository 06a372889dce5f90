import Mathlib.Data.Finset.Card
import Mathlib.Data.List.ProdSigma
import Mathlib.Tactic.Linarith
import Mathlib.Tactic.Ring
import Unification.Proofs.Invariants
import Unification.Unify

/-! Every run with an end keeps to `depthBound`. -/

namespace Unification

variable {req : Requirements} {cfg : Config} {w x : Pending} {nodes : List Term}

def vacant (nodes : List Term) (s : Bindings) : Finset Variable :=
  (nodes.filterMap Term.asVariable).toFinset.filter fun v => (s.lookup v).isNone

lemma mem_vacant {v : Variable} {s : Bindings} :
    v ∈ vacant nodes s ↔ .var v ∈ nodes ∧ s.lookup v = none := by
  have hv : ∀ t : Term, t.asVariable = some v ↔ t = .var v := by
    intro t
    cases t <;> simp [Term.asVariable]
  simp [vacant, hv]

lemma card_vacant_le (s : Bindings) : (vacant nodes s).card ≤ nodes.length :=
  calc (vacant nodes s).card
      ≤ (nodes.filterMap Term.asVariable).toFinset.card := Finset.card_filter_le _ _
    _ ≤ (nodes.filterMap Term.asVariable).length := List.toFinset_card_le _
    _ ≤ nodes.length := List.length_filterMap_le _ _

lemma Advance.vacant_lt (hw : w.All (· ∈ nodes)) (h : Advance req cfg w x) :
    x.trail = w.trail ∨
      (vacant nodes x.trail.bindings).card < (vacant nodes w.trail.bindings).card := by
  cases h with
  | reduce h => exact .inl rfl
  | @assign g v t rest tr h =>
    refine .inr (Finset.card_lt_card (Finset.ssubset_iff_of_subset ?_ |>.mpr ⟨v, ?_, ?_⟩))
    · intro u hu
      rw [mem_vacant, Trail.lookup_assign] at hu
      refine mem_vacant.mpr ⟨hu.1, ?_⟩
      by_cases huv : u = v
      · simp [huv] at hu
      · simpa [huv] using hu.2
    · cases h with
      | bind _ hv _ => exact mem_vacant.mpr ⟨(hw.goals _ List.mem_cons_self).1, hv⟩
    · simp [mem_vacant]

lemma Reaches.vacant_lt (hp : Term.Hereditary (· ∈ nodes)) (hw : w.All (· ∈ nodes))
    (h : Reaches req cfg w x) : x.trail = w.trail ∨
      (vacant nodes x.trail.bindings).card < (vacant nodes w.trail.bindings).card := by
  induction h with
  | refl => exact .inl rfl
  | tail hr hs ih =>
    rcases hs.vacant_lt (Reaches.all hp hr hw) with heq | hlt
    · rwa [heq]
    · rcases ih with heq | hlt'
      · exact .inr (heq ▸ hlt)
      · exact .inr (hlt.trans hlt')

def ExactDepth (req : Requirements) (cfg : Config) (depth : ℕ) (g : Goal) (tr : Trail) : Prop :=
  solve req cfg depth g tr = none ∧ solve req cfg (depth + 1) g tr ≠ none

lemma ExactDepth.unique {d e : ℕ} {g : Goal} {tr : Trail} (hd : ExactDepth req cfg d g tr)
    (he : ExactDepth req cfg e g tr) : d ≤ e := by
  by_contra hlt
  obtain ⟨r, hr⟩ := Option.ne_none_iff_exists'.mp he.2
  have hr' := solve_mono req cfg (n := d) (by omega) hr
  rw [hd.1] at hr'
  cases hr'

lemma exists_exactDepth_of_solveAll {d : ℕ} {gs : List Goal} {tr : Trail}
    (h₀ : solveAll (solve req cfg d) gs tr = none)
    (h₁ : solveAll (solve req cfg (d + 1)) gs tr ≠ none) :
    ∃ g rest tr', Reaches req cfg ⟨gs, tr⟩ ⟨g :: rest, tr'⟩ ∧ ExactDepth req cfg d g tr' := by
  induction gs generalizing tr with
  | nil => cases h₀
  | cons g gs ih =>
    rw [solveAll] at h₀ h₁
    cases hg : solve req cfg d g tr with
    | none =>
      refine ⟨g, gs, tr, .refl, hg, fun hn => h₁ ?_⟩
      rw [hn]
    | some r =>
      rw [hg] at h₀
      rw [solve_mono req cfg (Nat.le_succ d) hg] at h₁
      cases r with
      | clash why tr₁ => cases h₀
      | done tr₁ =>
        obtain ⟨g', rest, tr', hr, he⟩ := ih h₀ h₁
        cases ends_of_solve hg with
        | done hx => exact ⟨g', rest, tr', hx.chain hr, he⟩

lemma ExactDepth.inner {d : ℕ} {g : Goal} {tr : Trail} (h : ExactDepth req cfg (d + 1) g tr) :
    ∃ g' rest tr', Reaches req cfg ⟨[g], tr⟩ ⟨g' :: rest, tr'⟩ ∧ ExactDepth req cfg d g' tr' := by
  obtain ⟨h₀, h₁⟩ := h
  rw [solve] at h₀ h₁
  cases hs : g.step req cfg tr.bindings with
  | reduce gs =>
    rw [hs] at h₀ h₁
    obtain ⟨g', rest, tr', hr, he⟩ := exists_exactDepth_of_solveAll h₀ h₁
    exact ⟨g', rest, tr', reaches_of_reduces (Goal.step_eq_reduce_iff.mp hs) hr, he⟩
  | assign v t => simp [hs] at h₀
  | clash why => simp [hs] at h₀

/-- A goal of depth `d` has a chain of `d` goals below it whose pairs with the number of variables that
are still vacant are distinct. -/
lemma exists_chain (hp : Term.Hereditary (· ∈ nodes)) {d : ℕ} {g : Goal} {tr : Trail}
    (hd : ExactDepth req cfg d g tr) (hw : Pending.All (· ∈ nodes) ⟨[g], tr⟩) :
    ∃ l : List (Goal × ℕ), l.length = d ∧ l.Nodup ∧ ∀ y ∈ l, ∃ e tr',
      1 ≤ e ∧ e ≤ d ∧ y.2 = (vacant nodes tr'.bindings).card ∧ ExactDepth req cfg e y.1 tr' ∧
      (tr' = tr ∨ (vacant nodes tr'.bindings).card < (vacant nodes tr.bindings).card) ∧
      y.1.All (· ∈ nodes) := by
  induction d generalizing g tr with
  | zero => exact ⟨[], rfl, List.nodup_nil, by simp⟩
  | succ d ih =>
    obtain ⟨g', rest, tr', hr, hd'⟩ := hd.inner
    have hx := hr.all hp hw
    have hvac := hr.vacant_lt hp hw
    obtain ⟨l, hlen, hnd, hl⟩ := ih hd'
      ⟨List.forall_mem_singleton.mpr (hx.goals _ List.mem_cons_self), hx.values⟩
    refine ⟨(g, (vacant nodes tr.bindings).card) :: l, by simp [hlen], ?_, ?_⟩
    · refine List.nodup_cons.mpr ⟨fun hmem => ?_, hnd⟩
      obtain ⟨e, tr₂, _, hed, hcard, he, htr₂, _⟩ := hl _ hmem
      -- the same goal with as many vacant variables is met in the same environment
      have heq : tr₂ = tr := by
        dsimp only at hcard hvac
        rcases htr₂ with rfl | hlt
        · rcases hvac with heq | hlt
          · exact heq
          · omega
        · rcases hvac with rfl | hlt'
          · omega
          · omega
      have := hd.unique (heq ▸ he)
      omega
    · rintro y hy
      rcases List.mem_cons.mp hy with rfl | hy
      · exact ⟨d + 1, tr, by omega, le_rfl, rfl, hd, .inl rfl, hw.goals g List.mem_cons_self⟩
      · obtain ⟨e, tr₂, h1e, hed, hcard, he, htr₂, hall⟩ := hl y hy
        refine ⟨e, tr₂, h1e, by omega, hcard, he, ?_, hall⟩
        dsimp only at hvac
        rcases htr₂ with rfl | hlt
        · exact hvac
        · rcases hvac with rfl | hlt'
          · exact .inr hlt
          · exact .inr (hlt.trans hlt')

def Goal.bindNode : Term → Term → Goal
  | .var v, t => bind v t
  | a, t => unify a t

def Goal.overNodes (nodes : List Term) : List Goal :=
  (nodes ×ˢ nodes).map (fun y => unify y.1 y.2) ++
    (nodes ×ˢ nodes).map (fun y => bindNode y.1 y.2)

lemma Goal.mem_overNodes {g : Goal} (h : g.All (· ∈ nodes)) (hc : g.isClash = false) :
    g ∈ overNodes nodes := by
  cases g with
  | unify a b =>
    exact List.mem_append_left _ (List.mem_map.mpr ⟨(a, b), List.mem_product.mpr h, rfl⟩)
  | bind v t =>
    exact List.mem_append_right _ (List.mem_map.mpr ⟨(.var v, t), List.mem_product.mpr h, rfl⟩)
  | clash why => cases hc

lemma ExactDepth.isClash {d : ℕ} {g : Goal} {tr : Trail} (h : ExactDepth req cfg (d + 1) g tr) :
    g.isClash = false := by
  cases g with
  | clash why => cases h.1
  | _ => rfl

lemma ExactDepth.le (hp : Term.Hereditary (· ∈ nodes)) {d : ℕ} {g : Goal} {tr : Trail}
    (hd : ExactDepth req cfg d g tr) (hw : Pending.All (· ∈ nodes) ⟨[g], tr⟩) :
    d ≤ 2 * nodes.length * nodes.length * (nodes.length + 1) := by
  obtain ⟨l, hlen, hnd, hl⟩ := exists_chain hp hd hw
  have hsub : l ⊆ Goal.overNodes nodes ×ˢ List.range (nodes.length + 1) := by
    rintro ⟨h, n⟩ hy
    obtain ⟨e, tr', he, _, hcard, hdeep, _, hall⟩ := hl _ hy
    obtain ⟨e, rfl⟩ : ∃ k, e = k + 1 := ⟨e - 1, by omega⟩
    refine List.mem_product.mpr ⟨Goal.mem_overNodes hall hdeep.isClash, List.mem_range.mpr ?_⟩
    have hvacant : (vacant nodes tr'.bindings).card ≤ nodes.length := card_vacant_le tr'.bindings
    dsimp only at hcard
    omega
  have hle := (hnd.subperm hsub).length_le
  rw [hlen, List.length_product, List.length_range] at hle
  have hgoals : (Goal.overNodes nodes).length = 2 * nodes.length * nodes.length := by
    simp only [Goal.overNodes, List.length_append, List.length_map, List.length_product]
    ring
  rwa [hgoals] at hle

def Goal.roots : Goal → List Term
  | unify a b => [a, b]
  | bind v t => [.var v, t]
  | clash _ => []

def startNodes (s : Bindings) (g : Goal) : List Term :=
  (g.roots ++ s.entries.flatMap fun e => [.var e.1, e.2]).flatMap Term.parts

lemma length_startNodes_le (s : Bindings) (g : Goal) :
    (startNodes s g).length ≤ g.size + s.weight := by
  have hg : (g.roots.flatMap Term.parts).length ≤ g.size := by
    cases g with
    | unify a b => simp [Goal.roots, Goal.size, Term.length_parts]
    | bind v t => simp [Goal.roots, Goal.size, Term.length_parts]
    | clash why => simp [Goal.roots]
  have hs : ((s.entries.flatMap fun e => [Term.var e.1, e.2]).flatMap Term.parts).length =
      s.weight := by
    rw [Bindings.weight]
    induction s.entries with
    | nil => rfl
    | cons e es ih =>
      simp only [List.flatMap_cons, List.flatMap_append, List.length_append, ih, List.foldr_cons]
      simp [Term.length_parts]
      omega
  rw [startNodes, List.flatMap_append, List.length_append]
  omega

lemma all_startNodes (s : Bindings) (g : Goal) :
    Pending.All (· ∈ startNodes s g) ⟨[g], .start s⟩ where
  goals := by
    have hroot : ∀ t ∈ g.roots, t ∈ startNodes s g := fun t ht =>
      List.mem_flatMap.mpr ⟨t, List.mem_append_left _ ht, t.self_mem_parts⟩
    refine List.forall_mem_singleton.mpr ?_
    cases g with
    | unify a b => exact ⟨hroot a (by simp [Goal.roots]), hroot b (by simp [Goal.roots])⟩
    | bind v t => exact ⟨hroot _ (by simp [Goal.roots]), hroot t (by simp [Goal.roots])⟩
    | clash why => trivial
  values v t ht := by
    have hmem : (v, t) ∈ s.entries := Bindings.mem_entries_of_lookup ht
    have hroot : ∀ u ∈ [Term.var v, t], u ∈ startNodes s g := fun u hu =>
      List.mem_flatMap.mpr ⟨u, List.mem_append_right _ (List.mem_flatMap.mpr ⟨_, hmem, hu⟩),
        u.self_mem_parts⟩
    exact ⟨hroot _ (by simp), hroot t (by simp)⟩

theorem run_eq_some_of_solve {s : Bindings} {g : Goal} {n : ℕ} {r : Result}
    (h : solve req cfg n g (.start s) = some r) : run req cfg s g = some r := by
  have hall := all_startNodes s g
  cases hb : run req cfg s g with
  | some r' =>
    have h₁ := solve_mono req cfg (Nat.le_max_left n (depthBound s g)) h
    have h₂ := solve_mono req cfg (Nat.le_max_right n (depthBound s g)) hb
    exact h₂.symm.trans h₁
  | none =>
    exfalso
    obtain ⟨d, hd, hexact⟩ : ∃ d, depthBound s g ≤ d ∧ ExactDepth req cfg d g (.start s) := by
      induction n with
      | zero => cases h
      | succ n ih =>
        cases hn : solve req cfg n g (.start s) with
        | some r' =>
          have := solve_mono req cfg (Nat.le_succ n) hn
          exact ih (hn.trans (this.symm.trans h))
        | none =>
          refine ⟨n, ?_, hn, h ▸ Option.some_ne_none r⟩
          by_contra hlt
          have := solve_mono req cfg (n := depthBound s g) (by omega) h
          rw [run] at hb
          rw [hb] at this
          cases this
    have hnodes : Term.Hereditary (· ∈ startNodes s g) := Term.hereditary_mem_parts _
    have hle := hexact.le hnodes hall
    have hlen := length_startNodes_le s g
    have hmono := Nat.mul_le_mul (Nat.mul_le_mul (Nat.mul_le_mul (le_refl 2) hlen) hlen)
      (Nat.add_le_add_right hlen 1)
    simp only [depthBound] at hd
    linarith

theorem run_eq_some_iff {s : Bindings} {g : Goal} {r : Result} :
    run req cfg s g = some r ↔ Ends req cfg ⟨[g], .start s⟩ r := by
  rw [ends_iff_exists_solve]
  exact ⟨fun h => ⟨_, h⟩, fun ⟨_, h⟩ => run_eq_some_of_solve h⟩

lemma run_eq_run_of_ends {cfg' : Config} {s s' : Bindings} {g g' : Goal}
    (h : ∀ r, Ends req cfg ⟨[g], .start s⟩ r ↔ Ends req cfg' ⟨[g'], .start s'⟩ r) :
    run req cfg s g = run req cfg' s' g' := by
  refine Option.ext fun r => ?_
  rw [run_eq_some_iff, run_eq_some_iff]
  exact h r

lemma run_eq_done_iff {s : Bindings} {g : Goal} {tr : Trail} :
    run req cfg s g = some (.done tr) ↔ Reaches req cfg ⟨[g], .start s⟩ ⟨[], tr⟩ := by
  rw [run_eq_some_iff, ends_done_iff]

lemma Outcome.succeeded_iff {o : Outcome} : o.succeeded = true ↔ ∃ s, o = .unified s := by
  cases o <;> simp [succeeded]

theorem unify_eq_unified_iff {a b : Term} {s : Bindings} :
    unify req cfg a b = .unified s ↔
      ∃ tr, Reaches req cfg ⟨[.unify a b], .start .empty⟩ ⟨[], tr⟩ ∧ tr.bindings = s := by
  constructor
  · intro h
    rw [unify] at h
    cases hr : run req cfg .empty (.unify a b) with
    | none => simp [hr, Outcome.ofResult] at h
    | some r =>
      rw [hr] at h
      cases run_eq_some_iff.mp hr with
      | @done tr hx => exact ⟨tr, hx, by simpa [Outcome.ofResult] using h⟩
      | clash hx hg => cases h
  · rintro ⟨tr, hx, rfl⟩
    rw [unify, run_eq_some_iff.mpr (.done hx), Outcome.ofResult]

theorem unify_eq_mismatch_iff {a b : Term} {why : Clash} :
    unify req cfg a b = .mismatch why ↔
      ∃ tr, Ends req cfg ⟨[.unify a b], .start .empty⟩ (.clash why tr) := by
  constructor
  · intro h
    rw [unify] at h
    cases hr : run req cfg .empty (.unify a b) with
    | none => simp [hr, Outcome.ofResult] at h
    | some r =>
      rw [hr] at h
      cases r with
      | done tr => cases h
      | clash why tr =>
        cases h
        exact ⟨tr, run_eq_some_iff.mp hr⟩
  · rintro ⟨tr, hx⟩
    rw [unify, run_eq_some_iff.mpr hx, Outcome.ofResult]

lemma unify_ne_endless_iff {a b : Term} :
    unify req cfg a b ≠ .endless ↔ ∃ r, Ends req cfg ⟨[.unify a b], .start .empty⟩ r := by
  simp only [← run_eq_some_iff, unify]
  cases run req cfg .empty (.unify a b) with
  | none => simp [Outcome.ofResult]
  | some r => cases r <;> simp [Outcome.ofResult]

end Unification
