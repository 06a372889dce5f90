import Unification.Proofs.Extension
import Unification.Proofs.Passes
import Unification.Proofs.Unfolding

/-! Candidates that are variables bound to variables, and how far their chains of values are followed. -/

namespace Unification

namespace Bindings

def Settled (s : Bindings) (t : Term) : Prop := ∀ v, t = .var v → s.lookup v = none

inductive Chain (s : Bindings) : ℕ → Term → Term → Prop
  | stop {t : Term} (h : s.Settled t) : Chain s 0 t t
  | next {n : ℕ} {v : Variable} {t r : Term} (hv : s.lookup v = some t) (h : Chain s n t r) :
      Chain s (n + 1) (.var v) r

def offer (req : Requirements) (s : Bindings) (v : Variable) (t : Term) : Bool × Bindings :=
  if req.accept v t then (true, s.insert v t) else (false, s)

variable {s : Bindings} {t a x : Term} {n : ℕ}

lemma settled_of_isVariable (h : t.isVariable = false) : s.Settled t := by
  rintro v rfl
  cases h

lemma Settled.deref (h : s.Settled t) : s.deref t = t := by
  cases t with
  | var v => rw [Bindings.deref, h v rfl, Option.getD_none]
  | _ => rfl

lemma iterate_deref_of_lookup {v : Variable} (hv : s.lookup v = some t) (k : ℕ) :
    s.deref^[k + 1] (.var v) = s.deref^[k] t := by
  rw [Function.iterate_succ_apply, deref, hv, Option.getD_some]

lemma Chain.settled (h : s.Chain n a x) : s.Settled x := by
  induction h with
  | stop h => exact h
  | next _ _ ih => exact ih

lemma Chain.iterate_deref (h : s.Chain n a x) {k : ℕ} (hk : n ≤ k) : s.deref^[k] a = x := by
  induction h generalizing k with
  | stop h => exact Function.iterate_fixed h.deref k
  | @next n v t r hv _ ih =>
    obtain ⟨k, rfl⟩ : ∃ j, k = j + 1 := ⟨k - 1, by omega⟩
    rw [iterate_deref_of_lookup hv, ih (by omega)]

theorem Acyclic.exists_chain (hs : s.Acyclic) (v : Variable) : ∃ n x, s.Chain n (.var v) x := by
  induction v using hs.induction with
  | _ v ih =>
    cases hv : s.lookup v with
    | none => exact ⟨0, .var v, .stop fun w hw => by cases hw; exact hv⟩
    | some t =>
      cases t with
      | var w =>
        obtain ⟨n, x, h⟩ := ih w ⟨.var w, hv, Term.occurs_var.mpr rfl⟩
        exact ⟨n + 1, x, .next hv h⟩
      | _ => exact ⟨1, _, .next hv (.stop (settled_of_isVariable rfl))⟩

end Bindings

open Bindings (Chain)

variable {req : Requirements} {cfg : Config} {s : Bindings} {v w z : Variable} {a b t u x r : Term}
  {m n : ℕ}

def attempt (req : Requirements) (cfg : Config) (s : Bindings) (g : Goal) : Option (Bool × Bindings) :=
  (run req cfg s g).map fun r => (r.succeeded, r.trail.bindings)

lemma attempt_of_reduces {g g' : Goal} (h : g.Reduces cfg s [g']) :
    attempt req cfg s g = attempt req cfg s g' := by
  have hrun : run req cfg s g = run req cfg s g' :=
    run_eq_run_of_ends fun _ => ends_iff_of_reaches (reaches_of_reduces h .refl)
  rw [attempt, attempt, hrun]

lemma attempt_of_reduces_nil {g : Goal} (h : g.Reduces cfg s []) :
    attempt req cfg s g = some (true, s) := by
  rw [attempt, run_eq_done_iff.mpr (reaches_of_reduces h .refl)]
  rfl

lemma attempt_of_assigns {g : Goal} (h : g.Assigns req s v t) :
    attempt req cfg s g = some (true, s.insert v t) := by
  have hrun : run req cfg s g = some (.done ((Trail.start s).assign v t)) :=
    run_eq_done_iff.mpr (.single (.assign h))
  rw [attempt, hrun]
  rfl

lemma attempt_of_clash {g : Goal} {why : Clash} (h : g.step req cfg s = .clash why) :
    attempt req cfg s g = some (false, s) := by
  have hrun : run req cfg s g = some (.clash why ((Trail.start s).refuse why)) :=
    run_eq_some_iff.mpr (.clash .refl h)
  rw [attempt, hrun, Option.map_some, Result.trail, Trail.bindings_refuse]
  rfl

lemma attempt_wildcard_left (b : Term) : attempt req cfg s (.unify .wildcard b) = some (true, s) :=
  attempt_of_reduces_nil (.compare (.wildcard_left b))

lemma attempt_wildcard_right (a : Term) : attempt req cfg s (.unify a .wildcard) = some (true, s) :=
  attempt_of_reduces_nil (.compare (.wildcard_right a))

lemma attempt_unify_var (v : Variable) (t : Term) :
    attempt req cfg s (.unify (.var v) t) = bindVariable req cfg s v t := by
  cases t with
  | wildcard =>
    rw [attempt_wildcard_right]
    exact (attempt_of_reduces_nil (.bind_wildcard v)).symm
  | _ => exact attempt_of_reduces (.variable_left rfl)

lemma attempt_unify_var_right (v : Variable) (ht : t.isVariable = false) :
    attempt req cfg s (.unify t (.var v)) = bindVariable req cfg s v t := by
  cases t with
  | wildcard => rw [attempt_wildcard_left, ← attempt_unify_var, attempt_wildcard_right]
  | var _ => cases ht
  | _ => exact attempt_of_reduces (.variable_right rfl rfl)

lemma bindVariable_bound (hv : s.lookup v = some a) (ht : s.candidate t = some u) :
    bindVariable req cfg s v t = attempt req cfg s (.unify a u) :=
  attempt_of_reduces (.recheck ht hv)

lemma bindVariable_offer (hv : s.lookup v = none) (ht : s.candidate t = some u) :
    bindVariable req cfg s v t = some (s.offer req v u) := by
  rw [Bindings.offer]
  by_cases hu : req.accept v u = true
  · rw [if_pos hu]
    exact attempt_of_assigns (.bind ht hv hu)
  · have hstep : (Goal.bind v t).step req cfg s = .clash (.rejected v u) := by
      simp [Goal.step, Goal.stepBind_of_candidate req ht, Goal.settle, hv, hu]
    rw [if_neg hu]
    exact attempt_of_clash hstep

lemma bindVariable_unbound (hv : s.lookup v = none) (hw : s.lookup w = none) :
    bindVariable req cfg s v (.var w) = some (false, s) := by
  have hstep : (Goal.bind v (.var w)).step req cfg s = .clash (.unbound v w) := by
    simp [Goal.step, Goal.stepBind, hv, hw]
  exact attempt_of_clash hstep

lemma attempt_unify_bound (hv : s.lookup v = some a) (hw : s.lookup w = some b) :
    attempt req cfg s (.unify (.var v) (.var w)) = attempt req cfg s (.unify a b) := by
  have hcandidate : s.candidate (.var w) = some b := hw
  rw [attempt_unify_var, bindVariable_bound hv hcandidate]

lemma attempt_unify_unbound (hz : s.lookup z = none) (a : Term) :
    attempt req cfg s (.unify a (.var z)) = bindVariable req cfg s z (s.deref a) := by
  cases a with
  | var v =>
    rw [attempt_unify_var, Bindings.deref]
    cases hv : s.lookup v with
    | none => rw [bindVariable_unbound hv hz, Option.getD_none, bindVariable_unbound hz hv]
    | some t => exact attempt_of_reduces (.exchange hz hv)
  | _ => exact attempt_unify_var_right z rfl

namespace Bindings.Chain

lemma attempt_left (h : s.Chain n a x) (ht : t.isVariable = false) :
    attempt req cfg s (.unify a t) = attempt req cfg s (.unify x t) := by
  cases t with
  | var _ => cases ht
  | wildcard => rw [attempt_wildcard_right, attempt_wildcard_right]
  | _ =>
    induction h with
    | stop _ => rfl
    | next hv _ ih => rw [attempt_unify_var, bindVariable_bound hv rfl, ih]

lemma attempt_right (h : s.Chain (n + 1) a x) (ht : t.isVariable = false) :
    attempt req cfg s (.unify t a) = attempt req cfg s (.unify x t) := by
  cases h with
  | next hv h => rw [attempt_unify_var_right _ ht, ← attempt_unify_var, (Chain.next hv h).attempt_left ht]

lemma attempt_of_le (hX : s.Chain m a x) (hY : s.Chain n b r) (hr : r.isVariable = false)
    (hnm : n ≤ m) : attempt req cfg s (.unify a b) = attempt req cfg s (.unify x r) := by
  induction hY generalizing m a with
  | stop _ => exact hX.attempt_left hr
  | next hw _ ih =>
    cases hX with
    | stop _ => omega
    | next hv hX => rw [attempt_unify_bound hv hw, ih hX hr (by omega)]

lemma attempt_of_lt (hX : s.Chain m a x) (hY : s.Chain n b r) (hx : x.isVariable = false)
    (hmn : m < n) : attempt req cfg s (.unify a b) = attempt req cfg s (.unify r x) := by
  induction hX generalizing n b with
  | stop _ =>
    -- the rest of the right chain is followed as the one to be bound, which turns the comparison round
    obtain ⟨n, rfl⟩ : ∃ k, n = k + 1 := ⟨n - 1, by omega⟩
    exact hY.attempt_right hx
  | next hv _ ih =>
    cases hY with
    | stop _ => omega
    | next hw hY => rw [attempt_unify_bound hv hw, ih hY hx (by omega)]

lemma attempt_early (hX : s.Chain m a (.var z)) (hY : s.Chain n b r) (hmn : m < n) :
    attempt req cfg s (.unify a b) = some (s.offer req z (s.deref^[m + 1] b)) := by
  generalize hx : Term.var z = x at hX
  induction hX generalizing n b with
  | stop hz =>
    subst hx
    cases hY with
    | stop _ => omega
    | @next _ w t _ hw _ =>
      have hcandidate : s.candidate (.var w) = some t := hw
      rw [iterate_deref_of_lookup hw, attempt_unify_var, bindVariable_offer (hz z rfl) hcandidate]
      rfl
  | next hv _ ih =>
    cases hY with
    | stop _ => omega
    | next hw hY =>
      rw [attempt_unify_bound hv hw, ih hY (by omega) hx, ← iterate_deref_of_lookup hw]

lemma attempt_vacant (hX : s.Chain m a x) (hY : s.Chain n b (.var z))
    (h : n ≤ m ∨ x.isVariable = false) :
    attempt req cfg s (.unify a b) = bindVariable req cfg s z (s.deref^[n + 1] a) := by
  rcases Nat.lt_or_ge m n with hmn | hnm
  · have hx : x.isVariable = false := h.resolve_left (by omega)
    rw [hX.attempt_of_lt hY hx hmn, hX.iterate_deref (by omega), attempt_unify_var]
  · clear h
    generalize hr : Term.var z = r at hY
    induction hY generalizing m a with
    | stop hz =>
      subst hr
      exact attempt_unify_unbound (hz z rfl) a
    | next hw _ ih =>
      cases hX with
      | stop _ => omega
      | next hv hX =>
        rw [attempt_unify_bound hv hw, ih hX (by omega) hr, ← iterate_deref_of_lookup hv]

end Bindings.Chain

lemma attempt_succeeds_iff_passes (ha : a.isGround = true) (hb : b.isGround = true) :
    (∃ s', attempt req cfg s (.unify a b) = some (true, s')) ↔ (Goal.unify a b).Passes cfg := by
  constructor
  · rintro ⟨s', h⟩
    obtain ⟨r, hr, hsucceeded⟩ := Option.map_eq_some_iff.mp h
    cases r with
    | done tr =>
      have hrigid : (Goal.unify a b).isRigid = true := Goal.isRigid_unify.mpr (.inr (.inr ⟨ha, hb⟩))
      exact Goal.passes_of_isRigid (run_eq_done_iff.mp hr) _ List.mem_cons_self hrigid
    | clash why tr => cases hsucceeded
  · intro h
    rw [attempt, run_eq_done_iff.mpr (h.reaches (.start s))]
    exact ⟨s, rfl⟩

/-- How the variable `w` fares as a candidate for `v` and how the end of its chain does. The ends of the
chains are `x`, after `m` lookups from `v`, and `r`, after `n` lookups from `w`. -/
structure Resolution (req : Requirements) (cfg : Config) (s : Bindings) (v w : Variable) (m : ℕ)
    (x : Term) (n : ℕ) (r : Term) : Prop where
  same : r.isVariable = false →
    n ≤ m ∨ x.isWildcard = true ∨ x.Concrete ∧ r.isWildcard = true ∨
      x.isVariable = true ∧ r.Concrete ∧ n = m + 1 →
    bindVariable req cfg s v (.var w) = bindVariable req cfg s v r
  turned : x.Concrete → r.Concrete → m < n →
    bindVariable req cfg s v (.var w) = attempt req cfg s (.unify r x) ∧
      bindVariable req cfg s v r = attempt req cfg s (.unify x r)
  ground : x.isGround = true → r.isGround = true → x.WellFormed → r.WellFormed →
    ((∃ s', bindVariable req cfg s v (.var w) = some (true, s')) ↔
      ∃ s', bindVariable req cfg s v r = some (true, s'))
  early : ∀ z, x = .var z → m < n →
    bindVariable req cfg s v (.var w) = some (s.offer req z (s.deref^[m + 1] (.var w)))
  offered : ∀ z, x = .var z → r.Concrete → bindVariable req cfg s v r = some (s.offer req z r)
  absorbed : r.isWildcard = true → bindVariable req cfg s v r = some (true, s)
  vacant : ∀ z, r = .var z →
    bindVariable req cfg s v r = bindVariable req cfg s z (s.deref (.var v)) ∧
      (n ≤ m ∨ x.isVariable = false →
        bindVariable req cfg s v (.var w) = bindVariable req cfg s z (s.deref^[n + 1] (.var v)))

namespace Bindings.Chain

lemma bindVariable_end (hX : s.Chain m (.var v) x) (hr : r.isVariable = false) :
    bindVariable req cfg s v r = attempt req cfg s (.unify x r) := by
  rw [← attempt_unify_var, hX.attempt_left hr]

lemma bindVariable_of_le (hX : s.Chain m (.var v) x) (hY : s.Chain n (.var w) r)
    (hr : r.isVariable = false) (hnm : n ≤ m) :
    bindVariable req cfg s v (.var w) = attempt req cfg s (.unify x r) := by
  rw [← attempt_unify_var, hX.attempt_of_le hY hr hnm]

lemma bindVariable_of_lt (hX : s.Chain m (.var v) x) (hY : s.Chain n (.var w) r)
    (hx : x.isVariable = false) (hmn : m < n) :
    bindVariable req cfg s v (.var w) = attempt req cfg s (.unify r x) := by
  rw [← attempt_unify_var, hX.attempt_of_lt hY hx hmn]

lemma bindVariable_of_variable (hX : s.Chain m (.var v) (.var z)) (hr : r.Concrete) :
    bindVariable req cfg s v r = some (s.offer req z r) := by
  rw [hX.bindVariable_end hr.1, attempt_unify_var,
    bindVariable_offer (hX.settled z rfl) (candidate_of_concrete hr)]

lemma bindVariable_same (hX : s.Chain m (.var v) x) (hY : s.Chain n (.var w) r)
    (hr : r.isVariable = false)
    (h : n ≤ m ∨ x.isWildcard = true ∨ x.Concrete ∧ r.isWildcard = true ∨
      x.isVariable = true ∧ r.Concrete ∧ n = m + 1) :
    bindVariable req cfg s v (.var w) = bindVariable req cfg s v r := by
  rw [hX.bindVariable_end hr]
  rcases Nat.lt_or_ge m n with hmn | hnm
  · rcases h with hle | hx | ⟨hx, hw⟩ | ⟨hx, hc, rfl⟩
    · omega
    · cases x with
      | wildcard =>
        rw [hX.bindVariable_of_lt hY rfl hmn, attempt_wildcard_left, attempt_wildcard_right]
      | _ => cases hx
    · cases r with
      | wildcard =>
        rw [hX.bindVariable_of_lt hY hx.1 hmn, attempt_wildcard_left, attempt_wildcard_right]
      | _ => cases hw
    · cases x with
      | var z =>
        rw [← attempt_unify_var, hX.attempt_early hY hmn, hY.iterate_deref (le_refl _),
          ← hX.bindVariable_end hr, hX.bindVariable_of_variable hc]
      | _ => cases hx
  · exact hX.bindVariable_of_le hY hr hnm

lemma bindVariable_ground (hX : s.Chain m (.var v) x) (hY : s.Chain n (.var w) r)
    (hx : x.isGround = true) (hr : r.isGround = true) (hxw : x.WellFormed) (hrw : r.WellFormed) :
    (∃ s', bindVariable req cfg s v (.var w) = some (true, s')) ↔
      ∃ s', bindVariable req cfg s v r = some (true, s') := by
  have hxv : x.isVariable = false := Term.isVariable_of_isGround hx
  have hrv : r.isVariable = false := Term.isVariable_of_isGround hr
  rw [hX.bindVariable_end hrv, attempt_succeeds_iff_passes hx hr]
  rcases Nat.lt_or_ge m n with hmn | hnm
  · rw [hX.bindVariable_of_lt hY hxv hmn, attempt_succeeds_iff_passes hr hx]
    exact ⟨fun h => h.symm hrw hxw, fun h => h.symm hxw hrw⟩
  · rw [hX.bindVariable_of_le hY hrv hnm, attempt_succeeds_iff_passes hx hr]

theorem resolution (req : Requirements) (cfg : Config) (hX : s.Chain m (.var v) x)
    (hY : s.Chain n (.var w) r) : Resolution req cfg s v w m x n r where
  same := hX.bindVariable_same hY
  turned hx hr hmn := ⟨hX.bindVariable_of_lt hY hx.1 hmn, hX.bindVariable_end hr.1⟩
  ground := hX.bindVariable_ground hY
  early := by
    rintro z rfl hmn
    rw [← attempt_unify_var, hX.attempt_early hY hmn]
  offered := by
    rintro z rfl hr
    exact hX.bindVariable_of_variable hr
  absorbed hr := by
    cases r with
    | wildcard => rw [← attempt_unify_var, attempt_wildcard_right]
    | _ => cases hr
  vacant := by
    rintro z rfl
    refine ⟨?_, fun h => ?_⟩
    · rw [← attempt_unify_var, attempt_unify_unbound (hY.settled z rfl)]
    · rw [← attempt_unify_var, hX.attempt_vacant hY h]

end Bindings.Chain

lemma Bindings.Concrete.bindVariable_of_chain (hs : s.Concrete) (hY : s.Chain n (.var w) r) :
    bindVariable req cfg s v (.var w) = bindVariable req cfg s v r := by
  generalize ha : Term.var w = a at hY
  cases hY with
  | stop _ => rfl
  | @next n _ t _ hw hY =>
    cases ha
    have ht : t.Concrete := hs w t hw
    cases hY with
    | next _ _ => cases ht.1
    | stop hr =>
      have hY : s.Chain 1 (.var w) r := .next hw (.stop hr)
      cases hv : s.lookup v with
      | none =>
        have hX : s.Chain 0 (.var v) (.var v) := .stop fun u hu => by cases hu; exact hv
        exact hX.bindVariable_same hY ht.1 (.inr (.inr (.inr ⟨rfl, ht, rfl⟩)))
      | some x =>
        have hX : s.Chain 1 (.var v) x := .next hv (.stop (settled_of_isVariable (hs v x hv).1))
        exact hX.bindVariable_same hY ht.1 (.inl (le_refl 1))

theorem bindVariable_chains (req : Requirements) (cfg : Config) (s : Bindings) (v w : Variable) :
    (s.Acyclic → (∃ m x, s.Chain m (.var v) x) ∧ ∃ n r, s.Chain n (.var w) r) ∧
      (∀ m x n r, s.Chain m (.var v) x → s.Chain n (.var w) r → Resolution req cfg s v w m x n r) ∧
      (s.Concrete → ∀ n r, s.Chain n (.var w) r →
        bindVariable req cfg s v (.var w) = bindVariable req cfg s v r) :=
  ⟨fun hs => ⟨hs.exists_chain v, hs.exists_chain w⟩, fun _ _ _ _ hX hY => hX.resolution req cfg hY,
    fun hs _ _ hY => hs.bindVariable_of_chain hY⟩

section Forwarding

open Term (var primitive)

def forwarding : Bindings := (Bindings.empty.insert ⟨1⟩ (var ⟨2⟩)).insert ⟨2⟩ (primitive (.long 5))

def longOnly : Requirements := fun v => if v.id = 0 then some (.type .long) else none

lemma acyclic_forwarding : forwarding.Acyclic := by
  apply Bindings.acyclic_of_rank fun v => 2 - v.id
  simp [forwarding, Bindings.insert, Bindings.entries, Term.Occurs]

lemma chain_forwarding_unbound : forwarding.Chain 0 (var ⟨0⟩) (var ⟨0⟩) :=
  .stop fun v hv => by cases hv; rfl

lemma chain_forwarding_direct : forwarding.Chain 1 (var ⟨2⟩) (primitive (.long 5)) :=
  .next rfl (.stop (Bindings.settled_of_isVariable rfl))

lemma chain_forwarding : forwarding.Chain 2 (var ⟨1⟩) (primitive (.long 5)) :=
  .next rfl chain_forwarding_direct

theorem bindVariable_chains_forwarding :
    forwarding.Acyclic ∧ (∃ n r, forwarding.Chain n (var ⟨1⟩) r) ∧
      bindVariable longOnly .standard forwarding ⟨0⟩ (var ⟨2⟩) =
        bindVariable longOnly .standard forwarding ⟨0⟩ (primitive (.long 5)) ∧
      bindVariable longOnly .standard forwarding ⟨1⟩ (var ⟨2⟩) =
        bindVariable longOnly .standard forwarding ⟨1⟩ (primitive (.long 5)) ∧
      bindVariable longOnly .standard forwarding ⟨0⟩ (var ⟨1⟩) =
        some (forwarding.offer longOnly ⟨0⟩ (var ⟨2⟩)) := by
  obtain ⟨hexists, hres, -⟩ := bindVariable_chains longOnly .standard forwarding ⟨0⟩ ⟨1⟩
  obtain ⟨-, hdirect, -⟩ := bindVariable_chains longOnly .standard forwarding ⟨0⟩ ⟨2⟩
  obtain ⟨-, hlonger, -⟩ := bindVariable_chains longOnly .standard forwarding ⟨1⟩ ⟨2⟩
  exact ⟨acyclic_forwarding, (hexists acyclic_forwarding).2,
    (hdirect _ _ _ _ chain_forwarding_unbound chain_forwarding_direct).same rfl
      (.inr (.inr (.inr ⟨rfl, ⟨rfl, rfl⟩, rfl⟩))),
    (hlonger _ _ _ _ chain_forwarding chain_forwarding_direct).same rfl (.inl (by decide)),
    (hres _ _ _ _ chain_forwarding_unbound chain_forwarding).early ⟨0⟩ rfl (by decide)⟩

theorem bindVariable_chain_ne_end :
    forwarding.Acyclic ∧ forwarding.Chain 2 (var ⟨1⟩) (primitive (.long 5)) ∧
      bindVariable longOnly .standard forwarding ⟨0⟩ (var ⟨1⟩) = some (false, forwarding) ∧
      bindVariable longOnly .standard forwarding ⟨0⟩ (primitive (.long 5)) =
        some (true, forwarding.insert ⟨0⟩ (primitive (.long 5))) :=
  ⟨acyclic_forwarding, chain_forwarding, rfl, rfl⟩

end Forwarding

end Unification
