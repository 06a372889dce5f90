import Unification.Goal
import Unification.Proofs.Substitution

namespace Unification

def Bindings.candidate (s : Bindings) : Term → Option Term
  | .wildcard => none
  | .var w => s.lookup w
  | t => some t

def Bindings.deref (s : Bindings) : Term → Term
  | .var v => (s.lookup v).getD (.var v)
  | t => t

namespace Goal

/-- The goals of a comparison in which no variable has to be bound. -/
inductive Compares (cfg : Config) : Term → Term → List Goal → Prop
  | wildcard_left (b : Term) : Compares cfg .wildcard b []
  | wildcard_right (a : Term) : Compares cfg a .wildcard []
  | sequences (xs ys : List Term) : Compares cfg (.sequence xs) (.sequence ys) (ofSequences xs ys)
  | records (es fs : List (String × Term)) :
      Compares cfg (.record es) (.record fs) (ofRecords cfg es fs)
  | callables (c : Callable) : Compares cfg (.callable c) (.callable c) []
  | primitives {p q : Primitive} (h : p.equals q = true) :
      Compares cfg (.primitive p) (.primitive q) []

inductive Reduces (cfg : Config) (s : Bindings) : Goal → List Goal → Prop
  | compare {a b : Term} {gs : List Goal} (h : Compares cfg a b gs) : Reduces cfg s (unify a b) gs
  | variable_left {v : Variable} {t : Term} (ht : t.isWildcard = false) :
      Reduces cfg s (unify (.var v) t) [bind v t]
  | variable_right {v : Variable} {t : Term} (ht : t.isWildcard = false)
      (hv : t.isVariable = false) : Reduces cfg s (unify t (.var v)) [bind v t]
  | bind_wildcard (v : Variable) : Reduces cfg s (bind v .wildcard) []
  | recheck {v : Variable} {t u x : Term} (ht : s.candidate t = some u) (hv : s.lookup v = some x) :
      Reduces cfg s (bind v t) [unify x u]
  | exchange {v w : Variable} {t : Term} (hw : s.lookup w = none) (hv : s.lookup v = some t) :
      Reduces cfg s (bind v (.var w)) [bind w t]

inductive Assigns (req : Requirements) (s : Bindings) : Goal → Variable → Term → Prop
  | bind {v : Variable} {t u : Term} (ht : s.candidate t = some u) (hv : s.lookup v = none)
      (hu : req.accept v u = true) : Assigns req s (bind v t) v u

lemma stepBind_of_candidate (req : Requirements) {s : Bindings} {v : Variable} {t u : Term}
    (h : s.candidate t = some u) : stepBind req s v t = settle req s v u := by
  cases t with
  | wildcard => cases h
  | var w =>
    have hw : s.lookup w = some u := h
    simp [stepBind, hw]
  | _ =>
    cases h
    rfl

variable {req : Requirements} {cfg : Config} {s : Bindings}

lemma reduces_of_stepUnify {a b : Term} {gs : List Goal} (h : stepUnify cfg a b = .reduce gs) :
    Reduces cfg s (unify a b) gs := by
  cases a with
  | wildcard =>
    cases h
    exact .compare (.wildcard_left b)
  | var v =>
    cases b with
    | wildcard => cases h; exact .compare (.wildcard_right _)
    | _ => cases h; exact .variable_left rfl
  | sequence xs =>
    cases b with
    | wildcard => cases h; exact .compare (.wildcard_right _)
    | var w => cases h; exact .variable_right rfl rfl
    | sequence ys => cases h; exact .compare (.sequences xs ys)
    | _ => cases h
  | record es =>
    cases b with
    | wildcard => cases h; exact .compare (.wildcard_right _)
    | var w => cases h; exact .variable_right rfl rfl
    | record fs => cases h; exact .compare (.records es fs)
    | _ => cases h
  | callable c =>
    cases b with
    | wildcard => cases h; exact .compare (.wildcard_right _)
    | var w => cases h; exact .variable_right rfl rfl
    | callable d =>
      rw [stepUnify] at h
      split at h
      · next hcd =>
        cases h
        exact hcd ▸ .compare (.callables c)
      · cases h
    | _ => cases h
  | primitive p =>
    cases b with
    | wildcard => cases h; exact .compare (.wildcard_right _)
    | var w => cases h; exact .variable_right rfl rfl
    | primitive q =>
      rw [stepUnify] at h
      split at h
      · next hpq =>
        cases h
        exact .compare (.primitives hpq)
      · cases h
    | _ => cases h

lemma candidate_eq_none {t : Term} (h : s.candidate t = none) :
    t = .wildcard ∨ ∃ w, t = .var w ∧ s.lookup w = none := by
  cases t with
  | wildcard => exact .inl rfl
  | var w => exact .inr ⟨w, rfl, h⟩
  | _ => cases h

lemma reduces_of_stepBind {v : Variable} {t : Term} {gs : List Goal}
    (h : stepBind req s v t = .reduce gs) : Reduces cfg s (bind v t) gs := by
  cases hc : s.candidate t with
  | some u =>
    rw [stepBind_of_candidate req hc, settle] at h
    cases hv : s.lookup v with
    | some x =>
      rw [hv] at h
      cases h
      exact .recheck hc hv
    | none =>
      rw [hv] at h
      dsimp only at h
      split at h <;> cases h
  | none =>
    rcases candidate_eq_none hc with rfl | ⟨w, rfl, hw⟩
    · cases h
      exact .bind_wildcard v
    · rw [stepBind, hw] at h
      cases hv : s.lookup v with
      | some x =>
        rw [hv] at h
        cases h
        exact .exchange hw hv
      | none =>
        rw [hv] at h
        cases h

theorem step_eq_reduce_iff {g : Goal} {gs : List Goal} :
    g.step req cfg s = .reduce gs ↔ Reduces cfg s g gs := by
  constructor
  · intro h
    cases g with
    | unify a b => exact reduces_of_stepUnify h
    | bind v t => exact reduces_of_stepBind h
    | clash why => cases h
  · intro h
    cases h with
    | @compare a b gs h =>
      cases h with
      | wildcard_left => rfl
      | wildcard_right => cases a <;> rfl
      | sequences xs ys => rfl
      | records es fs => rfl
      | callables c => simp [step, stepUnify]
      | primitives hpq => simp [step, stepUnify, hpq]
    | @variable_left v t ht =>
      cases t with
      | wildcard => cases ht
      | _ => rfl
    | @variable_right v t ht hv =>
      cases t with
      | wildcard => cases ht
      | var w => cases hv
      | _ => rfl
    | bind_wildcard v => rfl
    | recheck ht hv => simp [step, stepBind_of_candidate req ht, settle, hv]
    | exchange hw hv => simp [step, stepBind, hw, hv]

theorem step_eq_assign_iff {g : Goal} {v : Variable} {t : Term} :
    g.step req cfg s = .assign v t ↔ Assigns req s g v t := by
  constructor
  · intro h
    cases g with
    | unify a b =>
      rw [step, stepUnify.eq_def] at h
      split at h <;> (try split at h) <;> cases h
    | bind w t =>
      rw [step] at h
      cases hc : s.candidate t with
      | some u =>
        rw [stepBind_of_candidate req hc, settle] at h
        cases hv : s.lookup w with
        | some x => simp [hv] at h
        | none =>
          rw [hv] at h
          dsimp only at h
          split at h
          · next hu =>
            cases h
            exact .bind hc hv hu
          · cases h
      | none =>
        rcases candidate_eq_none hc with rfl | ⟨x, rfl, hx⟩
        · cases h
        · rw [stepBind, hx] at h
          cases hw : s.lookup w <;> simp [hw] at h
    | clash why => cases h
  · rintro ⟨ht, hv, hu⟩
    simp [step, stepBind_of_candidate req ht, settle, hv, hu]

lemma Compares.unique {a b : Term} {gs hs : List Goal} (h : Compares cfg a b gs)
    (h' : Compares cfg a b hs) : gs = hs := by
  have heq : step (fun _ => none) cfg .empty (unify a b) = .reduce gs :=
    step_eq_reduce_iff.mpr (.compare h)
  rw [step_eq_reduce_iff.mpr (.compare h')] at heq
  exact (Step.reduce.inj heq).symm

end Goal

end Unification
