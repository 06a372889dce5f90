import Mathlib.Data.Finset.Card
import Mathlib.Logic.Relation
import Unification.Bindings
import Unification.Proofs.Substitution

namespace Unification.Bindings

open Relation (ReflTransGen TransGen)
open Term (Occurs)
open scoped Classical

variable {s : Bindings}

def Depends (s : Bindings) (v w : Variable) : Prop := ∃ t, s.lookup v = some t ∧ Occurs w t

def Acyclic (s : Bindings) : Prop := ∀ v, ¬ TransGen s.Depends v v

def Closed (s : Bindings) : Prop := ∀ v w, s.Depends v w → (s.lookup w).isSome

noncomputable def below (s : Bindings) (v : Variable) : Finset Variable :=
  (s.entries.map Prod.fst).toFinset.filter (ReflTransGen s.Depends v)

noncomputable def rank (s : Bindings) (v : Variable) : ℕ := (s.below v).card

lemma mem_below_self {v : Variable} {t : Term} (h : s.lookup v = some t) : v ∈ s.below v := by
  have hv : v ∈ s.entries.map Prod.fst := List.mem_map_of_mem (mem_entries_of_lookup h)
  exact Finset.mem_filter.mpr ⟨List.mem_toFinset.mpr hv, .refl⟩

lemma rank_le (v : Variable) : s.rank v ≤ s.entries.length :=
  calc s.rank v
      ≤ (s.entries.map Prod.fst).toFinset.card := Finset.card_filter_le _ _
    _ ≤ (s.entries.map Prod.fst).length := List.toFinset_card_le _
    _ = s.entries.length := List.length_map _

lemma rank_pos {v : Variable} {t : Term} (h : s.lookup v = some t) : 0 < s.rank v :=
  Finset.card_pos.mpr ⟨v, mem_below_self h⟩

lemma rank_lt_of_depends {v w : Variable} (hv : ¬ TransGen s.Depends v v)
    (hd : s.Depends v w) : s.rank w < s.rank v := by
  have hsub : s.below w ⊆ s.below v := by
    intro x hx
    obtain ⟨hx, hwx⟩ := Finset.mem_filter.mp hx
    exact Finset.mem_filter.mpr ⟨hx, .head hd hwx⟩
  obtain ⟨t, ht, _⟩ := id hd
  refine Finset.card_lt_card ((Finset.ssubset_iff_of_subset hsub).mpr
    ⟨v, mem_below_self ht, fun hvw => ?_⟩)
  exact hv (.head' hd (Finset.mem_filter.mp hvw).2)

lemma Acyclic.rank_lt (h : s.Acyclic) {v w : Variable} (hd : s.Depends v w) :
    s.rank w < s.rank v := rank_lt_of_depends (h v) hd

lemma Depends.exists_entry {v w : Variable} (h : s.Depends v w) :
    ∃ e ∈ s.entries, e.1 = v ∧ Occurs w e.2 := by
  obtain ⟨t, ht, hw⟩ := h
  exact ⟨(v, t), mem_entries_of_lookup ht, rfl, hw⟩

lemma acyclic_of_depends_lt (f : Variable → ℕ) (h : ∀ v w, s.Depends v w → f w < f v) :
    s.Acyclic := by
  have hlt : ∀ {u w}, TransGen s.Depends u w → f w < f u := by
    intro u w huw
    induction huw with
    | single hd => exact h _ _ hd
    | tail _ hd ih => exact (h _ _ hd).trans ih
  exact fun v hv => lt_irrefl _ (hlt hv)

lemma acyclic_of_rank (f : Variable → ℕ) (h : ∀ e ∈ s.entries, ∀ w, Occurs w e.2 → f w < f e.1) :
    s.Acyclic := by
  refine acyclic_of_depends_lt f fun v w hd => ?_
  obtain ⟨e, he, rfl, hw⟩ := hd.exists_entry
  exact h e he w hw

lemma depends_of_depends_insert {u v w : Variable} {t : Term} (h : (s.insert v t).Depends u w) :
    u = v ∨ s.Depends u w := by
  obtain ⟨x, hx, hw⟩ := h
  rw [lookup_insert] at hx
  split at hx
  · next heq => exact .inl heq
  · exact .inr ⟨x, hx, hw⟩

lemma Acyclic.cycle_of_insert (h : s.Acyclic) {v : Variable} {t : Term}
    (hc : ¬ (s.insert v t).Acyclic) : TransGen (s.insert v t).Depends v v := by
  by_contra hv
  have hpath : ∀ {u w}, TransGen (s.insert v t).Depends u w →
      TransGen s.Depends u w ∨ (ReflTransGen (s.insert v t).Depends u v ∧
        TransGen (s.insert v t).Depends v w) := by
    intro u w huw
    induction huw with
    | single hd =>
      rcases depends_of_depends_insert hd with rfl | hold
      · exact .inr ⟨.refl, .single hd⟩
      · exact .inl (.single hold)
    | tail hux hd ih =>
      rcases ih with hold | ⟨huv, hvx⟩
      · rcases depends_of_depends_insert hd with rfl | hd'
        · exact .inr ⟨hux.to_reflTransGen, .single hd⟩
        · exact .inl (hold.tail hd')
      · exact .inr ⟨huv, hvx.tail hd⟩
  refine hc fun u hu => ?_
  rcases hpath hu with hold | ⟨huv, hvu⟩
  · exact h u hold
  · exact hv (hvu.trans_left huv)

lemma closed_of_entries (h : ∀ e ∈ s.entries, ∀ w, Occurs w e.2 → (s.lookup w).isSome) :
    s.Closed := by
  intro v w hd
  obtain ⟨e, he, rfl, hw⟩ := hd.exists_entry
  exact h e he w hw

theorem Acyclic.induction (h : s.Acyclic) {P : Variable → Prop}
    (hP : ∀ v, (∀ w, s.Depends v w → P w) → P v) (v : Variable) : P v := by
  induction hn : s.rank v using Nat.strong_induction_on generalizing v with
  | _ n ih =>
    subst hn
    exact hP v fun w hd => ih _ (h.rank_lt hd) w rfl

/-- Replacing the bound variables of the first term by their values, and those of the values in turn, ends
with the second term. There is no bound on the depth and no shortcut for the empty environment. -/
inductive Unfolds (s : Bindings) : Term → Term → Prop
  | bound {v u x} (hv : s.lookup v = some u) (h : Unfolds s u x) : Unfolds s (.var v) x
  | unbound {v} (hv : s.lookup v = none) : Unfolds s (.var v) (.var v)
  | sequence {ts us} (h : List.Forall₂ (Unfolds s) ts us) : Unfolds s (.sequence ts) (.sequence us)
  | record {es fs} (hkeys : Keyed.keys es = Keyed.keys fs)
      (h : List.Forall₂ (Unfolds s) (Keyed.values es) (Keyed.values fs)) :
      Unfolds s (.record es) (.record fs)
  | primitive (p) : Unfolds s (.primitive p) (.primitive p)
  | callable (c) : Unfolds s (.callable c) (.callable c)
  | wildcard : Unfolds s .wildcard .wildcard

variable {t x : Term}

@[elab_as_elim]
theorem Unfolds.induction {motive : Term → Term → Prop}
    (bound : ∀ v u x, s.lookup v = some u → s.Unfolds u x → motive u x → motive (.var v) x)
    (unbound : ∀ v, s.lookup v = none → motive (.var v) (.var v))
    (sequence : ∀ ts us, List.Forall₂ (fun t u => motive t u ∧ s.Unfolds t u) ts us →
      motive (.sequence ts) (.sequence us))
    (record : ∀ es fs, Keyed.keys es = Keyed.keys fs →
      List.Forall₂ (fun t u => motive t u ∧ s.Unfolds t u) (Keyed.values es) (Keyed.values fs) →
      motive (.record es) (.record fs))
    (primitive : ∀ p, motive (.primitive p) (.primitive p))
    (callable : ∀ c, motive (.callable c) (.callable c)) (wildcard : motive .wildcard .wildcard)
    (h : s.Unfolds t x) : motive t x := by
  refine @Unfolds.rec s (fun t x _ => motive t x)
    (fun ts us _ => List.Forall₂ (fun t u => motive t u ∧ s.Unfolds t u) ts us)
    ?_ ?_ ?_ ?_ primitive callable wildcard .nil ?_ t x h
  · exact fun hv h ih => bound _ _ _ hv h ih
  · exact fun hv => unbound _ hv
  · exact fun _ ih => sequence _ _ ih
  · exact fun hkeys _ ih => record _ _ hkeys ih
  · exact fun h _ ih ihs => .cons ⟨ih, h⟩ ihs

def resolveVariable (s : Bindings) (depth : ℕ) (v : Variable) : Option Term :=
  match s.lookup v with
  | some u => s.resolve depth u
  | none => some (.var v)

lemma resolve_succ (s : Bindings) (depth : ℕ) (t : Term) :
    s.resolve (depth + 1) t = t.substitute (s.resolveVariable depth) := rfl

lemma apply_eq_resolve (s : Bindings) (t : Term) :
    s.apply t = s.resolve (s.entries.length + 1) t := by
  rw [apply]
  split
  · next hs =>
    cases s with
    | empty =>
      have hv : t.substitute (fun v => some (.var v)) = some (t.subst .var) :=
        Term.substitute_eq_some fun v _ => rfl
      exact (hv.trans (congrArg some t.subst_variables)).symm
    | _ => cases hs
  · rfl

lemma unfolds_of_resolve {d : ℕ} (h : s.resolve d t = some x) : s.Unfolds t x := by
  induction d generalizing t x with
  | zero => cases h
  | succ d ih =>
    rw [resolve_succ] at h
    induction t using Term.induction_children generalizing x with
    | sequence ts iht =>
      obtain ⟨us, hus, rfl⟩ := Term.substitute_sequence.mp h
      exact .sequence (forall₂_of_forall_mem (fun t ht u => @iht t ht u) hus)
    | record es iht =>
      obtain ⟨fs, ⟨hkeys, hfs⟩, rfl⟩ := Term.substitute_record.mp h
      refine .record hkeys (forall₂_of_forall_mem (fun t ht u => ?_) hfs)
      obtain ⟨e, he, rfl⟩ := List.mem_map.mp ht
      exact @iht e he u
    | var v =>
      rw [Term.substitute, resolveVariable] at h
      split at h
      · next u hu => exact .bound hu (ih h)
      · next hu =>
        cases h
        exact .unbound hu
    | primitive p =>
      cases h
      exact .primitive p
    | callable c =>
      cases h
      exact .callable c
    | wildcard =>
      cases h
      exact .wildcard

lemma Unfolds.not_depends_self (h : s.Unfolds t x) : ∀ v, Occurs v t → ¬ TransGen s.Depends v v := by
  refine h.induction ?bound ?unbound ?sequence ?record ?primitive ?callable ?wildcard
  case bound =>
    intro v u x hv _ ih w hw hcycle
    cases Term.occurs_var.mp hw
    -- a cycle enters the value through one of its variables, which therefore lies on a cycle too
    obtain ⟨y, ⟨u', hu', hy⟩, hback⟩ := TransGen.head'_iff.mp hcycle
    cases hv.symm.trans hu'
    exact ih y hy (.tail' hback ⟨u, hv, hy⟩)
  case unbound =>
    intro v hv w hw hcycle
    cases Term.occurs_var.mp hw
    obtain ⟨y, ⟨u, hu, _⟩, _⟩ := TransGen.head'_iff.mp hcycle
    cases hv.symm.trans hu
  case sequence =>
    intro ts us ih v hv
    obtain ⟨t, ht, hv⟩ := Term.occurs_sequence.mp hv
    exact ((List.forall₂_and_left ts us).mp ih).1 t ht v hv
  case record =>
    intro es fs _ ih v hv
    obtain ⟨e, he, hv⟩ := Term.occurs_record.mp hv
    exact ((List.forall₂_and_left _ _).mp ih).1 e.2 (List.mem_map_of_mem he) v hv
  case primitive | callable | wildcard => simp [Occurs]

lemma Unfolds.resolve (h : s.Unfolds t x) :
    ∀ d, (∀ v, Occurs v t → s.rank v ≤ d) → s.resolve (d + 1) t = some x := by
  -- for every depth, since the values of variables are met with a smaller one
  refine h.induction ?bound ?unbound ?sequence ?record ?primitive ?callable ?wildcard
  case bound =>
    intro v u x hv hu ih d hd
    have hcycle := (Unfolds.bound hv hu).not_depends_self v (Term.occurs_var.mpr rfl)
    have hle := hd v (Term.occurs_var.mpr rfl)
    obtain ⟨d, rfl⟩ := Nat.exists_eq_add_of_lt ((rank_pos hv).trans_le hle)
    rw [resolve_succ, Term.substitute, resolveVariable, hv]
    refine ih _ fun w hw => ?_
    have hlt := rank_lt_of_depends hcycle ⟨u, hv, hw⟩
    omega
  case unbound =>
    intro v hv d _
    rw [resolve_succ, Term.substitute, resolveVariable, hv]
  case sequence =>
    intro ts us ih d hd
    refine Term.substitute_sequence.mpr ⟨us, forall₂_of_forall_mem (fun t ht u h => ?_) ih, rfl⟩
    exact h.1 d fun v hv => hd v (Term.occurs_sequence.mpr ⟨t, ht, hv⟩)
  case record =>
    intro es fs hkeys ih d hd
    refine Term.substitute_record.mpr
      ⟨fs, ⟨hkeys, forall₂_of_forall_mem (fun t ht u h => ?_) ih⟩, rfl⟩
    obtain ⟨e, he, rfl⟩ := List.mem_map.mp ht
    exact h.1 d fun v hv => hd v (Term.occurs_record.mpr ⟨e, he, hv⟩)
  case primitive | callable => exact fun _ _ _ => rfl
  case wildcard => exact fun _ _ => rfl

theorem apply_eq_some_iff : s.apply t = some x ↔ s.Unfolds t x := by
  rw [apply_eq_resolve]
  exact ⟨unfolds_of_resolve, fun h => h.resolve _ fun v _ => s.rank_le v⟩

end Unification.Bindings
