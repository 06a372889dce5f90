import Unification.Proofs.DepthBound

/-! A run under constraints is the run without them, if every value that it binds is accepted. -/

namespace Unification

def Requirements.free : Requirements := fun _ => none

variable {req : Requirements} {cfg : Config} {w x : Pending}

def Accepts (req : Requirements) (w x : Pending) : Prop :=
  ∀ e ∈ x.trail.bindings.entries, e ∈ w.trail.bindings.entries ∨ req.accept e.1 e.2 = true

lemma Advance.free (h : Advance req cfg w x) : Advance .free cfg w x := by
  cases h with
  | reduce h => exact .reduce h
  | assign h =>
    cases h with
    | bind ht hv hu => exact .assign (.bind ht hv rfl)

lemma Advance.accepts (h : Advance req cfg w x) : Accepts req w x := by
  rcases h.entries with heq | ⟨v, t, ht, heq⟩
  · exact fun e he => .inl (heq ▸ he)
  · intro e he
    rw [heq] at he
    rcases List.mem_append.mp he with he | he
    · exact .inl he
    · obtain rfl := List.mem_singleton.mp he
      exact .inr ht

lemma Advance.constrained (h : Advance .free cfg w x) (hx : Accepts req w x) :
    Advance req cfg w x := by
  cases h with
  | reduce h => exact .reduce h
  | @assign g v t rest tr h =>
    cases h with
    | bind hc hv _ =>
      have hnew : (v, t) ∉ tr.bindings.entries := by
        intro hmem
        simpa using List.lookup_eq_none_iff.mp hv _ hmem
      have hmem : (v, t) ∈ (tr.assign v t).bindings.entries :=
        Bindings.mem_entries_of_lookup (by simp)
      exact .assign (.bind hc hv ((hx _ hmem).resolve_left hnew))

theorem reaches_iff_free (req : Requirements) :
    Reaches req cfg w x ↔ Reaches .free cfg w x ∧ Accepts req w x := by
  constructor
  · intro h
    induction h with
    | refl => exact ⟨.refl, fun e he => .inl he⟩
    | tail _ hs ih => exact ⟨ih.1.tail hs.free, fun e he => (hs.accepts e he).elim (ih.2 e) .inr⟩
  · rintro ⟨h, hx⟩
    induction h using Relation.ReflTransGen.head_induction_on with
    | refl => exact .refl
    | @head w y hwy hyx ih =>
      have hstep : Advance req cfg w y :=
        hwy.constrained fun e he => hx e (Reaches.entries_subset hyx he)
      have hkeep : w.trail.bindings.entries ⊆ y.trail.bindings.entries :=
        Reaches.entries_subset (.single hwy)
      exact (ih fun e he => (hx e he).imp_left (hkeep ·)).head hstep

theorem unify_eq_unified_iff_free (req : Requirements) (cfg : Config) (a b : Term) (s : Bindings) :
    unify req cfg a b = .unified s ↔
      unify .free cfg a b = .unified s ∧ ∀ e ∈ s.entries, req.accept e.1 e.2 = true := by
  have haccepts (tr : Trail) : Accepts req ⟨[.unify a b], .start .empty⟩ ⟨[], tr⟩ ↔
      ∀ e ∈ tr.bindings.entries, req.accept e.1 e.2 = true := by
    simp [Accepts, Trail.start, Bindings.entries]
  simp only [unify_eq_unified_iff, reaches_iff_free req, haccepts]
  constructor
  · rintro ⟨tr, ⟨hrun, hx⟩, rfl⟩
    exact ⟨⟨tr, hrun, rfl⟩, hx⟩
  · rintro ⟨⟨tr, hrun, rfl⟩, hx⟩
    exact ⟨tr, ⟨hrun, hx⟩, rfl⟩

section Routes

open Term (sequence record var primitive)

def longFirst : Requirements := fun v => if v = ⟨0⟩ then some (.type .long) else none

def strayText : Term := primitive (.string "a")

def routes : List ((Term × Term) × Bindings) :=
  [((var ⟨0⟩, strayText), .single ⟨0⟩ strayText),
    ((sequence [strayText, var ⟨0⟩], sequence [var ⟨1⟩, var ⟨1⟩]), .several [(⟨1⟩, strayText), (⟨0⟩, strayText)]),
    ((sequence [strayText, var ⟨1⟩], sequence [var ⟨1⟩, var ⟨0⟩]), .several [(⟨1⟩, strayText), (⟨0⟩, strayText)]),
    ((record [("_", var ⟨0⟩)], record [("k", strayText)]), .single ⟨0⟩ strayText)]

theorem unify_eq_unified_iff_free_routes : ∀ r ∈ routes,
    unify .free .standard r.1.1 r.1.2 = .unified r.2 ∧
      ∀ s, unify longFirst .standard r.1.1 r.1.2 ≠ .unified s := by
  have hfree : ∀ r ∈ routes, unify .free .standard r.1.1 r.1.2 = .unified r.2 := by
    simp only [routes, List.forall_mem_cons]
    exact ⟨rfl, rfl, rfl, rfl, by simp⟩
  have hrejected : ∀ r ∈ routes, ∃ e ∈ r.2.entries, longFirst.accept e.1 e.2 = false := by decide
  intro r hr
  refine ⟨hfree r hr, fun s h => ?_⟩
  obtain ⟨hs, haccept⟩ := (unify_eq_unified_iff_free longFirst .standard _ _ s).mp h
  cases (hfree r hr).symm.trans hs
  obtain ⟨e, he, hfalse⟩ := hrejected r hr
  exact Bool.false_ne_true (hfalse.symm.trans (haccept e he))

end Routes

end Unification
