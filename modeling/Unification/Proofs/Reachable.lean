import Unification.Proofs.Extension

namespace Unification

open Term (Hereditary Occurs)

inductive Call where
  | unify (cfg : Config) (a b : Term)
  | bind (cfg : Config) (v : Variable) (t : Term)

namespace Call

/-- A unification that fails leaves the environment at hand, a binding that fails keeps what it bound
before. There is no result if the call does not end. -/
def perform (req : Requirements) (s : Bindings) : Call → Option Bindings
  | unify cfg a b =>
    match Unification.unify req cfg a b with
    | .unified s' => some s'
    | .mismatch _ => some s
    | .endless => none
  | bind cfg v t => (bindVariable req cfg s v t).map (·.2)

def performAll (req : Requirements) : List Call → Bindings → Option Bindings
  | [], s => some s
  | c :: cs, s => (c.perform req s).bind (performAll req cs)

def terms : Call → List Term
  | unify _ a b => [a, b]
  | bind _ _ t => [t]

def target? : Call → Option Variable
  | unify _ _ _ => none
  | bind _ v _ => some v

def config : Call → Config
  | unify cfg _ _ => cfg
  | bind cfg _ _ => cfg

def goal : Call → Goal
  | unify _ a b => .unify a b
  | bind _ v t => .bind v t

def nodes (c : Call) : List Term := (c.target?.toList.map Term.var ++ c.terms).flatMap Term.parts

lemma mem_nodes {c : Call} {u : Term} :
    u ∈ c.nodes ↔ (∃ v, c.target? = some v ∧ u = .var v) ∨ ∃ t ∈ c.terms, u ∈ t.parts := by
  simp [nodes]

end Call

variable {req : Requirements} {cfg : Config} {s s' : Bindings} {p : Term → Prop} {w x : Pending}
  {calls : List Call}

namespace Bindings

structure Tidy (p : Term → Prop) (s : Bindings) : Prop where
  distinct : (s.entries.map Prod.fst).Nodup
  concrete : s.Concrete
  values : s.All p

lemma tidy_empty (p : Term → Prop) : empty.Tidy p :=
  ⟨List.nodup_nil, concrete_empty, all_empty p⟩

structure DrawnFrom (calls : List Call) (s : Bindings) : Prop where
  distinct : (s.entries.map Prod.fst).Nodup
  concrete : ∀ e ∈ s.entries, e.2.Concrete
  value : ∀ e ∈ s.entries, ∃ c ∈ calls, ∃ t ∈ c.terms, e.2 ∈ t.parts
  holder : ∀ e ∈ s.entries, ∃ c ∈ calls, c.target? = some e.1 ∨ ∃ t ∈ c.terms, Occurs e.1 t

lemma Tidy.drawnFrom (hs : s.Tidy (· ∈ calls.flatMap Call.nodes)) : s.DrawnFrom calls := by
  have hentry : ∀ e ∈ s.entries, s.lookup e.1 = some e.2 := fun e he =>
    (Keyed.lookup_eq_some_iff hs.distinct).mpr he
  have hconcrete : ∀ e ∈ s.entries, e.2.Concrete := fun e he => hs.concrete _ _ (hentry e he)
  refine ⟨hs.distinct, hconcrete, fun e he => ?_, fun e he => ?_⟩
  · obtain ⟨c, hc, hnode⟩ := List.mem_flatMap.mp (hs.values _ _ (hentry e he)).2
    rcases Call.mem_nodes.mp hnode with ⟨v, -, heq⟩ | ht
    · have hvar := (hconcrete e he).1
      rw [heq] at hvar
      cases hvar
    · exact ⟨c, hc, ht⟩
  · obtain ⟨c, hc, hnode⟩ := List.mem_flatMap.mp (hs.values _ _ (hentry e he)).1
    rcases Call.mem_nodes.mp hnode with ⟨v, hv, heq⟩ | ht
    · cases heq
      exact ⟨c, hc, .inl hv⟩
    · exact ⟨c, hc, .inr ht⟩

end Bindings

lemma Reaches.tidy (hp : Hereditary p) (h : Reaches req cfg w x) (hw : w.All p)
    (hs : w.trail.bindings.Tidy p) : x.trail.bindings.Tidy p :=
  ⟨h.extends.nodup hs.distinct, h.concrete hs.concrete, (h.all hp hw).values⟩

lemma tidy_of_run {g : Goal} {r : Result} (hp : Hereditary p) (h : run req cfg s g = some r)
    (hg : g.All p) (hs : s.Tidy p) : r.trail.bindings.Tidy p := by
  obtain ⟨y, hy, heq, -⟩ := exists_last_of_run h
  exact heq ▸ hy.tidy hp ⟨List.forall_mem_singleton.mpr hg, hs.values⟩ hs

namespace Call

lemma all_goal {c : Call} (hterms : ∀ t ∈ c.terms, p t) (htarget : ∀ v, c.target? = some v → p (.var v)) :
    c.goal.All p := by
  cases c with
  | unify cfg a b => exact ⟨hterms a (by simp [terms]), hterms b (by simp [terms])⟩
  | bind cfg v t => exact ⟨htarget v rfl, hterms t (by simp [terms])⟩

lemma exists_run_of_perform {c : Call} (h : c.perform req s = some s') :
    s' = s ∨ ∃ s₀ r, (s₀ = .empty ∨ s₀ = s) ∧ run req c.config s₀ c.goal = some r ∧
      r.trail.bindings = s' := by
  cases c with
  | unify cfg a b =>
    rw [perform] at h
    cases hu : Unification.unify req cfg a b with
    | unified s₁ =>
      rw [hu] at h
      cases h
      obtain ⟨tr, hrun, rfl⟩ := unify_eq_unified_iff.mp hu
      exact .inr ⟨_, _, .inl rfl, run_eq_done_iff.mpr hrun, rfl⟩
    | mismatch why =>
      rw [hu] at h
      cases h
      exact .inl rfl
    | endless =>
      rw [hu] at h
      cases h
  | bind cfg v t =>
    rw [perform, bindVariable, Option.map_map] at h
    obtain ⟨r, hr, rfl⟩ := Option.map_eq_some_iff.mp h
    exact .inr ⟨s, r, .inr rfl, hr, rfl⟩

lemma tidy_of_perform {c : Call} (hp : Hereditary p) (hc : ∀ u ∈ c.nodes, p u) (hs : s.Tidy p)
    (h : c.perform req s = some s') : s'.Tidy p := by
  have hgoal : c.goal.All p :=
    all_goal (fun t ht => hc t (mem_nodes.mpr (.inr ⟨t, ht, t.self_mem_parts⟩)))
      fun v hv => hc _ (mem_nodes.mpr (.inl ⟨v, hv, rfl⟩))
  obtain rfl | ⟨s₀, r, hs₀, hr, rfl⟩ := exists_run_of_perform h
  · exact hs
  · refine tidy_of_run hp hr hgoal ?_
    rcases hs₀ with rfl | rfl
    · exact Bindings.tidy_empty p
    · exact hs

lemma tidy_of_performAll (hp : Hereditary p) (hcalls : ∀ c ∈ calls, ∀ u ∈ c.nodes, p u) (hs : s.Tidy p)
    (h : performAll req calls s = some s') : s'.Tidy p := by
  induction calls generalizing s with
  | nil =>
    cases h
    exact hs
  | cons c cs ih =>
    obtain ⟨hc, hcs⟩ := List.forall_mem_cons.mp hcalls
    obtain ⟨s₁, hs₁, hrest⟩ := Option.bind_eq_some_iff.mp h
    exact ih hcs (tidy_of_perform hp hc hs hs₁) hrest

theorem drawnFrom_of_performAll (h : performAll req calls .empty = some s) : s.DrawnFrom calls := by
  have hnodes : Hereditary (· ∈ calls.flatMap nodes) := by
    have hroots := Term.hereditary_mem_parts
      (calls.flatMap fun c => c.target?.toList.map Term.var ++ c.terms)
    rwa [List.flatMap_assoc] at hroots
  have hcalls : ∀ c ∈ calls, ∀ u ∈ c.nodes, u ∈ calls.flatMap nodes := fun c hc u hu =>
    List.mem_flatMap.mpr ⟨c, hc, hu⟩
  exact (tidy_of_performAll hnodes hcalls (Bindings.tidy_empty _) h).drawnFrom

section Interrupted

open Term (sequence primitive var)

def interruptedCalls : List Call :=
  [.unify .standard (var ⟨0⟩) (sequence [var ⟨1⟩, var ⟨2⟩]),
    .bind .standard ⟨0⟩ (sequence [primitive .nil, var ⟨2⟩]),
    .unify .standard (sequence [var ⟨3⟩, primitive .nil]) (sequence [primitive .nil, sequence []]),
    .bind Config.standard.withoutCatchAll ⟨4⟩ (var ⟨1⟩)]

def interruptedBindings : Bindings :=
  .several [(⟨0⟩, sequence [var ⟨1⟩, var ⟨2⟩]), (⟨1⟩, primitive .nil), (⟨4⟩, primitive .nil)]

theorem drawnFrom_of_performAll_interrupted :
    performAll (fun _ => none) interruptedCalls .empty = some interruptedBindings ∧
      interruptedBindings.DrawnFrom interruptedCalls := by
  have h : performAll (fun _ => none) interruptedCalls .empty = some interruptedBindings := rfl
  exact ⟨h, drawnFrom_of_performAll h⟩

end Interrupted

end Call

end Unification
