import Unification.Proofs.Derivations
import Unification.Proofs.Reachable

namespace Unification

open Term (Exact WellFormed)

variable {req : Requirements} {cfg : Config} {s : Bindings} {a b : Term} {tr : Trail}

/-- Whatever was compared or bound before, under any settings and with success or without. -/
inductive Bindings.Reached (req : Requirements) : Bindings → Prop
  | empty : Reached req .empty
  | run {cfg : Config} {s : Bindings} {g : Goal} {r : Result} (hs : Reached req s)
      (hg : g.All WellFormed) (h : run req cfg s g = some r) : Reached req r.trail.bindings

namespace Bindings.Reached

theorem tidy (h : s.Reached req) : s.Tidy WellFormed := by
  induction h with
  | empty => exact tidy_empty _
  | run _ hg h ih => exact tidy_of_run Term.hereditary_wellFormed h hg ih

lemma all_exact (h : s.Reached req)
    (ho : ∀ e ∈ s.entries, ∀ key, cfg.catchAll = some key → e.2.Omits key) : s.All (Exact cfg) := by
  intro v t ht
  have hvar : Exact cfg (.var v) := ⟨trivial, fun key _ => by simp [Term.Omits, Term.hasKey]⟩
  exact ⟨hvar, (h.tidy.values v t ht).2, ho (v, t) (mem_entries_of_lookup ht)⟩

lemma of_perform {c : Call} {s' : Bindings} (hs : s.Reached req) (hc : ∀ t ∈ c.terms, t.WellFormed)
    (h : c.perform req s = some s') : s'.Reached req := by
  have hgoal : c.goal.All WellFormed := Call.all_goal hc fun _ _ => trivial
  obtain rfl | ⟨s₀, r, hs₀, hr, rfl⟩ := Call.exists_run_of_perform h
  · exact hs
  · rcases hs₀ with rfl | rfl
    · exact empty.run hgoal hr
    · exact hs.run hgoal hr

theorem of_performAll {calls : List Call} {s' : Bindings} (hs : s.Reached req)
    (hcalls : ∀ c ∈ calls, ∀ t ∈ c.terms, t.WellFormed) (h : Call.performAll req calls s = some s') :
    s'.Reached req := by
  induction calls generalizing s with
  | nil =>
    cases h
    exact hs
  | cons c cs ih =>
    obtain ⟨hc, hcs⟩ := List.forall_mem_cons.mp hcalls
    obtain ⟨s₁, hs₁, hrest⟩ := Option.bind_eq_some_iff.mp h
    exact ih (hs.of_perform hc hs₁) hcs hrest

end Bindings.Reached

theorem run_comm_of_reached (hs : s.Reached req) (ha : a.Exact cfg) (hb : b.Exact cfg)
    (ho : ∀ e ∈ s.entries, ∀ key, cfg.catchAll = some key → e.2.Omits key) :
    run req cfg s (.unify a b) = some (.done tr) ↔ run req cfg s (.unify b a) = some (.done tr) := by
  have hturn {x y : Term} (hx : x.Exact cfg) (hy : y.Exact cfg)
      (h : run req cfg s (.unify x y) = some (.done tr)) : run req cfg s (.unify y x) = some (.done tr) := by
    have hall : Pending.All (Exact cfg) ⟨[.unify x y], .start s⟩ :=
      ⟨List.forall_mem_singleton.mpr ⟨hx, hy⟩, hs.all_exact ho⟩
    exact run_eq_done_iff.mpr ((run_eq_done_iff.mp h).turn hall hs.tidy.concrete)
  exact ⟨hturn ha hb, hturn hb ha⟩

section Handover

open Term (sequence record var primitive)

def handoverStart : Bindings :=
  .several [(⟨0⟩, sequence [var ⟨1⟩, var ⟨1⟩]), (⟨2⟩, sequence [primitive .nil, var ⟨3⟩])]

def handoverLeft : Term := record [("k", sequence [var ⟨0⟩, var ⟨4⟩]), ("l", primitive (.long 7))]

def handoverRight : Term := record [("k", sequence [var ⟨2⟩, var ⟨0⟩]), ("l", var ⟨5⟩)]

def handoverEnd : Bindings :=
  .several [(⟨0⟩, sequence [var ⟨1⟩, var ⟨1⟩]), (⟨2⟩, sequence [primitive .nil, var ⟨3⟩]),
    (⟨1⟩, primitive .nil), (⟨3⟩, primitive .nil), (⟨4⟩, sequence [var ⟨1⟩, var ⟨1⟩]),
    (⟨5⟩, primitive (.long 7))]

def handoverCalls : List Call :=
  [.bind .standard ⟨0⟩ (sequence [var ⟨1⟩, var ⟨1⟩]),
    .bind .standard ⟨2⟩ (sequence [primitive .nil, var ⟨3⟩])]

lemma reached_handoverStart : handoverStart.Reached fun _ => none := by
  have h : Call.performAll (fun _ => none) handoverCalls .empty = some handoverStart := rfl
  exact Bindings.Reached.empty.of_performAll (by decide) h

theorem run_comm_of_reached_handover :
    handoverStart.Reached (fun _ => none) ∧ handoverLeft.Exact .standard ∧ handoverRight.Exact .standard ∧
      (∀ e ∈ handoverStart.entries, ∀ key, Config.standard.catchAll = some key → e.2.Omits key) ∧
      ∃ log, run (fun _ => none) .standard handoverStart (.unify handoverLeft handoverRight) =
          some (.done ⟨handoverEnd, log⟩) ∧
        run (fun _ => none) .standard handoverStart (.unify handoverRight handoverLeft) =
          some (.done ⟨handoverEnd, log⟩) := by
  have ha : handoverLeft.Exact .standard := by decide
  have hb : handoverRight.Exact .standard := by decide
  have ho : ∀ e ∈ handoverStart.entries, ∀ key ∈ Config.standard.catchAll, e.2.Omits key := by decide
  have h : run (fun _ => none) .standard handoverStart (.unify handoverLeft handoverRight) =
      some (.done ⟨handoverEnd, _⟩) := rfl
  exact ⟨reached_handoverStart, ha, hb, ho, _, h,
    (run_comm_of_reached reached_handoverStart ha hb ho).mp h⟩

end Handover

end Unification
