import Unification.Proofs.DepthBound

namespace Unification

variable {req : Requirements} {cfg : Config} {s s' s'' : Bindings} {g : Goal} {w x : Pending}

namespace Bindings

def Extends (s s' : Bindings) : Prop :=
  ∃ new, s'.entries = s.entries ++ new ∧ (new.map Prod.fst).Nodup ∧ ∀ e ∈ new, s.lookup e.1 = none

lemma Extends.refl (s : Bindings) : s.Extends s := ⟨[], by simp⟩

lemma extends_insert {v : Variable} (t : Term) (h : s.lookup v = none) : s.Extends (s.insert v t) :=
  ⟨[(v, t)], entries_insert_of_lookup_eq_none t h, by simp [h]⟩

lemma lookup_eq_none_iff {v : Variable} : s.lookup v = none ↔ v ∉ s.entries.map Prod.fst := by
  rw [← Option.not_isSome_iff_eq_none, lookup, List.lookup_isSome_iff]
  simp only [List.mem_map, beq_iff_eq, @eq_comm _ v]

lemma Extends.trans (h : s.Extends s') (h' : s'.Extends s'') : s.Extends s'' := by
  obtain ⟨new, heq, hnodup, hnew⟩ := h
  obtain ⟨new', heq', hnodup', hnew'⟩ := h'
  have hfresh : ∀ e ∈ new', e.1 ∉ s.entries.map Prod.fst ∧ e.1 ∉ new.map Prod.fst := by
    intro e he
    have hnone := lookup_eq_none_iff.mp (hnew' e he)
    rw [heq, List.map_append, List.mem_append, not_or] at hnone
    exact hnone
  refine ⟨new ++ new', by rw [heq', heq, List.append_assoc], ?_, fun e he => ?_⟩
  · rw [List.map_append, List.nodup_append]
    refine ⟨hnodup, hnodup', fun v hv w hw hvw => ?_⟩
    obtain ⟨e, he, rfl⟩ := List.mem_map.mp hw
    exact (hfresh e he).2 (hvw ▸ hv)
  · rcases List.mem_append.mp he with he | he
    · exact hnew e he
    · exact lookup_eq_none_iff.mpr (hfresh e he).1

lemma Extends.nodup (h : s.Extends s') (hs : (s.entries.map Prod.fst).Nodup) :
    (s'.entries.map Prod.fst).Nodup := by
  obtain ⟨new, heq, hnew, hfresh⟩ := h
  rw [heq, List.map_append, List.nodup_append]
  refine ⟨hs, hnew, fun v hv w hw hvw => ?_⟩
  obtain ⟨e, he, rfl⟩ := List.mem_map.mp hw
  exact lookup_eq_none_iff.mp (hfresh e he) (hvw ▸ hv)

end Bindings

lemma Advance.extends (h : Advance req cfg w x) : w.trail.bindings.Extends x.trail.bindings := by
  cases h with
  | reduce h => exact .refl _
  | assign h =>
    cases h with
    | bind _ hv _ => exact Bindings.extends_insert _ hv

theorem Reaches.extends (h : Reaches req cfg w x) : w.trail.bindings.Extends x.trail.bindings := by
  induction h with
  | refl => exact .refl _
  | tail _ hs ih => exact ih.trans hs.extends

lemma nodup_of_reaches (h : Reaches req cfg ⟨[g], .start .empty⟩ x) :
    (x.trail.bindings.entries.map Prod.fst).Nodup :=
  (Reaches.extends h).nodup List.nodup_nil

lemma Trail.bindings_refuse (tr : Trail) (why : Clash) : (tr.refuse why).bindings = tr.bindings := by
  cases why <;> rfl

lemma exists_last_of_run {r : Result} (h : run req cfg s g = some r) :
    ∃ y, Reaches req cfg ⟨[g], .start s⟩ y ∧ y.trail.bindings = r.trail.bindings ∧
      ∀ z, ¬ Advance req cfg y z := by
  cases run_eq_some_iff.mp h with
  | @done tr hx => exact ⟨_, hx, rfl, fun _ hz => by cases hz⟩
  | @clash g' rest tr why hx hg =>
    exact ⟨_, hx, (tr.bindings_refuse why).symm, fun _ => not_advance_of_clash hg⟩

lemma run_extends_through {r : Result} (h : run req cfg s g = some r)
    (hx : Reaches req cfg ⟨[g], .start s⟩ x) :
    s.Extends x.trail.bindings ∧ x.trail.bindings.Extends r.trail.bindings := by
  obtain ⟨y, hy, heq, hlast⟩ := exists_last_of_run h
  have hxy : Reaches req cfg x y := Reaches.of_halted hx hy hlast
  exact ⟨Reaches.extends hx, heq ▸ Reaches.extends hxy⟩

lemma lookup_of_run {r : Result} (h : run req cfg s g = some r) {v : Variable} {t : Term}
    (ht : s.lookup v = some t) : r.trail.bindings.lookup v = some t := by
  obtain ⟨y, hy, heq, _⟩ := exists_last_of_run h
  exact heq ▸ Reaches.lookup hy ht

theorem extends_of_run (req : Requirements) (cfg : Config) (s : Bindings) :
    (∀ g r, run req cfg s g = some r →
      s.Extends r.trail.bindings ∧
        (∀ x, Reaches req cfg ⟨[g], .start s⟩ x →
          s.Extends x.trail.bindings ∧ x.trail.bindings.Extends r.trail.bindings) ∧
        ∀ v t, s.lookup v = some t → r.trail.bindings.lookup v = some t) ∧
    ∀ v t ok s', bindVariable req cfg s v t = some (ok, s') →
      s.Extends s' ∧ ∀ w u, s.lookup w = some u → s'.lookup w = some u := by
  refine ⟨fun g r h => ?_, fun v t ok s' h => ?_⟩
  · exact ⟨(run_extends_through h .refl).2, fun x hx => run_extends_through h hx,
      fun v t => lookup_of_run h⟩
  · obtain ⟨r, hr, heq⟩ := Option.map_eq_some_iff.mp h
    obtain ⟨-, rfl⟩ := Prod.mk.inj heq
    exact ⟨(run_extends_through hr .refl).2, fun w u => lookup_of_run hr⟩

section Halfway

open Term (sequence var primitive)

def halfwayStart : Bindings :=
  .several [(⟨2⟩, primitive .nil), (⟨0⟩, sequence [var ⟨1⟩, var ⟨2⟩, var ⟨1⟩])]

def halfwayEnd : Bindings :=
  .several [(⟨2⟩, primitive .nil), (⟨0⟩, sequence [var ⟨1⟩, var ⟨2⟩, var ⟨1⟩]), (⟨1⟩, primitive (.long 5))]

def halfwayCandidate : Term :=
  sequence [primitive (.long 5), primitive .nil, primitive (.long 6)]

theorem extends_of_run_halfway :
    bindVariable (fun _ => none) .standard halfwayStart ⟨0⟩ halfwayCandidate = some (false, halfwayEnd) ∧
      halfwayStart.Extends halfwayEnd ∧
      halfwayEnd.lookup ⟨0⟩ = some (sequence [var ⟨1⟩, var ⟨2⟩, var ⟨1⟩]) := by
  have h : bindVariable (fun _ => none) .standard halfwayStart ⟨0⟩ halfwayCandidate =
      some (false, halfwayEnd) := rfl
  obtain ⟨hext, hkeep⟩ := (extends_of_run (fun _ => none) .standard halfwayStart).2 _ _ _ _ h
  exact ⟨h, hext, hkeep _ _ rfl⟩

end Halfway

end Unification
