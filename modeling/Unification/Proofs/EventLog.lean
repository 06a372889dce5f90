import Unification.Proofs.Extension

namespace Unification

variable {req : Requirements} {cfg : Config} {a b : Term} {w x : Pending} {tr : Trail}

def Bindings.notices (s : Bindings) : List Notice := s.entries.map fun e => .progress (.bound e.1 e.2)

def Clash.notices : Clash → List Notice
  | rejected v t => [.progress (.rejected v t)]
  | _ => []

def Trail.InStep (tr : Trail) : Prop := tr.log = tr.bindings.entries.map fun e => .bound e.1 e.2

lemma Trail.InStep.notices (h : tr.InStep) : tr.log.map .progress = tr.bindings.notices := by
  rw [h, List.map_map]
  rfl

lemma Trail.notices_refuse (tr : Trail) (why : Clash) :
    (tr.refuse why).log.map .progress = tr.log.map .progress ++ why.notices := by
  cases why with
  | rejected v t => exact List.map_append
  | _ => exact (List.append_nil _).symm

lemma Trail.inStep_start : (Trail.start .empty).InStep := rfl

lemma Advance.inStep (h : Advance req cfg w x) (hw : w.trail.InStep) : x.trail.InStep := by
  cases h with
  | reduce h => exact hw
  | @assign g v t rest tr h =>
    cases h with
    | bind _ hv _ =>
      have hentries := Bindings.entries_insert_of_lookup_eq_none t hv
      rw [Trail.InStep, Trail.assign, hentries, List.map_append, ← hw]
      rfl

theorem Reaches.inStep (h : Reaches req cfg w x) (hw : w.trail.InStep) : x.trail.InStep :=
  h.preserves (fun hs => hs.inStep) hw

lemma notices_of_done (h : Reaches req cfg ⟨[.unify a b], .start .empty⟩ ⟨[], tr⟩) :
    notices req cfg a b = some (.started a b :: tr.bindings.notices) := by
  have hlog := (Reaches.inStep h Trail.inStep_start).notices
  rw [notices, run_eq_some_iff.mpr (.done h), Option.map_some]
  simp [Result.trail, Result.succeeded, hlog]

lemma notices_of_clash {g : Goal} {rest : List Goal} {why : Clash}
    (h : Reaches req cfg ⟨[.unify a b], .start .empty⟩ ⟨g :: rest, tr⟩)
    (hg : g.step req cfg tr.bindings = .clash why) :
    notices req cfg a b =
      some (.started a b :: tr.bindings.notices ++ (why.notices ++ [.failed])) := by
  have hlog := (Reaches.inStep h Trail.inStep_start).notices
  rw [notices, run_eq_some_iff.mpr (.clash h hg), Option.map_some]
  simp [Result.trail, Result.succeeded, tr.notices_refuse, hlog]

def Notice.line (n : Notice) : Severity × Option String × Option Variable :=
  (n.severity, n.message, n.subject)

def Clash.rejected? : Clash → Option Variable
  | rejected v _ => some v
  | _ => none

def progressLines (vs : List Variable) : List (Severity × Option String × Option Variable) :=
  (.trace, none, none) :: vs.map fun v => (.trace, none, some v)

def failureLines (why : Clash) : List (Severity × Option String × Option Variable) :=
  (why.rejected?.toList.map fun v => (.trace, some "type constraint rejected candidate", some v)) ++
    [(.debug, some "terms do not unify", none)]

lemma lines_notices (a b : Term) (s : Bindings) :
    (Notice.started a b :: s.notices).map Notice.line = progressLines (s.entries.map Prod.fst) := by
  rw [progressLines, List.map_cons, Bindings.notices, List.map_map, List.map_map]
  rfl

lemma lines_failed (why : Clash) : (why.notices ++ [Notice.failed]).map Notice.line = failureLines why := by
  cases why <;> rfl

theorem notices_of_unify (req : Requirements) (cfg : Config) (a b : Term) :
    (∀ s, unify req cfg a b = .unified s → (s.entries.map Prod.fst).Nodup ∧
      ∃ log, notices req cfg a b = some log ∧ log = .started a b :: s.notices ∧
        log.map Notice.line = progressLines (s.entries.map Prod.fst)) ∧
    ∀ why, unify req cfg a b = .mismatch why → ∃ tr,
      run req cfg .empty (.unify a b) = some (.clash why tr) ∧
        (tr.bindings.entries.map Prod.fst).Nodup ∧
        ∃ log, notices req cfg a b = some log ∧
          log = .started a b :: tr.bindings.notices ++ (why.notices ++ [.failed]) ∧
          log.map Notice.line = progressLines (tr.bindings.entries.map Prod.fst) ++ failureLines why := by
  refine ⟨fun s hs => ?_, fun why hwhy => ?_⟩
  · obtain ⟨tr, hx, rfl⟩ := unify_eq_unified_iff.mp hs
    exact ⟨nodup_of_reaches hx, _, notices_of_done hx, rfl, lines_notices a b _⟩
  · obtain ⟨_, hends⟩ := unify_eq_mismatch_iff.mp hwhy
    cases hends with
    | @clash g rest tr _ hx hg =>
      have hlog := notices_of_clash hx hg
      refine ⟨tr.refuse why, run_eq_some_iff.mpr (.clash hx hg), ?_, ?_⟩
      · rw [tr.bindings_refuse]
        exact nodup_of_reaches hx
      · rw [tr.bindings_refuse]
        refine ⟨_, hlog, rfl, ?_⟩
        rw [List.map_append, lines_notices, lines_failed]

section Refused

open Term (sequence record var primitive)

def refusedPattern : Term := sequence [var ⟨0⟩, record [("_", var ⟨1⟩)], var ⟨2⟩, var ⟨3⟩]

def refusedData : Term :=
  sequence [primitive (.long 1), record [("p", var ⟨0⟩), ("q", primitive (.long 1))],
    sequence [var ⟨3⟩], primitive .nil]

def refusedRequirements : Requirements := fun v => if v = ⟨3⟩ then some (.type .string) else none

def acceptedBindings : Bindings :=
  .several [(⟨0⟩, primitive (.long 1)), (⟨1⟩, primitive (.long 1)), (⟨2⟩, sequence [var ⟨3⟩]),
    (⟨3⟩, primitive .nil)]

theorem notices_of_unify_refused :
    (unify (fun _ => none) .standard refusedPattern refusedData = .unified acceptedBindings ∧
      ∃ log, notices (fun _ => none) .standard refusedPattern refusedData = some log ∧
        log.map Notice.line = progressLines [⟨0⟩, ⟨1⟩, ⟨2⟩, ⟨3⟩]) ∧
    unify refusedRequirements .standard refusedPattern refusedData =
        .mismatch (.rejected ⟨3⟩ (primitive .nil)) ∧
      ∃ tr log, run refusedRequirements .standard .empty (.unify refusedPattern refusedData) =
          some (.clash (.rejected ⟨3⟩ (primitive .nil)) tr) ∧
        notices refusedRequirements .standard refusedPattern refusedData = some log ∧
        log.map Notice.line = progressLines (tr.bindings.entries.map Prod.fst) ++
          [(.trace, some "type constraint rejected candidate", some ⟨3⟩),
            (.debug, some "terms do not unify", none)] := by
  have hok : unify (fun _ => none) .standard refusedPattern refusedData = .unified acceptedBindings := rfl
  have hrefused : unify refusedRequirements .standard refusedPattern refusedData =
      .mismatch (.rejected ⟨3⟩ (primitive .nil)) := rfl
  obtain ⟨hsuccess, -⟩ := notices_of_unify (fun _ => none) .standard refusedPattern refusedData
  obtain ⟨-, hfailure⟩ := notices_of_unify refusedRequirements .standard refusedPattern refusedData
  obtain ⟨-, log, hlog, -, hlines⟩ := hsuccess _ hok
  obtain ⟨tr, hrun, -, log', hlog', -, hlines'⟩ := hfailure _ hrefused
  exact ⟨⟨hok, log, hlog, hlines⟩, hrefused, tr, log', hrun, hlog', hlines'⟩

end Refused

end Unification
