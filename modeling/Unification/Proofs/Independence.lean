import Unification.Proofs.Extension

/-! Pairs without a variable in common are compared as if each were alone. -/

namespace Unification

open Goal (ofSequences)
open Term (Occurs)

variable {req : Requirements} {cfg : Config} {s f : Bindings} {g : Goal} {gs rest : List Goal}
  {w w' x x' : Pending} {tr tr' : Trail} {t : Term} {v : Variable} {es : List (Variable × Term)}

def Term.Unbound (s : Bindings) (t : Term) : Prop := ∀ v, Occurs v t → s.lookup v = none

lemma Term.hereditary_unbound (s : Bindings) : Hereditary (Unbound s) := hereditary_forall_occurs _

lemma Bindings.lookup_of_entries_append {s' : Bindings} (h : f.entries = s.entries ++ s'.entries)
    (v : Variable) : f.lookup v = (s.lookup v).or (s'.lookup v) := by
  rw [lookup, h, List.lookup_append, lookup, lookup]

lemma Goal.step_congr_bindings (h : g.All fun t => ∀ v, Occurs v t → f.lookup v = s.lookup v) :
    g.step req cfg f = g.step req cfg s := by
  cases g with
  | unify a b => rfl
  | clash why => rfl
  | bind v t =>
    have hv : f.lookup v = s.lookup v := h.1 v (Term.occurs_var.mpr rfl)
    cases t with
    | wildcard => rfl
    | var u =>
      have hu : f.lookup u = s.lookup u := h.2 u (Term.occurs_var.mpr rfl)
      simp only [step, stepBind, settle, hv, hu]
    | _ => simp only [step, stepBind, settle, hv]

def OccursIn (v : Variable) (p : Term × Term) : Prop := Occurs v p.1 ∨ Occurs v p.2

def Apart (p q : Term × Term) : Prop := ∀ v, OccursIn v p → ¬ OccursIn v q

lemma Apart.symm {p q : Term × Term} (h : Apart p q) : Apart q p := fun v hq hp => h v hp hq

def Bindings.FreeFor (s : Bindings) (p : Term × Term) : Prop := ∀ v, OccursIn v p → s.lookup v = none

lemma Bindings.freeFor_empty (p : Term × Term) : empty.FreeFor p := fun _ _ => rfl

/-- The second state is the first with the entries of `s` before its own, where `s` has no variable that
the first has to do with. -/
structure Beside (s : Bindings) (w w' : Pending) : Prop where
  goals : w'.goals = w.goals
  entries : w'.trail.bindings.entries = s.entries ++ w.trail.bindings.entries
  unbound : w.All (Term.Unbound s)

namespace Beside

lemma step_eq (h : Beside s ⟨g :: rest, tr⟩ ⟨gs, tr'⟩) :
    g.step req cfg tr'.bindings = g.step req cfg tr.bindings := by
  have hlookup (t : Term) (ht : t.Unbound s) (v : Variable) (hv : Occurs v t) :
      tr'.bindings.lookup v = tr.bindings.lookup v := by
    rw [Bindings.lookup_of_entries_append h.entries, ht v hv, Option.none_or]
  apply Goal.step_congr_bindings
  have hg := h.unbound.goals g List.mem_cons_self
  cases g with
  | unify a b => exact ⟨hlookup a hg.1, hlookup b hg.2⟩
  | bind v t => exact ⟨hlookup _ hg.1, hlookup t hg.2⟩
  | clash why => trivial

lemma reduces_iff (h : Beside s ⟨g :: rest, tr⟩ ⟨g :: rest, tr'⟩) {hs : List Goal} :
    g.Reduces cfg tr'.bindings hs ↔ g.Reduces cfg tr.bindings hs := by
  have heq : g.step (fun _ => none) cfg tr'.bindings = g.step (fun _ => none) cfg tr.bindings := h.step_eq
  rw [← Goal.step_eq_reduce_iff, heq, Goal.step_eq_reduce_iff]

lemma assigns_iff (h : Beside s ⟨g :: rest, tr⟩ ⟨g :: rest, tr'⟩) :
    g.Assigns req tr'.bindings v t ↔ g.Assigns req tr.bindings v t := by
  have heq : g.step req .standard tr'.bindings = g.step req .standard tr.bindings := h.step_eq
  rw [← Goal.step_eq_assign_iff, heq, Goal.step_eq_assign_iff]

lemma reduce (h : Beside s ⟨g :: rest, tr⟩ ⟨g :: rest, tr'⟩) (hg : g.Reduces cfg tr.bindings gs) :
    Beside s ⟨gs ++ rest, tr⟩ ⟨gs ++ rest, tr'⟩ where
  goals := rfl
  entries := h.entries
  unbound := by
    have hstep : Advance (fun _ => none) cfg ⟨g :: rest, tr⟩ ⟨gs ++ rest, tr⟩ := .reduce hg
    exact hstep.all (Term.hereditary_unbound s) h.unbound

lemma assign (h : Beside s ⟨g :: rest, tr⟩ ⟨g :: rest, tr'⟩) (hg : g.Assigns req tr.bindings v t) :
    Beside s ⟨rest, tr.assign v t⟩ ⟨rest, tr'.assign v t⟩ where
  goals := rfl
  entries := by
    have hg' : g.Assigns req tr'.bindings v t := h.assigns_iff.mpr hg
    cases hg with
    | bind hc hv hu =>
      cases hg' with
      | bind hc' hv' hu' =>
        rw [Trail.assign, Trail.assign, Bindings.entries_insert_of_lookup_eq_none t hv',
          Bindings.entries_insert_of_lookup_eq_none t hv, h.entries, List.append_assoc]
  unbound := by
    have hstep : Advance req .standard ⟨g :: rest, tr⟩ ⟨rest, tr.assign v t⟩ := .assign hg
    exact hstep.all (Term.hereditary_unbound s) h.unbound

lemma start {p : Term × Term} (hp : tr.bindings.FreeFor p) :
    Beside tr.bindings ⟨[.unify p.1 p.2], .start .empty⟩ ⟨[.unify p.1 p.2], tr⟩ where
  goals := rfl
  entries := (List.append_nil _).symm
  unbound := Pending.all_start (fun v hv => hp v (.inl hv)) fun v hv => hp v (.inr hv)

end Beside

lemma Advance.beside (h : Advance req cfg w x) (hw : Beside s w w') :
    ∃ x', Advance req cfg w' x' ∧ Beside s x x' := by
  obtain ⟨gs', tr'⟩ := w'
  obtain rfl := hw.goals
  cases h with
  | reduce h => exact ⟨_, .reduce (hw.reduces_iff.mpr h), hw.reduce h⟩
  | assign h => exact ⟨_, .assign (hw.assigns_iff.mpr h), hw.assign h⟩

lemma Advance.of_beside (h : Advance req cfg w' x') (hw : Beside s w w') :
    ∃ x, Advance req cfg w x ∧ Beside s x x' := by
  obtain ⟨gs, tr⟩ := w
  have hgoals := hw.goals
  cases h with
  | reduce h =>
    obtain rfl := hgoals
    have h := hw.reduces_iff.mp h
    exact ⟨_, .reduce h, hw.reduce h⟩
  | assign h =>
    obtain rfl := hgoals
    have h := hw.assigns_iff.mp h
    exact ⟨_, .assign h, hw.assign h⟩

theorem Reaches.beside (h : Reaches req cfg w x) (hw : Beside s w w') :
    ∃ x', Reaches req cfg w' x' ∧ Beside s x x' := by
  refine exists_of_reflTransGen (fun hs hw => ?_) h hw
  obtain ⟨x', hx', hx⟩ := hs.beside hw
  exact ⟨x', .single hx', hx⟩

theorem Reaches.of_beside (h : Reaches req cfg w' x') (hw : Beside s w w') :
    ∃ x, Reaches req cfg w x ∧ Beside s x x' := by
  refine exists_of_reflTransGen (S := fun w' w => Beside s w w') (fun hs hw => ?_) h hw
  obtain ⟨x, hx, hxx'⟩ := hs.of_beside hw
  exact ⟨x, .single hx, hxx'⟩

def Outcome.entries : Outcome → List (Variable × Term)
  | unified s => s.entries
  | _ => []

lemma Reaches.occursIn {p : Term × Term} (h : Reaches req cfg ⟨[.unify p.1 p.2], .start .empty⟩ x)
    (ht : x.trail.bindings.lookup v = some t) : OccursIn v p := by
  have hstart : Pending.All (fun t => ∀ v, Occurs v t → OccursIn v p)
      ⟨[.unify p.1 p.2], .start .empty⟩ :=
    Pending.all_start (fun v => .inl) (fun v => .inr)
  have hall := h.all (Term.hereditary_forall_occurs _) hstart
  exact (hall.values v t ht).1 v (Term.occurs_var.mpr rfl)

lemma reaches_free_iff {p : Term × Term} (hp : tr.bindings.FreeFor p) :
    (∃ tr', Reaches req cfg ⟨[.unify p.1 p.2], tr⟩ ⟨[], tr'⟩ ∧ tr'.bindings.entries = es) ↔
      ∃ s, unify req cfg p.1 p.2 = .unified s ∧ tr.bindings.entries ++ s.entries = es := by
  have hbeside := Beside.start hp
  constructor
  · rintro ⟨tr', hrun, rfl⟩
    obtain ⟨⟨gs, tr₁⟩, hrun₁, hx⟩ := hrun.of_beside hbeside
    obtain rfl : [] = gs := hx.goals
    exact ⟨_, unify_eq_unified_iff.mpr ⟨tr₁, hrun₁, rfl⟩, hx.entries.symm⟩
  · rintro ⟨s, hs, rfl⟩
    obtain ⟨tr₁, hrun₁, rfl⟩ := unify_eq_unified_iff.mp hs
    obtain ⟨⟨gs, tr'⟩, hrun, hx⟩ := hrun₁.beside hbeside
    obtain rfl : gs = [] := hx.goals
    exact ⟨tr', hrun, hx.entries⟩

lemma exists_clash_of_free {p : Term × Term} {why : Clash} (hp : tr.bindings.FreeFor p)
    (h : unify req cfg p.1 p.2 = .mismatch why) (rest : List Goal) :
    ∃ r, Ends req cfg ⟨.unify p.1 p.2 :: rest, tr⟩ r := by
  obtain ⟨_, hends⟩ := unify_eq_mismatch_iff.mp h
  cases hends with
  | clash hrun hg =>
    obtain ⟨⟨gs, tr'⟩, hrun', hx⟩ := hrun.beside (Beside.start hp)
    obtain rfl := hx.goals
    exact ⟨_, .clash (hrun'.append rest) (hx.step_eq.trans hg)⟩

lemma Bindings.FreeFor.of_unify {p q : Term × Term} (hq : tr.bindings.FreeFor q) (hpq : Apart p q)
    (hs : unify req cfg p.1 p.2 = .unified s) (hf : f.entries = tr.bindings.entries ++ s.entries) :
    f.FreeFor q := by
  intro v hv
  obtain ⟨tr₁, hrun, rfl⟩ := unify_eq_unified_iff.mp hs
  have hnone : tr₁.bindings.lookup v = none := by
    by_contra hsome
    obtain ⟨t, ht⟩ := Option.ne_none_iff_exists'.mp hsome
    exact hpq v (hrun.occursIn ht) hv
  rw [lookup_of_entries_append hf, hq v hv, hnone, Option.none_or]

def Goal.ofPairs (ps : List (Term × Term)) : List Goal := ps.map fun p => .unify p.1 p.2

section Pairs

variable {ps : List (Term × Term)}

theorem reaches_pairs_iff (hap : ps.Pairwise Apart) (hfree : ∀ p ∈ ps, tr.bindings.FreeFor p) :
    (∃ tr', Reaches req cfg ⟨Goal.ofPairs ps, tr⟩ ⟨[], tr'⟩ ∧ tr'.bindings.entries = es) ↔
      (∀ p ∈ ps, ∃ s, unify req cfg p.1 p.2 = .unified s) ∧
        tr.bindings.entries ++ ps.flatMap (fun p => (unify req cfg p.1 p.2).entries) = es := by
  induction ps generalizing tr with
  | nil =>
    rw [List.flatMap_nil, List.append_nil, and_iff_right (by simp)]
    constructor
    · rintro ⟨tr', hrun, rfl⟩
      rw [Reaches.eq_of_nil hrun]
    · exact fun h => ⟨tr, .refl, h⟩
  | cons p ps ih =>
    obtain ⟨hp, hps⟩ := List.pairwise_cons.mp hap
    obtain ⟨hfirst, hrest⟩ := List.forall_mem_cons.mp hfree
    have hkeep {s : Bindings} {tr₁ : Trail} (hs : unify req cfg p.1 p.2 = .unified s)
        (hent : tr.bindings.entries ++ s.entries = tr₁.bindings.entries) :
        ∀ q ∈ ps, tr₁.bindings.FreeFor q :=
      fun q hq => (hrest q hq).of_unify (hp q hq) hs hent.symm
    constructor
    · rintro ⟨tr', hrun, rfl⟩
      obtain ⟨tr₁, hg, hgs⟩ := reaches_cons_iff.mp hrun
      obtain ⟨s, hs, hent⟩ := (reaches_free_iff hfirst).mp ⟨tr₁, hg, rfl⟩
      obtain ⟨hall, heq⟩ := (ih hps (hkeep hs hent)).mp ⟨tr', hgs, rfl⟩
      refine ⟨List.forall_mem_cons.mpr ⟨⟨s, hs⟩, hall⟩, ?_⟩
      rw [← heq, ← hent, List.flatMap_cons, hs, Outcome.entries, List.append_assoc]
    · rintro ⟨hall, hes⟩
      obtain ⟨⟨s, hs⟩, hall⟩ := List.forall_mem_cons.mp hall
      obtain ⟨tr₁, hg, hent⟩ := (reaches_free_iff hfirst).mpr ⟨s, hs, rfl⟩
      rw [List.flatMap_cons, hs, Outcome.entries, ← List.append_assoc, ← hent] at hes
      obtain ⟨tr', hgs, heq⟩ := (ih hps (hkeep hs hent.symm)).mpr ⟨hall, hes⟩
      exact ⟨tr', .cons hg hgs, heq⟩

lemma exists_ends_pairs (hap : ps.Pairwise Apart) (hfree : ∀ p ∈ ps, tr.bindings.FreeFor p)
    (h : ∀ p ∈ ps, unify req cfg p.1 p.2 ≠ .endless) :
    ∃ r, Ends req cfg ⟨Goal.ofPairs ps, tr⟩ r := by
  induction ps generalizing tr with
  | nil => exact ⟨_, .done .refl⟩
  | cons p ps ih =>
    obtain ⟨hp, hps⟩ := List.pairwise_cons.mp hap
    obtain ⟨hfirst, hrest⟩ := List.forall_mem_cons.mp hfree
    obtain ⟨hne, hnes⟩ := List.forall_mem_cons.mp h
    cases ho : unify req cfg p.1 p.2 with
    | endless => exact absurd ho hne
    | mismatch why => exact exists_clash_of_free hfirst ho _
    | unified s =>
      obtain ⟨tr₁, hg, hent⟩ := (reaches_free_iff hfirst).mpr ⟨s, ho, rfl⟩
      obtain ⟨r, hr⟩ := ih hps (fun q hq => (hrest q hq).of_unify (hp q hq) ho hent) hnes
      exact ⟨r, .of_reaches (hg.append _) hr⟩

def unifyPairs (req : Requirements) (cfg : Config) (ps : List (Term × Term)) : Outcome :=
  unify req cfg (.sequence (ps.map Prod.fst)) (.sequence (ps.map Prod.snd))

lemma reduces_pairs (s : Bindings) (ps : List (Term × Term)) :
    (Goal.unify (.sequence (ps.map Prod.fst)) (.sequence (ps.map Prod.snd))).Reduces cfg s
      (Goal.ofPairs ps) := by
  have heq : ofSequences (ps.map Prod.fst) (ps.map Prod.snd) = Goal.ofPairs ps := by
    simp [ofSequences, Goal.ofPairs, List.zipWith_map, List.zipWith_self]
  exact heq ▸ .compare (.sequences _ _)

lemma unifyPairs_eq_unified_iff (hap : ps.Pairwise Apart) :
    (∃ f, unifyPairs req cfg ps = .unified f ∧ f.entries = es) ↔
      (∀ p ∈ ps, ∃ s, unify req cfg p.1 p.2 = .unified s) ∧
        ps.flatMap (fun p => (unify req cfg p.1 p.2).entries) = es := by
  have hfree : ∀ p ∈ ps, (Trail.start .empty).bindings.FreeFor p := fun p _ => Bindings.freeFor_empty p
  refine Iff.trans ?_ (reaches_pairs_iff hap hfree)
  constructor
  · rintro ⟨f, hf, hes⟩
    obtain ⟨tr, hrun, rfl⟩ := unify_eq_unified_iff.mp hf
    exact ⟨tr, (reaches_iff_of_reduces (reduces_pairs _ ps)).mp hrun, hes⟩
  · rintro ⟨tr, hrun, hes⟩
    have hseq := (reaches_iff_of_reduces (reduces_pairs _ ps)).mpr hrun
    exact ⟨_, unify_eq_unified_iff.mpr ⟨tr, hseq, rfl⟩, hes⟩

lemma unifyPairs_succeeded_iff (hap : ps.Pairwise Apart) : (unifyPairs req cfg ps).succeeded = true ↔
    ∀ p ∈ ps, (unify req cfg p.1 p.2).succeeded = true := by
  simp only [Outcome.succeeded_iff]
  constructor
  · rintro ⟨f, hf⟩
    exact ((unifyPairs_eq_unified_iff hap).mp ⟨f, hf, rfl⟩).1
  · intro h
    obtain ⟨f, hf, -⟩ := (unifyPairs_eq_unified_iff hap).mpr ⟨h, rfl⟩
    exact ⟨f, hf⟩

lemma Bindings.lookup_eq_of_perm {s s' : Bindings} (hs : (s.entries.map Prod.fst).Nodup)
    (h : s.entries.Perm s'.entries) (v : Variable) : s'.lookup v = s.lookup v := by
  have hs' : (s'.entries.map Prod.fst).Nodup := (h.map Prod.fst).nodup_iff.mp hs
  refine Option.ext fun t => ?_
  rw [lookup, lookup, Keyed.lookup_eq_some_iff hs', Keyed.lookup_eq_some_iff hs, h.mem_iff]

theorem unifyPairs_of_apart (req : Requirements) (cfg : Config) (hap : ps.Pairwise Apart) :
    ((unifyPairs req cfg ps).succeeded = true ↔
      ∀ p ∈ ps, (unify req cfg p.1 p.2).succeeded = true) ∧
    (∀ f, unifyPairs req cfg ps = .unified f →
      f.entries = ps.flatMap fun p => (unify req cfg p.1 p.2).entries) ∧
    ((∀ p ∈ ps, unify req cfg p.1 p.2 ≠ .endless) → unifyPairs req cfg ps ≠ .endless) ∧
    ∀ qs, ps.Perm qs →
      (unifyPairs req cfg qs).succeeded = (unifyPairs req cfg ps).succeeded ∧
      ∀ f f', unifyPairs req cfg ps = .unified f → unifyPairs req cfg qs = .unified f' →
        ∀ v, f'.lookup v = f.lookup v := by
  refine ⟨unifyPairs_succeeded_iff hap, fun f hf => ?_, fun h => ?_, fun qs hperm => ?_⟩
  · exact ((unifyPairs_eq_unified_iff hap).mp ⟨f, hf, rfl⟩).2.symm
  · have hfree : ∀ p ∈ ps, (Trail.start .empty).bindings.FreeFor p := fun p _ => Bindings.freeFor_empty p
    obtain ⟨r, hr⟩ := exists_ends_pairs hap hfree h
    exact unify_ne_endless_iff.mpr ⟨r, .of_reaches (reaches_of_reduces (reduces_pairs _ ps) .refl) hr⟩
  · have hap' : qs.Pairwise Apart := hperm.pairwise hap Apart.symm
    refine ⟨Bool.eq_iff_iff.mpr ?_, fun f f' hf hf' => ?_⟩
    · rw [unifyPairs_succeeded_iff hap', unifyPairs_succeeded_iff hap]
      exact forall_congr' fun p => by rw [hperm.mem_iff]
    · have hes := ((unifyPairs_eq_unified_iff hap).mp ⟨f, hf, rfl⟩).2
      have hes' := ((unifyPairs_eq_unified_iff hap').mp ⟨f', hf', rfl⟩).2
      obtain ⟨tr, hrun, rfl⟩ := unify_eq_unified_iff.mp hf
      refine Bindings.lookup_eq_of_perm (nodup_of_reaches hrun) ?_
      rw [← hes, ← hes']
      exact hperm.flatMap_right _

end Pairs

section Columns

open Term (sequence record var primitive wildcard)

def columns : List (Term × Term) :=
  [(sequence [var ⟨0⟩, var ⟨0⟩], sequence [primitive (.string "a"), var ⟨1⟩]),
    (record [("k", var ⟨2⟩)], record [("k", sequence [var ⟨3⟩])]), (primitive .nil, wildcard),
    (primitive (.long 5), var ⟨4⟩)]

def columnsBindings : Bindings :=
  .several [(⟨0⟩, primitive (.string "a")), (⟨1⟩, primitive (.string "a")), (⟨2⟩, sequence [var ⟨3⟩]),
    (⟨4⟩, primitive (.long 5))]

def columnsReversed : Bindings :=
  .several [(⟨4⟩, primitive (.long 5)), (⟨2⟩, sequence [var ⟨3⟩]), (⟨0⟩, primitive (.string "a")),
    (⟨1⟩, primitive (.string "a"))]

theorem unifyPairs_of_apart_columns :
    columns.Pairwise Apart ∧
      unifyPairs (fun _ => none) .standard columns = .unified columnsBindings ∧
      unifyPairs (fun _ => none) .standard columns.reverse = .unified columnsReversed ∧
      (∀ p ∈ columns, (unify (fun _ => none) .standard p.1 p.2).succeeded = true) ∧
      columnsBindings.entries =
        columns.flatMap (fun p => (unify (fun _ => none) .standard p.1 p.2).entries) ∧
      ∀ v, columnsReversed.lookup v = columnsBindings.lookup v := by
  have hap : columns.Pairwise Apart := by
    simp [columns, Apart, OccursIn, Term.Occurs]
  obtain ⟨hiff, hentries, -, hperm⟩ := unifyPairs_of_apart (fun _ => none) .standard hap
  have hf : unifyPairs (fun _ => none) .standard columns = .unified columnsBindings := rfl
  have hr : unifyPairs (fun _ => none) .standard columns.reverse = .unified columnsReversed := rfl
  have hvalues := (hperm _ columns.reverse_perm.symm).2 _ _ hf hr
  exact ⟨hap, hf, hr, hiff.mp (hf ▸ rfl), hentries _ hf, hvalues⟩

end Columns

end Unification
