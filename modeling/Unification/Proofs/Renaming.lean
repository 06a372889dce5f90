import Mathlib.Logic.Equiv.Basic
import Unification.Proofs.DepthBound
import Unification.Registry

namespace Unification

open Term (Hereditary Occurs)

structure Renaming where
  onVariable : Variable → Variable
  onCallable : Callable → Callable

variable (ρ : Renaming)

namespace Term

mutual

def rename (ρ : Renaming) : Term → Term
  | var v => var (ρ.onVariable v)
  | callable c => callable (ρ.onCallable c)
  | sequence ts => sequence (renameItems ρ ts)
  | record es => record (renameEntries ρ es)
  | t => t

def renameItems (ρ : Renaming) : List Term → List Term
  | [] => []
  | t :: ts => rename ρ t :: renameItems ρ ts

def renameEntries (ρ : Renaming) : List (String × Term) → List (String × Term)
  | [] => []
  | (k, t) :: es => (k, rename ρ t) :: renameEntries ρ es

end

lemma renameItems_eq (ts : List Term) : renameItems ρ ts = ts.map (rename ρ) :=
  eq_map_of_cons rfl (fun _ _ => rfl) ts

lemma renameEntries_eq (es : List (String × Term)) :
    renameEntries ρ es = Keyed.mapValues (rename ρ) es :=
  eq_map_of_cons rfl (fun _ _ => rfl) es

@[simp] lemma rename_var (v : Variable) : (var v).rename ρ = var (ρ.onVariable v) := rfl
@[simp] lemma rename_callable (c : Callable) : (callable c).rename ρ = callable (ρ.onCallable c) := rfl
@[simp] lemma rename_primitive (p : Primitive) : (primitive p).rename ρ = primitive p := rfl
@[simp] lemma rename_wildcard : wildcard.rename ρ = wildcard := rfl

@[simp] lemma rename_sequence (ts : List Term) :
    (sequence ts).rename ρ = sequence (ts.map (rename ρ)) := by
  rw [rename, renameItems_eq]

@[simp] lemma rename_record (es : List (String × Term)) :
    (record es).rename ρ = record (Keyed.mapValues (rename ρ) es) := by
  rw [rename, renameEntries_eq]

lemma parts_rename (t : Term) : (t.rename ρ).parts = t.parts.map (rename ρ) := by
  induction t using induction_children with
  | sequence ts ih =>
    rw [rename_sequence, parts_sequence, parts_sequence, List.map_cons, rename_sequence,
      List.flatMap_map, List.map_flatMap]
    exact congrArg (List.cons _) (List.flatMap_congr ih)
  | record es ih =>
    rw [rename_record, parts_record, parts_record, List.map_cons, rename_record, Keyed.mapValues,
      List.flatMap_map, List.map_flatMap]
    exact congrArg (List.cons _) (List.flatMap_congr ih)
  | primitive p | callable c | var v | wildcard => rfl

@[simp] lemma size_rename (t : Term) : (t.rename ρ).size = t.size := by
  rw [← length_parts, parts_rename, List.length_map, length_parts]

end Term

lemma TypeDescriptor.of_rename (t : Term) : of (t.rename ρ) = of t := by
  cases t <;> rfl

def Clash.rename : Clash → Clash
  | kinds a b => kinds (a.rename ρ) (b.rename ρ)
  | callables c d => callables (ρ.onCallable c) (ρ.onCallable d)
  | unbound v w => unbound (ρ.onVariable v) (ρ.onVariable w)
  | rejected v t => rejected (ρ.onVariable v) (t.rename ρ)
  | primitives p q => primitives p q
  | lengths m n => lengths m n
  | keys left right => keys left right
  | idle key => idle key

def Goal.rename : Goal → Goal
  | unify a b => unify (a.rename ρ) (b.rename ρ)
  | bind v t => bind (ρ.onVariable v) (t.rename ρ)
  | clash why => clash (why.rename ρ)

def Step.rename : Step → Step
  | reduce goals => reduce (goals.map (Goal.rename ρ))
  | assign v t => assign (ρ.onVariable v) (t.rename ρ)
  | clash why => clash (why.rename ρ)

def Event.rename : Event → Event
  | bound v t => bound (ρ.onVariable v) (t.rename ρ)
  | rejected v t => rejected (ρ.onVariable v) (t.rename ρ)

def renameEntry (e : Variable × Term) : Variable × Term := (ρ.onVariable e.1, e.2.rename ρ)

def Bindings.rename : Bindings → Bindings
  | empty => empty
  | single v t => single (ρ.onVariable v) (t.rename ρ)
  | several es => several (es.map (renameEntry ρ))

def Trail.rename (tr : Trail) : Trail := ⟨tr.bindings.rename ρ, tr.log.map (Event.rename ρ)⟩

def Result.rename : Result → Result
  | done tr => done (tr.rename ρ)
  | clash why tr => clash (why.rename ρ) (tr.rename ρ)

def Outcome.rename : Outcome → Outcome
  | unified s => unified (s.rename ρ)
  | mismatch why => mismatch (why.rename ρ)
  | endless => endless

lemma lifts_rename : Goal.Lifts (Term.rename ρ) (Goal.rename ρ) := by
  constructor <;> intros <;> rfl

lemma Bindings.entries_rename (s : Bindings) : (s.rename ρ).entries = s.entries.map (renameEntry ρ) := by
  cases s <;> rfl

lemma Bindings.weight_rename (s : Bindings) : (s.rename ρ).weight = s.weight := by
  simp only [weight, entries_rename, List.foldr_map, renameEntry, Term.size_rename]

lemma depthBound_rename (s : Bindings) (g : Goal) :
    depthBound (s.rename ρ) (g.rename ρ) = depthBound s g := by
  have hg : (g.rename ρ).size = g.size := by
    cases g <;> simp [Goal.rename, Goal.size]
  rw [depthBound, depthBound, hg, s.weight_rename]

lemma Trail.rename_refuse (tr : Trail) (why : Clash) :
    (tr.refuse why).rename ρ = (tr.rename ρ).refuse (why.rename ρ) := by
  cases why <;> simp [refuse, rename, Clash.rename, Event.rename]

variable {ρ} {req req' : Requirements} {cfg : Config} {p : Term → Prop} {a b t : Term} {v : Variable}
  {s : Bindings} {g : Goal}

inductive Constraint.Carried (ρ : Renaming) (p : Term → Prop) :
    Option Constraint → Option Constraint → Prop
  | none : Carried ρ p none none
  | type (expected : TypeDescriptor) : Carried ρ p (some (.type expected)) (some (.type expected))
  | predicate {f f' : Term → Bool} (h : ∀ t, p t → f' (t.rename ρ) = f t) :
      Carried ρ p (some (.predicate f)) (some (.predicate f'))

/-- On the terms with the property the renaming identifies nothing, and the constraints go with it. -/
structure Renaming.Carries (ρ : Renaming) (p : Term → Prop) (req req' : Requirements) : Prop where
  onVariable_injective : ∀ v w, p (.var v) → p (.var w) → ρ.onVariable v = ρ.onVariable w → v = w
  onCallable_injective : ∀ c d, p (.callable c) → p (.callable d) →
    ρ.onCallable c = ρ.onCallable d → c = d
  carried : ∀ v, p (.var v) → Constraint.Carried ρ p (req v) (req' (ρ.onVariable v))

lemma Bindings.All.keys (hs : s.All p) : ∀ e ∈ s.entries, p (.var e.1) := by
  intro e he
  have hsome : (s.lookup e.1).isSome := List.lookup_isSome_iff.mpr ⟨e, he, beq_self_eq_true _⟩
  obtain ⟨u, hu⟩ := Option.isSome_iff_exists.mp hsome
  exact (hs _ u hu).1

lemma solveAll_rename {n : ℕ} (hp : Hereditary p)
    (ih : ∀ g tr, Pending.All p ⟨[g], tr⟩ →
      solve req' cfg n (g.rename ρ) (tr.rename ρ) = (solve req cfg n g tr).map (Result.rename ρ))
    {gs : List Goal} {tr : Trail} (hw : Pending.All p ⟨gs, tr⟩) :
    solveAll (solve req' cfg n) (gs.map (Goal.rename ρ)) (tr.rename ρ) =
      (solveAll (solve req cfg n) gs tr).map (Result.rename ρ) := by
  induction gs generalizing tr with
  | nil => rfl
  | cons g gs ihgs =>
    obtain ⟨hg, hgs⟩ := List.forall_mem_cons.mp hw.goals
    have hstart : Pending.All p ⟨[g], tr⟩ := ⟨List.forall_mem_singleton.mpr hg, hw.values⟩
    rw [List.map_cons, solveAll, solveAll, ih g tr hstart]
    cases hr : solve req cfg n g tr with
    | none => rfl
    | some r =>
      cases r with
      | clash why tr' => rfl
      | done tr' =>
        cases ends_of_solve hr with
        | done hx => exact ihgs ⟨hgs, (Reaches.all hp hx hstart).values⟩

namespace Renaming.Carries

variable (hρ : ρ.Carries p req req')

include hρ

lemma onVariable_eq_iff {w : Variable} (hv : p (.var v)) (hw : p (.var w)) :
    ρ.onVariable v = ρ.onVariable w ↔ v = w :=
  ⟨hρ.onVariable_injective v w hv hw, congrArg _⟩

lemma onCallable_eq_iff {c d : Callable} (hc : p (.callable c)) (hd : p (.callable d)) :
    ρ.onCallable c = ρ.onCallable d ↔ c = d :=
  ⟨hρ.onCallable_injective c d hc hd, congrArg _⟩

lemma accept_rename (hv : p (.var v)) (ht : p t) :
    req'.accept (ρ.onVariable v) (t.rename ρ) = req.accept v t := by
  have hc := hρ.carried v hv
  rw [Requirements.accept, Requirements.accept]
  generalize req v = c, req' (ρ.onVariable v) = c' at hc
  cases hc with
  | none => rfl
  | type expected => simp only [Constraint.satisfiedBy, TypeDescriptor.of_rename]
  | predicate h => exact h t ht

lemma lookup_rename (hs : s.All p) (hv : p (.var v)) :
    (s.rename ρ).lookup (ρ.onVariable v) = (s.lookup v).map (Term.rename ρ) := by
  have hkeys := hs.keys
  rw [Bindings.lookup, Bindings.lookup, Bindings.entries_rename]
  generalize s.entries = es at hkeys
  induction es with
  | nil => rfl
  | cons e es ih =>
    obtain ⟨he, hes⟩ := List.forall_mem_cons.mp hkeys
    obtain ⟨w, u⟩ := e
    simp only [List.map_cons, renameEntry, Keyed.lookup_cons_eq_ite, hρ.onVariable_eq_iff hv he, ih hes]
    split <;> rfl

lemma insert_rename (hs : s.All p) (hv : p (.var v)) :
    (s.insert v t).rename ρ = (s.rename ρ).insert (ρ.onVariable v) (t.rename ρ) := by
  have hkeys := hs.keys
  cases s with
  | empty => rfl
  | single w u =>
    have hiff : ρ.onVariable w = ρ.onVariable v ↔ w = v :=
      hρ.onVariable_eq_iff (hkeys (w, u) List.mem_cons_self) hv
    simp only [Bindings.insert, Bindings.rename, hiff]
    by_cases hw : w = v <;> simp [hw, renameEntry]
  | several es =>
    refine congrArg Bindings.several ?_
    dsimp only [Bindings.entries] at hkeys
    clear hs
    induction es with
    | nil => rfl
    | cons e es ih =>
      obtain ⟨he, hes⟩ := List.forall_mem_cons.mp hkeys
      simp only [Bindings.put, List.map_cons, renameEntry, hρ.onVariable_eq_iff he hv]
      split
      · rfl
      · exact congrArg _ (ih hes)

lemma stepUnify_rename (ha : p a) (hb : p b) :
    Goal.stepUnify cfg (a.rename ρ) (b.rename ρ) = (Goal.stepUnify cfg a b).rename ρ := by
  cases a with
  | wildcard => rfl
  | var v => cases b <;> rfl
  | sequence xs =>
    cases b with
    | sequence ys =>
      simp only [Term.rename_sequence, Goal.stepUnify, (lifts_rename ρ).ofSequences, Step.rename]
    | _ => rfl
  | record es =>
    cases b with
    | record fs =>
      simp only [Term.rename_record, Goal.stepUnify, (lifts_rename ρ).ofRecords, Step.rename]
    | _ => rfl
  | callable c =>
    cases b with
    | callable d =>
      simp only [Term.rename_callable, Goal.stepUnify, hρ.onCallable_eq_iff ha hb]
      split <;> rfl
    | _ => rfl
  | primitive q =>
    cases b with
    | primitive q' =>
      simp only [Term.rename_primitive, Goal.stepUnify]
      split <;> rfl
    | _ => rfl

lemma settle_rename (hs : s.All p) (hv : p (.var v)) (ht : p t) :
    Goal.settle req' (s.rename ρ) (ρ.onVariable v) (t.rename ρ) =
      (Goal.settle req s v t).rename ρ := by
  rw [Goal.settle, Goal.settle, hρ.lookup_rename hs hv]
  cases s.lookup v with
  | some u => rfl
  | none =>
    simp only [Option.map_none, hρ.accept_rename hv ht]
    split <;> rfl

lemma stepBind_rename (hs : s.All p) (hv : p (.var v)) (ht : p t) :
    Goal.stepBind req' (s.rename ρ) (ρ.onVariable v) (t.rename ρ) =
      (Goal.stepBind req s v t).rename ρ := by
  cases t with
  | wildcard => rfl
  | var w =>
    rw [Term.rename_var, Goal.stepBind, Goal.stepBind, hρ.lookup_rename hs ht, hρ.lookup_rename hs hv]
    cases hw : s.lookup w with
    | some u => exact hρ.settle_rename hs hv (hs w u hw).2
    | none => cases s.lookup v <;> rfl
  | _ => exact hρ.settle_rename hs hv ht

lemma step_rename (hs : s.All p) (hg : g.All p) :
    (g.rename ρ).step req' cfg (s.rename ρ) = (g.step req cfg s).rename ρ := by
  cases g with
  | unify a b => exact hρ.stepUnify_rename hg.1 hg.2
  | bind v t => exact hρ.stepBind_rename hs hg.1 hg.2
  | clash why => rfl

lemma assign_rename {tr : Trail} (hs : tr.bindings.All p) (hv : p (.var v)) :
    (tr.assign v t).rename ρ = (tr.rename ρ).assign (ρ.onVariable v) (t.rename ρ) := by
  rw [Trail.assign, Trail.rename, hρ.insert_rename hs hv, List.map_append]
  rfl

theorem solve_rename (hp : Hereditary p) (n : ℕ) (g : Goal) (tr : Trail)
    (hw : Pending.All p ⟨[g], tr⟩) :
    solve req' cfg n (g.rename ρ) (tr.rename ρ) = (solve req cfg n g tr).map (Result.rename ρ) := by
  induction n generalizing g tr with
  | zero => rfl
  | succ n ih =>
    have hg : g.All p := hw.goals g List.mem_cons_self
    have hstep : (g.rename ρ).step req' cfg (tr.rename ρ).bindings =
        (g.step req cfg tr.bindings).rename ρ :=
      hρ.step_rename hw.values hg
    rw [solve, solve, hstep]
    cases hs : g.step req cfg tr.bindings with
    | reduce gs =>
      have hgs := (Goal.step_eq_reduce_iff.mp hs).all hp hw.values hg
      exact solveAll_rename hp ih ⟨hgs, hw.values⟩
    | assign v t =>
      have hv : p (.var v) := by
        cases Goal.step_eq_assign_iff.mp hs with
        | bind => exact hg.1
      simp only [Step.rename, Option.map_some, Result.rename, hρ.assign_rename hw.values hv]
    | clash why => simp only [Step.rename, Option.map_some, Result.rename, Trail.rename_refuse]

theorem run_rename (hp : Hereditary p) (hs : s.All p) (hg : g.All p) :
    run req' cfg (s.rename ρ) (g.rename ρ) = (run req cfg s g).map (Result.rename ρ) := by
  rw [run, run, depthBound_rename]
  exact hρ.solve_rename hp _ g (.start s) ⟨List.forall_mem_singleton.mpr hg, hs⟩

lemma outcome_rename (cfg : Config) (hp : Hereditary p) (ha : p a) (hb : p b) :
    unify req' cfg (a.rename ρ) (b.rename ρ) = (unify req cfg a b).rename ρ := by
  have hrun : run req' cfg .empty (.unify (a.rename ρ) (b.rename ρ)) =
      (run req cfg .empty (.unify a b)).map (Result.rename ρ) :=
    hρ.run_rename (s := .empty) (g := .unify a b) hp (Bindings.all_empty p) ⟨ha, hb⟩
  rw [unify, unify, hrun]
  cases run req cfg .empty (.unify a b) with
  | none => rfl
  | some r => cases r <;> rfl

end Renaming.Carries

theorem unify_rename {r r' : Registry} (cfg : Config)
    (hρ : ρ.Carries (· ∈ a.parts ++ b.parts) r.constraintOf r'.constraintOf) :
    unify r'.constraintOf cfg (a.rename ρ) (b.rename ρ) = (unify r.constraintOf cfg a b).rename ρ ∧
      ((unify r'.constraintOf cfg (a.rename ρ) (b.rename ρ)).succeeded = true ↔
        (unify r.constraintOf cfg a b).succeeded = true) ∧
      ∀ s, unify r.constraintOf cfg a b = .unified s →
        ∃ s', unify r'.constraintOf cfg (a.rename ρ) (b.rename ρ) = .unified s' ∧
          s'.entries = s.entries.map (fun e => (ρ.onVariable e.1, e.2.rename ρ)) ∧
          ∀ v, Occurs v a ∨ Occurs v b →
            s'.lookup (ρ.onVariable v) = (s.lookup v).map (Term.rename ρ) := by
  have hp : Hereditary (· ∈ a.parts ++ b.parts) := by
    simpa using Term.hereditary_mem_parts [a, b]
  have ha : a ∈ a.parts ++ b.parts := List.mem_append_left _ a.self_mem_parts
  have hb : b ∈ a.parts ++ b.parts := List.mem_append_right _ b.self_mem_parts
  have heq := hρ.outcome_rename cfg hp ha hb
  refine ⟨heq, ?_, fun s hs => ⟨s.rename ρ, by rw [heq, hs, Outcome.rename], s.entries_rename ρ, ?_⟩⟩
  · rw [heq]
    cases unify r.constraintOf cfg a b <;> rfl
  · obtain ⟨tr, hrun, rfl⟩ := unify_eq_unified_iff.mp hs
    have hall := (Reaches.all hp hrun (Pending.all_start ha hb)).values
    exact fun v hv => hρ.lookup_rename hall (List.mem_append.mpr hv)

section Namesakes

open Term (sequence record primitive callable var)

def isRecord (t : Term) : Bool := t.kind == .record

def distinctNames : Registry where
  declarations := #[⟨"x", some (.type .long)⟩, ⟨"y", some (.predicate isRecord)⟩, ⟨"z", none⟩]

def sameNames : Registry where
  declarations := #[⟨"n", none⟩, ⟨"n", some (.predicate isRecord)⟩, ⟨"n", some (.type .long)⟩]

def crossing : Renaming := ⟨Equiv.swap ⟨0⟩ ⟨2⟩, fun c => ⟨c.id + 7⟩⟩

def namesakesLeft : Term := sequence [var ⟨0⟩, var ⟨1⟩, callable ⟨0⟩, var ⟨2⟩]

def namesakesRight : Term :=
  sequence [primitive (.long 1), record [("k", var ⟨2⟩)], callable ⟨0⟩, callable ⟨1⟩]

lemma carries_crossing :
    crossing.Carries (· ∈ namesakesLeft.parts ++ namesakesRight.parts) distinctNames.constraintOf
      sameNames.constraintOf where
  onVariable_injective v w _ _ h := (Equiv.swap (⟨0⟩ : Variable) ⟨2⟩).injective h
  onCallable_injective c d _ _ h := by
    cases c
    cases d
    simpa [crossing] using h
  carried v hv := by
    have hids : v = ⟨0⟩ ∨ v = ⟨1⟩ ∨ v = ⟨2⟩ := by
      simp [namesakesLeft, namesakesRight] at hv
      tauto
    rcases hids with rfl | rfl | rfl
    · exact .type .long
    · exact .predicate fun t _ => by cases t <;> rfl
    · exact .none

def namesakesBindings : Bindings :=
  .several [(⟨0⟩, primitive (.long 1)), (⟨1⟩, record [("k", var ⟨2⟩)]), (⟨2⟩, callable ⟨1⟩)]

theorem unify_rename_namesakes :
    crossing.Carries (· ∈ namesakesLeft.parts ++ namesakesRight.parts) distinctNames.constraintOf
        sameNames.constraintOf ∧
      unify distinctNames.constraintOf .standard namesakesLeft namesakesRight =
        .unified namesakesBindings ∧
      ∃ s', unify sameNames.constraintOf .standard (namesakesLeft.rename crossing)
          (namesakesRight.rename crossing) = .unified s' ∧
        s'.entries = [(⟨2⟩, primitive (.long 1)), (⟨1⟩, record [("k", var ⟨0⟩)]), (⟨0⟩, callable ⟨8⟩)] ∧
        s'.lookup ⟨0⟩ = some (callable ⟨8⟩) := by
  have hunified : unify distinctNames.constraintOf .standard namesakesLeft namesakesRight =
      .unified namesakesBindings := rfl
  obtain ⟨-, -, hcarry⟩ := unify_rename .standard carries_crossing
  obtain ⟨s', hs', hentries, hlookup⟩ := hcarry _ hunified
  have hz : Occurs ⟨2⟩ namesakesLeft := by simp [namesakesLeft]
  exact ⟨carries_crossing, hunified, s', hs', hentries, hlookup ⟨2⟩ (.inl hz)⟩

end Namesakes

end Unification
