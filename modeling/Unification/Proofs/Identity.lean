import Mathlib.Data.List.Induction
import Unification.Proofs.Labels
import Unification.Proofs.SortedEntries
import Unification.Session

namespace Unification

inductive Effect where
  | construct (handle : String)
  | clone (handle source : String)
  | idle

namespace Effect

def isConstruct : Effect → Bool
  | construct _ => true
  | _ => false

def enter {α : Type} (x : α) (hs : List (String × α)) : Effect → List (String × α)
  | construct handle => (handle, x) :: hs
  | clone handle source =>
    match hs.lookup source with
    | some y => (handle, y) :: hs
    | none => hs
  | idle => hs

def made (es : List Effect) : ℕ := es.countP isConstruct

def origins (es : List Effect) : List (String × ℕ) := es.zipIdx.foldl (fun hs e => e.1.enter e.2 hs) []

def origin (es : List Effect) (handle : String) : Option ℕ := (origins es).lookup handle

variable {α β : Type} {e : Effect} {es : List Effect} {handle : String} {m n : ℕ}

lemma made_concat (es : List Effect) (e : Effect) :
    made (es ++ [e]) = made es + if e.isConstruct then 1 else 0 := by
  rw [made, List.countP_append, List.countP_singleton, made]

lemma origins_concat (es : List Effect) (e : Effect) :
    origins (es ++ [e]) = e.enter es.length (origins es) := by
  simp [origins, List.zipIdx_append]

lemma mapValues_enter (f : α → β) (x : α) (hs : List (String × α)) (e : Effect) :
    Keyed.mapValues f (e.enter x hs) = e.enter (f x) (Keyed.mapValues f hs) := by
  cases e with
  | construct handle => rfl
  | clone handle source =>
    rw [enter, enter, Keyed.lookup_mapValues]
    cases hs.lookup source <;> rfl
  | idle => rfl

lemma mem_enter {x : α} {hs : List (String × α)} {p : String × α} (h : p ∈ e.enter x hs) :
    (e.isConstruct = true ∧ p.2 = x) ∨ ∃ q ∈ hs, q.2 = p.2 := by
  cases e with
  | construct handle =>
    rcases List.mem_cons.mp h with rfl | h
    · exact .inl ⟨rfl, rfl⟩
    · exact .inr ⟨p, h, rfl⟩
  | clone handle source =>
    rw [enter] at h
    cases hlookup : hs.lookup source with
    | none =>
      rw [hlookup] at h
      exact .inr ⟨p, h, rfl⟩
    | some y =>
      rw [hlookup] at h
      rcases List.mem_cons.mp h with rfl | h
      · obtain ⟨l₁, l₂, rfl, -⟩ := List.lookup_eq_some_iff.mp hlookup
        exact .inr ⟨(source, y), List.mem_append_right l₁ List.mem_cons_self, rfl⟩
      · exact .inr ⟨p, h, rfl⟩
  | idle => exact .inr ⟨p, h, rfl⟩

lemma exists_construct_of_mem_origins {p : String × ℕ} (h : p ∈ origins es) :
    ∃ e, es[p.2]? = some e ∧ e.isConstruct = true := by
  induction es using List.reverseRecOn generalizing p with
  | nil => cases h
  | append_singleton es e ih =>
    rw [origins_concat] at h
    rcases mem_enter h with ⟨he, hp⟩ | ⟨q, hq, hpq⟩
    · exact ⟨e, by rw [hp, List.getElem?_concat_length], he⟩
    · obtain ⟨e', he', hc⟩ := ih hq
      have hlt : q.2 < es.length := (List.getElem?_eq_some_iff.mp he').1
      exact ⟨e', by rw [← hpq, List.getElem?_append_left hlt, he'], hc⟩

lemma exists_construct_of_origin (h : origin es handle = some n) :
    ∃ e, es[n]? = some e ∧ e.isConstruct = true := by
  obtain ⟨l₁, l₂, heq, -⟩ := List.lookup_eq_some_iff.mp h
  have hmem : (handle, n) ∈ origins es := heq ▸ List.mem_append_right l₁ List.mem_cons_self
  exact exists_construct_of_mem_origins hmem

lemma made_take_lt (he : es[m]? = some e) (hc : e.isConstruct = true) (hmn : m < n) :
    made (es.take m) < made (es.take n) := by
  have hsucc : es.take (m + 1) = es.take m ++ [e] := by
    rw [List.take_add_one, he, Option.toList_some]
  have hmono : made (es.take (m + 1)) ≤ made (es.take n) :=
    (List.take_sublist_take_left hmn).countP_le
  rw [hsucc, made_concat, if_pos hc] at hmono
  omega

lemma made_take_inj {k : String} (hm : origin es handle = some m) (hn : origin es k = some n) :
    made (es.take m) = made (es.take n) ↔ m = n := by
  obtain ⟨e, he, hc⟩ := exists_construct_of_origin hm
  obtain ⟨e', he', hc'⟩ := exists_construct_of_origin hn
  refine ⟨fun h => ?_, fun h => h ▸ rfl⟩
  rcases Nat.lt_trichotomy m n with hlt | heq | hlt
  · have := made_take_lt he hc hlt
    omega
  · exact heq
  · have := made_take_lt he' hc' hlt
    omega

end Effect

namespace Session

open Effect (made origin origins)

inductive Action where
  | declare (handle name : String) (constraint : Option Constraint)
  | define (handle : String) (name : Option String) (body : List Term → Term)
  | clone (handle source : String)
  | cloneCallable (handle source : String)

namespace Action

def onVariables : Action → Effect
  | declare handle name _ => if Label.isSimple name then .construct handle else .idle
  | clone handle source => .clone handle source
  | _ => .idle

def onCallables : Action → Effect
  | define handle _ _ => .construct handle
  | cloneCallable handle source => .clone handle source
  | _ => .idle

end Action

def act (s : Session) : Action → Session
  | .declare handle name constraint =>
    match s.declare handle name constraint with
    | .ok (_, s') => s'
    | .error _ => s
  | .define handle name body => (s.define handle name body).2
  | .clone handle source =>
    match s.findVariable source with
    | some v => s.share handle v
    | none => s
  | .cloneCallable handle source =>
    match s.findCallable source with
    | some c => s.shareCallable handle c
    | none => s

def actAll (as : List Action) : Session := as.foldl act {}

variable {s : Session} {as : List Action} {handle name : String} {constraint : Option Constraint}

lemma actAll_concat (as : List Action) (a : Action) : actAll (as ++ [a]) = (actAll as).act a := by
  rw [actAll, List.foldl_append]
  rfl

lemma declare_of_simple (h : Label.Simple name) : s.declare handle name constraint =
    .ok (⟨s.registry.declarations.size⟩,
      { s with
        registry := { s.registry with declarations := s.registry.declarations.push ⟨name, constraint⟩ }
        variableHandles := (handle, ⟨s.registry.declarations.size⟩) :: s.variableHandles }) := by
  rw [declare, Registry.declare, Label.check_of_simple h]
  rfl

lemma declare_of_not_simple (s : Session) (handle : String) (constraint : Option Constraint)
    (h : ¬ Label.Simple name) : ∃ f, s.declare handle name constraint = .error f := by
  obtain ⟨f, hf⟩ := Label.check_of_not_simple h
  exact ⟨.ofLabel f, by rw [declare, Registry.declare, hf]; rfl⟩

lemma define_eq (s : Session) (handle : String) (name : Option String) (body : List Term → Term) :
    s.define handle name body = (⟨s.registry.routines.size⟩,
      { s with
        registry := { s.registry with routines := s.registry.routines.push ⟨name, body⟩ }
        callableHandles := (handle, ⟨s.registry.routines.size⟩) :: s.callableHandles }) := by
  rw [define, Registry.define_eq]
  rfl

theorem exists_declare_iff :
    (∃ r, s.declare handle name constraint = .ok r) ↔ Label.Simple name := by
  refine ⟨fun ⟨r, hr⟩ => ?_, fun h => ⟨_, declare_of_simple h⟩⟩
  by_contra h
  obtain ⟨f, hf⟩ := s.declare_of_not_simple handle constraint h
  cases hf.symm.trans hr

structure Numbers {α : Type} (size : Session → ℕ) (handles : Session → List (String × α)) (mk : ℕ → α)
    (effect : Action → Effect) : Prop where
  start : size {} = 0 ∧ handles {} = []
  act : ∀ s a, size (s.act a) = size s + (if (effect a).isConstruct then 1 else 0) ∧
    handles (s.act a) = (effect a).enter (mk (size s)) (handles s)

lemma numbers_variables : Numbers (fun s => s.registry.declarations.size) variableHandles Variable.mk
    Action.onVariables where
  start := ⟨rfl, rfl⟩
  act s a := by
    cases a with
    | declare handle name constraint =>
      by_cases h : Label.Simple name
      · simp [Session.act, declare_of_simple h, Action.onVariables, Label.isSimple_iff.mpr h,
          Effect.isConstruct, Effect.enter]
      · obtain ⟨f, hf⟩ := s.declare_of_not_simple handle constraint h
        simp [Session.act, hf, Action.onVariables, Label.isSimple_iff, h, Effect.isConstruct,
          Effect.enter]
    | define handle name body =>
      rw [Session.act, define_eq]
      exact ⟨rfl, rfl⟩
    | clone handle source =>
      rw [Session.act, Action.onVariables, Effect.enter, findVariable]
      cases s.variableHandles.lookup source <;> exact ⟨rfl, rfl⟩
    | cloneCallable handle source =>
      rw [Session.act]
      cases s.findCallable source <;> exact ⟨rfl, rfl⟩

lemma numbers_callables : Numbers (fun s => s.registry.routines.size) callableHandles Callable.mk
    Action.onCallables where
  start := ⟨rfl, rfl⟩
  act s a := by
    cases a with
    | declare handle name constraint =>
      by_cases h : Label.Simple name
      · simp [Session.act, declare_of_simple h, Action.onCallables, Effect.isConstruct, Effect.enter]
      · obtain ⟨f, hf⟩ := s.declare_of_not_simple handle constraint h
        simp [Session.act, hf, Action.onCallables, Effect.isConstruct, Effect.enter]
    | define handle name body =>
      simp [Session.act, define_eq, Action.onCallables, Effect.isConstruct, Effect.enter]
    | clone handle source =>
      rw [Session.act]
      cases s.findVariable source <;> exact ⟨rfl, rfl⟩
    | cloneCallable handle source =>
      rw [Session.act, Action.onCallables, Effect.enter, findCallable]
      cases s.callableHandles.lookup source <;> exact ⟨rfl, rfl⟩

section Numbers

variable {α : Type} {size : Session → ℕ} {handles : Session → List (String × α)} {mk : ℕ → α}
  {effect : Action → Effect} {h k : String} {x y : α}

lemma Numbers.size_actAll (hn : Numbers size handles mk effect) (as : List Action) :
    size (actAll as) = made (as.map effect) := by
  induction as using List.reverseRecOn with
  | nil => exact hn.start.1
  | append_singleton as a ih =>
    rw [actAll_concat, (hn.act _ a).1, ih, List.map_append, List.map_singleton, Effect.made_concat]

lemma Numbers.handles_actAll (hn : Numbers size handles mk effect) (as : List Action) :
    handles (actAll as) =
      Keyed.mapValues (fun n => mk (made ((as.map effect).take n))) (origins (as.map effect)) := by
  induction as using List.reverseRecOn with
  | nil => exact hn.start.2
  | append_singleton as a ih =>
    have hold : Keyed.mapValues (fun n => mk (made ((as.map effect ++ [effect a]).take n)))
        (origins (as.map effect)) = handles (actAll as) := by
      rw [ih]
      refine List.map_congr_left fun p hp => ?_
      obtain ⟨e, he, -⟩ := Effect.exists_construct_of_mem_origins hp
      dsimp only
      rw [List.take_append_of_le_length (List.getElem?_eq_some_iff.mp he).1.le]
    rw [actAll_concat, (hn.act _ a).2, List.map_append, List.map_singleton, Effect.origins_concat,
      Effect.mapValues_enter, hold, hn.size_actAll, List.take_left]

/-- After a history of one sort, what a handle denotes has the number of constructions before the one that
the handle goes back to. -/
structure Identified (find : String → Option α) (idOf : α → ℕ) (history : List Effect) : Prop where
  number : ∀ h, (find h).map idOf = (origin history h).map fun n => made (history.take n)
  below : ∀ h x, find h = some x → idOf x < made history
  same : ∀ h k x y, find h = some x → find k = some y → (x = y ↔ origin history h = origin history k)

lemma Numbers.find_actAll (hn : Numbers size handles mk effect) (as : List Action) (h : String) :
    (handles (actAll as)).lookup h =
      (origin (as.map effect) h).map fun n => mk (made ((as.map effect).take n)) := by
  rw [hn.handles_actAll, Keyed.lookup_mapValues, origin]

lemma Numbers.identified (hn : Numbers size handles mk effect) {idOf : α → ℕ}
    (hid : ∀ n, idOf (mk n) = n) (as : List Action) :
    Identified (fun h => (handles (actAll as)).lookup h) idOf (as.map effect) where
  number h := by
    rw [hn.find_actAll, Option.map_map]
    exact congrArg (Option.map · _) (funext fun n => hid _)
  below h x hx := by
    rw [hn.find_actAll] at hx
    obtain ⟨n, ho, rfl⟩ := Option.map_eq_some_iff.mp hx
    obtain ⟨e, he, hc⟩ := Effect.exists_construct_of_origin ho
    have hlt := Effect.made_take_lt he hc (List.getElem?_eq_some_iff.mp he).1
    rw [List.take_length] at hlt
    rwa [hid]
  same h k x y hx hy := by
    rw [hn.find_actAll] at hx hy
    obtain ⟨m, hm, rfl⟩ := Option.map_eq_some_iff.mp hx
    obtain ⟨n, hn, rfl⟩ := Option.map_eq_some_iff.mp hy
    rw [hm, hn, Option.some_inj, ← Effect.made_take_inj hm hn]
    exact ⟨fun heq => by simpa [hid] using congrArg idOf heq, congrArg mk⟩

end Numbers

theorem actAll_identified (as : List Action) :
    (∀ handle name constraint,
        ((∃ r, (actAll as).declare handle name constraint = .ok r) ↔ Label.Simple name) ∧
          (∀ v s', (actAll as).declare handle name constraint = .ok (v, s') →
            v.id = made (as.map Action.onVariables)) ∧
          (¬ Label.Simple name → (actAll as).act (.declare handle name constraint) = actAll as)) ∧
      (∀ handle name body,
        ((actAll as).define handle name body).1.id = made (as.map Action.onCallables)) ∧
      Identified (actAll as).findVariable Variable.id (as.map Action.onVariables) ∧
      Identified (actAll as).findCallable Callable.id (as.map Action.onCallables) ∧
      (∀ v w, (Term.var v).equals (.var w) = true ↔ v = w) ∧
      ∀ c d, (Term.callable c).equals (.callable d) = true ↔ c = d := by
  refine ⟨fun handle name constraint => ⟨exists_declare_iff, fun v s' h => ?_, fun h => ?_⟩,
    fun handle name body => ?_, numbers_variables.identified (fun _ => rfl) as,
    numbers_callables.identified (fun _ => rfl) as, fun v w => ?_, fun c d => ?_⟩
  · rw [declare_of_simple (exists_declare_iff.mp ⟨_, h⟩)] at h
    cases h
    exact numbers_variables.size_actAll as
  · obtain ⟨f, hf⟩ := (actAll as).declare_of_not_simple handle constraint h
    rw [act, hf]
  · rw [define_eq]
    exact numbers_callables.size_actAll as
  · simp [Term.equals]
  · simp [Term.equals]

section Workshop

def workshop : List Action :=
  [.declare "X" "1a" none, .declare "X" "a" none, .clone "Y" "X", .define "f" none fun _ => .wildcard,
    .declare "Z" "a" (some (.type .long)), .clone "W" "Y", .declare "X" "_$0" none, .clone "V" "U",
    .cloneCallable "g" "f", .define "f" (some "f") fun _ => .wildcard]

theorem actAll_identified_workshop :
    (∃ r, (actAll workshop).declare "T" "t" none = .ok r ∧ r.1.id = 3) ∧
      (¬ ∃ r, (actAll workshop).declare "T" "t-1" none = .ok r) ∧
      (actAll workshop).findVariable "W" = some ⟨0⟩ ∧
      origin (workshop.map Action.onVariables) "W" = origin (workshop.map Action.onVariables) "Y" ∧
      origin (workshop.map Action.onVariables) "W" ≠ origin (workshop.map Action.onVariables) "X" ∧
      origin (workshop.map Action.onCallables) "g" ≠ origin (workshop.map Action.onCallables) "f" := by
  obtain ⟨hdeclare, -, hv, hc, -⟩ := actAll_identified workshop
  have hW : (actAll workshop).findVariable "W" = some ⟨0⟩ := by decide
  have hY : (actAll workshop).findVariable "Y" = some ⟨0⟩ := by decide
  have hX : (actAll workshop).findVariable "X" = some ⟨2⟩ := by decide
  have hg : (actAll workshop).findCallable "g" = some ⟨0⟩ := by decide
  have hf : (actAll workshop).findCallable "f" = some ⟨1⟩ := by decide
  have hsimple : Label.Simple "t" := Label.isSimple_iff.mp (by decide)
  have hdash : ¬ Label.Simple "t-1" := Label.isSimple_iff.not.mp (by decide)
  obtain ⟨⟨v, s'⟩, hr⟩ := (hdeclare "T" "t" none).1.mpr hsimple
  exact ⟨⟨(v, s'), hr, (hdeclare "T" "t" none).2.1 v s' hr⟩,
    (hdeclare "T" "t-1" none).1.not.mpr hdash, hW, (hv.same _ _ _ _ hW hY).mp rfl,
    (hv.same _ _ _ _ hW hX).not.mp (by decide), (hc.same _ _ _ _ hg hf).not.mp (by decide)⟩

end Workshop

end Session

end Unification
