import Unification.Proofs.Runs

namespace Unification

open Term (Hereditary)

def Term.Concrete (t : Term) : Prop := t.isVariable = false ∧ t.isWildcard = false

def Goal.Sides (p q : Term → Prop) : Goal → Prop
  | unify a b => p a ∧ q b
  | bind v t => p (.var v) ∧ q t
  | clash _ => True

abbrev Goal.All (p : Term → Prop) : Goal → Prop := Goal.Sides p p

lemma Goal.sides_of_isClash {p q : Term → Prop} {g : Goal} (h : g.isClash = true) : g.Sides p q := by
  cases g with
  | clash why => trivial
  | _ => cases h

namespace Bindings

def All (p : Term → Prop) (s : Bindings) : Prop := ∀ v t, s.lookup v = some t → p (.var v) ∧ p t

def Concrete (s : Bindings) : Prop := ∀ v t, s.lookup v = some t → t.Concrete

@[simp] lemma lookup_empty (v : Variable) : empty.lookup v = none := rfl

lemma all_empty (p : Term → Prop) : empty.All p := by
  simp [All]

lemma concrete_empty : empty.Concrete := by
  simp [Concrete]

lemma All.candidate {p : Term → Prop} {s : Bindings} {t u : Term} (hs : s.All p) (ht : p t)
    (hu : s.candidate t = some u) : p u := by
  cases t with
  | wildcard => cases hu
  | var w => exact (hs w u hu).2
  | _ =>
    cases hu
    exact ht

lemma All.insert {p : Term → Prop} {s : Bindings} {v : Variable} {t : Term} (hs : s.All p)
    (hv : p (.var v)) (ht : p t) : (s.insert v t).All p := by
  intro w u hu
  rw [lookup_insert] at hu
  split at hu
  · next heq =>
    cases hu
    exact ⟨heq ▸ hv, ht⟩
  · exact hs w u hu

lemma Concrete.insert {s : Bindings} {v : Variable} {t : Term} (hs : s.Concrete) (ht : t.Concrete) :
    (s.insert v t).Concrete := by
  intro w u hu
  rw [lookup_insert] at hu
  split at hu
  · cases hu
    exact ht
  · exact hs w u hu

lemma candidate_of_concrete {s : Bindings} {t : Term} (ht : t.Concrete) : s.candidate t = some t := by
  cases t with
  | var w => cases ht.1
  | wildcard => cases ht.2
  | _ => rfl

lemma Concrete.candidate {s : Bindings} {t u : Term} (hs : s.Concrete)
    (hu : s.candidate t = some u) : u.Concrete := by
  cases t with
  | wildcard => cases hu
  | var w => exact hs w u hu
  | _ =>
    cases hu
    exact ⟨rfl, rfl⟩

end Bindings

structure Pending.All (p : Term → Prop) (w : Pending) : Prop where
  goals : ∀ g ∈ w.goals, g.All p
  values : w.trail.bindings.All p

variable {req : Requirements} {cfg : Config} {w x : Pending} {p : Term → Prop}

lemma Pending.All.imp {q : Term → Prop} (hpq : ∀ t, p t → q t) (hw : w.All p) : w.All q := by
  refine ⟨fun g hg => ?_, fun v t ht => (hw.values v t ht).imp (hpq _) (hpq t)⟩
  have h := hw.goals g hg
  cases g with
  | unify a b => exact h.imp (hpq a) (hpq b)
  | bind v t => exact h.imp (hpq _) (hpq t)
  | clash why => trivial

lemma Pending.all_start {a b : Term} (ha : p a) (hb : p b) :
    Pending.All p ⟨[.unify a b], .start .empty⟩ :=
  ⟨List.forall_mem_singleton.mpr ⟨ha, hb⟩, Bindings.all_empty p⟩

lemma Goal.Compares.sides {q : Term → Prop} (hp : Hereditary p) (hq : Hereditary q)
    (hturn : ∀ {es fs key}, p (.record es) → q (.record fs) → cfg.catchAll = some key →
      Keyed.contains fs key = true → (∀ f ∈ fs, p f.2) ∧ ∀ e ∈ es, q e.2)
    {a b : Term} {gs : List Goal} (h : Compares cfg a b gs) (ha : p a) (hb : q b) :
    ∀ g ∈ gs, g.Sides p q := by
  cases h with
  | wildcard_left | wildcard_right | callables | primitives => simp
  | sequences xs ys =>
    intro g hg
    rcases mem_ofSequences hg with ⟨x, hx, y, hy, rfl⟩ | hc
    · exact ⟨hp.item ha hx, hq.item hb hy⟩
    · exact sides_of_isClash hc
  | records es fs =>
    intro g hg
    rcases mem_ofRecords hg with ⟨x, hx, y, hy, rfl⟩ | ⟨key, hc, hkey, x, hx, y, hy, rfl⟩ | hc
    · obtain ⟨e, he, rfl⟩ := List.mem_map.mp hx
      obtain ⟨f, hf, rfl⟩ := List.mem_map.mp hy
      exact ⟨hp.entry ha he, hq.entry hb hf⟩
    · obtain ⟨f, hf, rfl⟩ := List.mem_map.mp hx
      obtain ⟨e, he, rfl⟩ := List.mem_map.mp hy
      obtain ⟨hfs, hes⟩ := hturn ha hb hc hkey
      exact ⟨hfs f hf, hes e he⟩
    · exact sides_of_isClash hc

lemma Goal.Compares.all (hp : Hereditary p) {a b : Term} {gs : List Goal} (h : Compares cfg a b gs)
    (ha : p a) (hb : p b) : ∀ g ∈ gs, g.All p :=
  h.sides hp hp (fun hes hfs _ _ => ⟨fun _ => hp.entry hfs, fun _ => hp.entry hes⟩) ha hb

lemma Goal.Reduces.all (hp : Hereditary p) {s : Bindings} {g : Goal} {gs : List Goal}
    (h : g.Reduces cfg s gs) (hs : s.All p) (hg : g.All p) : ∀ g' ∈ gs, g'.All p := by
  cases h with
  | compare h => exact h.all hp hg.1 hg.2
  | variable_left => exact List.forall_mem_singleton.mpr hg
  | variable_right => exact List.forall_mem_singleton.mpr hg.symm
  | bind_wildcard => simp
  | recheck ht hv => exact List.forall_mem_singleton.mpr ⟨(hs _ _ hv).2, hs.candidate hg.2 ht⟩
  | exchange hw hv => exact List.forall_mem_singleton.mpr ⟨hg.2, (hs _ _ hv).2⟩

lemma Advance.all (hp : Hereditary p) (h : Advance req cfg w x) (hw : w.All p) : x.All p := by
  cases h with
  | reduce h =>
    obtain ⟨hg, hrest⟩ := List.forall_mem_cons.mp hw.goals
    exact ⟨List.forall_mem_append.mpr ⟨h.all hp hw.values hg, hrest⟩, hw.values⟩
  | assign h =>
    obtain ⟨hg, hrest⟩ := List.forall_mem_cons.mp hw.goals
    cases h with
    | bind hc hv hu => exact ⟨hrest, hw.values.insert hg.1 (hw.values.candidate hg.2 hc)⟩

theorem Reaches.all (hp : Hereditary p) (h : Reaches req cfg w x) (hw : w.All p) : x.All p :=
  h.preserves (fun hs => hs.all hp) hw

def Goal.Half (q : Term → Prop) : Goal → Prop
  | unify a b => q a ∨ q b
  | bind _ t => q t
  | clash _ => True

structure Pending.Half (q : Term → Prop) (w : Pending) : Prop where
  goals : ∀ g ∈ w.goals, g.Half q
  values : ∀ v t, w.trail.bindings.lookup v = some t → q t

lemma Goal.half_of_isClash {g : Goal} (h : g.isClash = true) : g.Half p := by
  cases g with
  | clash why => trivial
  | _ => cases h

lemma Goal.Compares.half (hp : Hereditary p) {a b : Term} {gs : List Goal} (h : Compares cfg a b gs)
    (hab : (Goal.unify a b).Half p) : ∀ g ∈ gs, g.Half p := by
  intro g hg
  rcases h.mem_children hg with ⟨x, hx, y, hy, rfl | rfl⟩ | hc
  · exact hab.imp (hp.child · hx) (hp.child · hy)
  · exact hab.symm.imp (hp.child · hy) (hp.child · hx)
  · exact half_of_isClash hc

lemma Goal.Reduces.half (hp : Hereditary p) (hvar : ∀ v, ¬ p (.var v)) {s : Bindings} {g : Goal}
    {gs : List Goal} (h : g.Reduces cfg s gs) (hg : g.Half p)
    (hs : ∀ v t, s.lookup v = some t → p t) : ∀ g' ∈ gs, g'.Half p := by
  cases h with
  | compare h => exact h.half hp hg
  | @variable_left v => exact List.forall_mem_singleton.mpr (hg.resolve_left (hvar v))
  | @variable_right v => exact List.forall_mem_singleton.mpr (hg.resolve_right (hvar v))
  | bind_wildcard v => simp
  | recheck ht hv => exact List.forall_mem_singleton.mpr (.inl (hs _ _ hv))
  | @exchange v w => exact absurd hg (hvar w)

lemma Advance.half (hp : Hereditary p) (hvar : ∀ v, ¬ p (.var v)) (h : Advance req cfg w x)
    (hw : w.Half p) : x.Half p := by
  cases h with
  | reduce h =>
    obtain ⟨hg, hrest⟩ := List.forall_mem_cons.mp hw.goals
    exact ⟨List.forall_mem_append.mpr ⟨h.half hp hvar hg hw.values, hrest⟩, hw.values⟩
  | assign h =>
    obtain ⟨hg, hrest⟩ := List.forall_mem_cons.mp hw.goals
    refine ⟨hrest, fun v t ht => ?_⟩
    cases h with
    | @bind v u t hc hv hu =>
      rw [Trail.lookup_assign] at ht
      split at ht
      · cases ht
        cases u with
        | wildcard => cases hc
        | var y => exact absurd hg (hvar y)
        | _ =>
          cases hc
          exact hg
      · exact hw.values v t ht

theorem Reaches.half (hp : Hereditary p) (hvar : ∀ v, ¬ p (.var v)) (h : Reaches req cfg w x)
    (hw : w.Half p) : x.Half p :=
  h.preserves (fun hs => hs.half hp hvar) hw

lemma Pending.half_start {a b : Term} (hab : p a ∨ p b) :
    Pending.Half p ⟨[.unify a b], .start .empty⟩ :=
  ⟨List.forall_mem_singleton.mpr hab, by simp [Trail.start]⟩

lemma Advance.concrete (h : Advance req cfg w x) (hw : w.trail.bindings.Concrete) :
    x.trail.bindings.Concrete := by
  cases h with
  | reduce h => exact hw
  | assign h =>
    cases h with
    | bind hc hv hu => exact hw.insert (hw.candidate hc)

lemma Reaches.concrete (h : Reaches req cfg w x) (hw : w.trail.bindings.Concrete) :
    x.trail.bindings.Concrete :=
  h.preserves (fun hs => hs.concrete) hw

end Unification
