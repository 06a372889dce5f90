import Unification.Proofs.Symmetry

/-! Runs that are free to exchange the sides of a comparison and to replace a variable by its value. -/

namespace Unification

open Goal (Compares)
open Term (Exact Hereditary)

section

variable (req : Requirements) (cfg : Config)

inductive Derive : Pending → Pending → Prop
  | compare {a b : Term} {gs rest : List Goal} {tr : Trail} (h : Compares cfg a b gs) :
      Derive ⟨.unify a b :: rest, tr⟩ ⟨gs ++ rest, tr⟩
  | turn (a b : Term) (rest : List Goal) (tr : Trail) :
      Derive ⟨.unify a b :: rest, tr⟩ ⟨.unify b a :: rest, tr⟩
  | replace {v : Variable} {x b : Term} {rest : List Goal} {tr : Trail}
      (hv : tr.bindings.lookup v = some x) :
      Derive ⟨.unify (.var v) b :: rest, tr⟩ ⟨.unify x b :: rest, tr⟩
  | assign {v : Variable} {u : Term} {rest : List Goal} {tr : Trail}
      (hv : tr.bindings.lookup v = none) (hu : u.Concrete) (ha : req.accept v u = true) :
      Derive ⟨.unify (.var v) u :: rest, tr⟩ ⟨rest, tr.assign v u⟩

abbrev Derives : Pending → Pending → Prop := Relation.ReflTransGen (Derive req cfg)

end

variable {req : Requirements} {cfg : Config} {w x : Pending} {tr tr' : Trail} {a b t u : Term}
  {v : Variable} {gs rest : List Goal} {p : Term → Prop}

lemma Derive.all (hp : Hereditary p) (h : Derive req cfg w x) (hw : w.All p) : x.All p := by
  obtain ⟨hgoals, hs⟩ := hw
  cases h with
  | compare h =>
    obtain ⟨hg, hrest⟩ := List.forall_mem_cons.mp hgoals
    exact ⟨List.forall_mem_append.mpr ⟨h.all hp hg.1 hg.2, hrest⟩, hs⟩
  | turn a b rest tr =>
    obtain ⟨hg, hrest⟩ := List.forall_mem_cons.mp hgoals
    exact ⟨List.forall_mem_cons.mpr ⟨⟨hg.2, hg.1⟩, hrest⟩, hs⟩
  | replace hv =>
    obtain ⟨hg, hrest⟩ := List.forall_mem_cons.mp hgoals
    exact ⟨List.forall_mem_cons.mpr ⟨⟨(hs _ _ hv).2, hg.2⟩, hrest⟩, hs⟩
  | assign hv hu ha =>
    obtain ⟨hg, hrest⟩ := List.forall_mem_cons.mp hgoals
    exact ⟨hrest, hs.insert hg.1 hg.2⟩

lemma Derive.concrete (h : Derive req cfg w x) (hw : w.trail.bindings.Concrete) :
    x.trail.bindings.Concrete := by
  cases h with
  | assign hv hu ha => exact hw.insert hu
  | _ => exact hw

lemma Derives.all (hp : Hereditary p) (h : Derives req cfg w x) (hw : w.All p) : x.All p := by
  induction h with
  | refl => exact hw
  | tail _ hs ih => exact hs.all hp ih

def Goal.compared : Goal → Goal
  | bind v t => unify (.var v) t
  | g => g

def Pending.compared (w : Pending) : Pending := ⟨w.goals.map Goal.compared, w.trail⟩

lemma Goal.Compares.map_compared (h : Compares cfg a b gs) : gs.map Goal.compared = gs := by
  rw [List.map_congr_left (g := id), List.map_id]
  intro g hg
  rcases h.mem hg with ⟨x, y, rfl⟩ | hc
  · rfl
  · cases g with
    | clash why => rfl
    | _ => cases hc

lemma derives_turn (a b : Term) (rest : List Goal) (tr : Trail) :
    Derives req cfg ⟨.unify a b :: rest, tr⟩ ⟨.unify b a :: rest, tr⟩ :=
  .single (.turn a b rest tr)

lemma derives_replace (hv : tr.bindings.lookup v = some t) :
    Derives req cfg ⟨.unify (.var v) b :: rest, tr⟩ ⟨.unify t b :: rest, tr⟩ :=
  .single (.replace hv)

lemma derives_replace_right (hv : tr.bindings.lookup v = some t) :
    Derives req cfg ⟨.unify a (.var v) :: rest, tr⟩ ⟨.unify a t :: rest, tr⟩ :=
  (derives_turn a (.var v) rest tr).trans ((derives_replace hv).trans (derives_turn t a rest tr))

lemma derives_candidate (ht : tr.bindings.candidate t = some u) :
    Derives req cfg ⟨.unify a t :: rest, tr⟩ ⟨.unify a u :: rest, tr⟩ := by
  cases t with
  | wildcard => cases ht
  | var w => exact derives_replace_right ht
  | _ =>
    cases ht
    exact .refl

lemma Advance.derives (h : Advance req cfg w x) (hw : w.trail.bindings.Concrete) :
    Derives req cfg w.compared x.compared := by
  cases h with
  | @reduce g gs rest tr h =>
    rw [Pending.compared, Pending.compared, List.map_append, List.map_cons]
    cases h with
    | compare h => exact .single (h.map_compared.symm ▸ .compare h)
    | variable_left ht => exact .refl
    | variable_right ht hv => exact derives_turn _ _ _ _
    | bind_wildcard v => exact .single (.compare (.wildcard_right (.var v)))
    | recheck ht hv => exact (derives_replace hv).trans (derives_candidate ht)
    | exchange hw hv => exact (derives_replace hv).trans (derives_turn _ _ _ _)
  | @assign g v u rest tr h =>
    cases h with
    | bind ht hv hu => exact (derives_candidate ht).tail (.assign hv (hw.candidate ht) hu)

theorem Reaches.derives (h : Reaches req cfg w x) (hw : w.trail.bindings.Concrete) :
    Derives req cfg w.compared x.compared := by
  induction h using Relation.ReflTransGen.head_induction_on with
  | refl => exact .refl
  | head hab _ ih => exact (hab.derives hw).trans (ih (hab.concrete hw))

lemma contended_eq_false_of_exact (ha : a.Exact cfg) : Goal.contended cfg a b = false := by
  cases a with
  | record es =>
    cases b with
    | record fs =>
      have hfree : ∀ key, cfg.catchAll = some key → es.lookup key = none := fun key hk => by
        simpa [Keyed.contains] using ha.contains_eq_false hk
      cases hc : cfg.catchAll with
      | none => simp [Goal.contended, hc]
      | some key => simp [Goal.contended, hc, hfree key hc, Goal.absorbed]
    | _ => rfl
  | _ => rfl

lemma uncontended_of_exact (hw : w.All (Exact cfg)) : Uncontended req cfg w := by
  intro a b rest tr h
  have hgoal := (h.all (Term.hereditary_exact cfg) hw).goals _ List.mem_cons_self
  exact contended_eq_false_of_exact hgoal.1

lemma Reaches.turn (h : Reaches req cfg ⟨.unify a b :: rest, tr⟩ ⟨[], tr'⟩)
    (hw : Pending.All (Exact cfg) ⟨.unify a b :: rest, tr⟩) (hc : tr.bindings.Concrete) :
    Reaches req cfg ⟨.unify b a :: rest, tr⟩ ⟨[], tr'⟩ := by
  have hwf : Pending.All Term.WellFormed ⟨.unify a b :: rest, tr⟩ := hw.imp fun t ht => ht.wellFormed
  exact h.mirrored hwf hc (.cons (.turned a b) (.refl rest)) (.inl (uncontended_of_exact hw))

lemma Bindings.isWildcard_of_candidate {s : Bindings} (h : s.candidate t = some u) :
    t.isWildcard = false := by
  cases t with
  | wildcard => cases h
  | _ => rfl

lemma Reaches.candidate (h : Reaches req cfg ⟨.unify t b :: rest, tr⟩ ⟨[], tr'⟩) (ht : t.Concrete)
    (hb : tr.bindings.candidate b = some u) (hw : Pending.All (Exact cfg) ⟨.unify t b :: rest, tr⟩)
    (hc : tr.bindings.Concrete) : Reaches req cfg ⟨.unify t u :: rest, tr⟩ ⟨[], tr'⟩ := by
  cases b with
  | var w =>
    have hbind : Reaches req cfg ⟨.unify t (.var w) :: rest, tr⟩ ⟨.bind w t :: rest, tr⟩ :=
      .single (.reduce (.variable_right ht.2 ht.1))
    have hturned : Reaches req cfg ⟨.unify t (.var w) :: rest, tr⟩ ⟨.unify u t :: rest, tr⟩ :=
      hbind.tail (.reduce (.recheck (Bindings.candidate_of_concrete ht) hb))
    have hrest := h.after hturned
    exact hrest.turn (hturned.all (Term.hereditary_exact cfg) hw) hc
  | wildcard => cases hb
  | _ =>
    cases hb
    exact h

lemma Reaches.replace (h : Reaches req cfg ⟨.unify t b :: rest, tr⟩ ⟨[], tr'⟩)
    (hv : tr.bindings.lookup v = some t) (hw : Pending.All (Exact cfg) ⟨.unify t b :: rest, tr⟩)
    (hc : tr.bindings.Concrete) : Reaches req cfg ⟨.unify (.var v) b :: rest, tr⟩ ⟨[], tr'⟩ := by
  have ht : t.Concrete := hc v t hv
  cases hb : tr.bindings.candidate b with
  | some u =>
    have hbind : Reaches req cfg ⟨.unify (.var v) b :: rest, tr⟩ ⟨.bind v b :: rest, tr⟩ :=
      .single (.reduce (.variable_left (Bindings.isWildcard_of_candidate hb)))
    exact (hbind.tail (.reduce (.recheck hb hv))).trans (h.candidate ht hb hw hc)
  | none =>
    rcases Goal.candidate_eq_none hb with rfl | ⟨w, rfl, hfree⟩
    · have hskip : Reaches req cfg ⟨.unify t .wildcard :: rest, tr⟩ ⟨rest, tr⟩ :=
        .single (.reduce (.compare (.wildcard_right t)))
      have hrest := h.after hskip
      exact hrest.head (.reduce (.compare (.wildcard_right (.var v))))
    · have hbind : Reaches req cfg ⟨.unify t (.var w) :: rest, tr⟩ ⟨.bind w t :: rest, tr⟩ :=
        .single (.reduce (.variable_right ht.2 ht.1))
      have hrest := h.after hbind
      exact (hrest.head (.reduce (.exchange hfree hv))).head (.reduce (.variable_left rfl))

lemma Derive.reaches (h : Derive req cfg w x) (hw : w.All (Exact cfg)) (hc : w.trail.bindings.Concrete)
    (hx : Reaches req cfg x ⟨[], tr'⟩) : Reaches req cfg w ⟨[], tr'⟩ := by
  have hall := h.all (Term.hereditary_exact cfg) hw
  cases h with
  | compare h => exact hx.head (.reduce (.compare h))
  | turn a b rest tr => exact hx.turn hall hc
  | replace hv => exact hx.replace hv hall hc
  | @assign v u rest tr hv hu ha =>
    have hself : tr.bindings.candidate u = some u := Bindings.candidate_of_concrete hu
    exact (hx.head (.assign (.bind hself hv ha))).head (.reduce (.variable_left hu.2))

theorem Derives.reaches (h : Derives req cfg w ⟨[], tr'⟩) (hw : w.All (Exact cfg))
    (hc : w.trail.bindings.Concrete) : Reaches req cfg w ⟨[], tr'⟩ := by
  induction h using Relation.ReflTransGen.head_induction_on with
  | refl => exact .refl
  | head hab _ ih =>
    exact hab.reaches hw hc (ih (hab.all (Term.hereditary_exact cfg) hw) (hab.concrete hc))

theorem derives_iff_reaches (hw : Pending.All (Exact cfg) ⟨[.unify a b], tr⟩)
    (hc : tr.bindings.Concrete) :
    Derives req cfg ⟨[.unify a b], tr⟩ ⟨[], tr'⟩ ↔ Reaches req cfg ⟨[.unify a b], tr⟩ ⟨[], tr'⟩ :=
  ⟨fun h => h.reaches hw hc, fun h => h.derives hc⟩

end Unification
