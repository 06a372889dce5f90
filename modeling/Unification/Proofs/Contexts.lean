import Unification.Proofs.Passes

namespace Unification

open Keyed

variable {req : Requirements} {cfg : Config} {a b : Term} {tr : Trail} {r : Result}

inductive Context where
  | hole
  | item (before : List Term) (inner : Context) (after : List Term)
  | entry (before : List (String × Term)) (key : String) (inner : Context) (after : List (String × Term))

namespace Context

def fill : Context → Term → Term
  | hole, t => t
  | item before inner after, t => .sequence (before ++ inner.fill t :: after)
  | entry before key inner after, t => .record (before ++ (key, inner.fill t) :: after)

def siblings : Context → List Term
  | hole => []
  | item before inner after => before ++ inner.siblings ++ after
  | entry before _ inner after => values before ++ inner.siblings ++ values after

end Context

namespace Goal

lemma ends_around_iff {before after : List Term} (hwf : ∀ t ∈ before ++ after, t.WellFormed)
    (hs : ∀ t ∈ before ++ after, t.isGround = true ∧ t.NaNFree) :
    Ends req cfg ⟨List.zipWith unify (before ++ a :: after) (before ++ b :: after), tr⟩ r ↔
      Ends req cfg ⟨[unify a b], tr⟩ r := by
  have hself : List.zipWith unify (before ++ a :: after) (before ++ b :: after) =
      before.map (fun t => unify t t) ++ ([unify a b] ++ after.map fun t => unify t t) := by
    simp [List.zipWith_append, List.zipWith_self]
  have hpasses : ∀ t ∈ before ++ after, (unify t t).Passes cfg := fun t ht =>
    .refl (hwf t ht) (hs t ht).1 (hs t ht).2
  obtain ⟨hbefore, hafter⟩ := List.forall_mem_append.mp hpasses
  rw [hself, ends_passes_append_iff (List.forall_mem_map.mpr hbefore),
    ends_append_passes_iff (List.forall_mem_map.mpr hafter)]

lemma ofRecords_eq_zip_of_keys {es fs : List (String × Term)} (hf : Ordered fs) (h : keys es = keys fs) :
    ofRecords cfg es fs = List.zipWith unify (values es) (values fs) := by
  rw [ofRecords_of_keys cfg h, ← ofClosedRecords_eq_shared h, ofClosedRecords_of_keys hf h]

end Goal

namespace Context

variable {c : Context}

lemma wellFormed_fill_item {before after : List Term} : ((item before c after).fill a).WellFormed ↔
    (∀ t ∈ before ++ after, t.WellFormed) ∧ (c.fill a).WellFormed := by
  simp only [fill, Term.wellFormed_sequence, List.forall_mem_append, List.forall_mem_cons]
  tauto

lemma wellFormed_fill_entry {before after : List (String × Term)} {key : String} :
    ((entry before key c after).fill a).WellFormed ↔ Ordered (before ++ (key, c.fill a) :: after) ∧
      (∀ t ∈ values before ++ values after, t.WellFormed) ∧ (c.fill a).WellFormed := by
  simp only [fill, Term.wellFormed_record, List.forall_mem_append, List.forall_mem_cons, values,
    List.forall_mem_map]
  tauto

lemma reduces_fill_item (s : Bindings) (before after : List Term) :
    (Goal.unify ((item before c after).fill a) ((item before c after).fill b)).Reduces cfg s
      (List.zipWith .unify (before ++ c.fill a :: after) (before ++ c.fill b :: after)) := by
  have hlen : (before ++ c.fill a :: after).length = (before ++ c.fill b :: after).length := by simp
  have hgoals : Goal.ofSequences (before ++ c.fill a :: after) (before ++ c.fill b :: after) =
      List.zipWith .unify (before ++ c.fill a :: after) (before ++ c.fill b :: after) := if_pos hlen
  exact hgoals ▸ .compare (.sequences _ _)

lemma reduces_fill_entry (s : Bindings) {before after : List (String × Term)} {key : String} {t : Term}
    (h : Ordered (before ++ (key, t) :: after)) :
    (Goal.unify ((entry before key c after).fill a) ((entry before key c after).fill b)).Reduces cfg s
      (List.zipWith .unify (values before ++ c.fill a :: values after)
        (values before ++ c.fill b :: values after)) := by
  have hkeys (t u : Term) : keys (before ++ (key, t) :: after) = keys (before ++ (key, u) :: after) := by
    simp [keys]
  have hvalues (t : Term) : values (before ++ (key, t) :: after) = values before ++ t :: values after := by
    simp [values]
  have hordered : Ordered (before ++ (key, c.fill b) :: after) := h.of_keys_eq (hkeys _ _)
  rw [← hvalues, ← hvalues, ← Goal.ofRecords_eq_zip_of_keys hordered (hkeys _ _)]
  exact .compare (.records _ _)

theorem ends_fill_iff (hc : (c.fill .wildcard).WellFormed)
    (hs : ∀ t ∈ c.siblings, t.isGround = true ∧ t.NaNFree) :
    Ends req cfg ⟨[.unify (c.fill a) (c.fill b)], tr⟩ r ↔ Ends req cfg ⟨[.unify a b], tr⟩ r := by
  induction c with
  | hole => rfl
  | item before inner after ih =>
    obtain ⟨hwf, hinner⟩ := wellFormed_fill_item.mp hc
    simp only [siblings, List.forall_mem_append] at hs
    obtain ⟨⟨hbefore, hs⟩, hafter⟩ := hs
    rw [ends_iff_of_reaches (reaches_of_reduces (reduces_fill_item _ before after) .refl),
      Goal.ends_around_iff hwf (List.forall_mem_append.mpr ⟨hbefore, hafter⟩)]
    exact ih hinner hs
  | entry before key inner after ih =>
    obtain ⟨hordered, hwf, hinner⟩ := wellFormed_fill_entry.mp hc
    simp only [siblings, List.forall_mem_append] at hs
    obtain ⟨⟨hbefore, hs⟩, hafter⟩ := hs
    rw [ends_iff_of_reaches (reaches_of_reduces (reduces_fill_entry _ hordered) .refl),
      Goal.ends_around_iff hwf (List.forall_mem_append.mpr ⟨hbefore, hafter⟩)]
    exact ih hinner hs

lemma run_fill (s : Bindings) (hc : (c.fill .wildcard).WellFormed)
    (hs : ∀ t ∈ c.siblings, t.isGround = true ∧ t.NaNFree) :
    run req cfg s (.unify (c.fill a) (c.fill b)) = run req cfg s (.unify a b) :=
  run_eq_run_of_ends fun _ => ends_fill_iff hc hs

theorem unify_fill (req : Requirements) (cfg : Config) (a b : Term) (hc : (c.fill .wildcard).WellFormed)
    (hs : ∀ t ∈ c.siblings, t.isGround = true ∧ t.NaNFree) :
    unify req cfg (c.fill a) (c.fill b) = unify req cfg a b :=
  congrArg Outcome.ofResult (run_fill .empty hc hs)

end Context

section Letter

open Term (sequence record var primitive callable wildcard)

def letter : Context :=
  .item [primitive (.long 1), wildcard]
    (.entry [("A", record [("_", callable ⟨0⟩)])] "_" (.item [] .hole [primitive (.float ⟨0⟩)])
      [("p", sequence [wildcard])]) [record []]

def letterPair : Term := sequence [var ⟨0⟩, sequence [var ⟨0⟩, var ⟨1⟩], var ⟨2⟩]

def letterData : Term :=
  sequence [sequence [var ⟨3⟩], sequence [sequence [primitive .nil], var ⟨0⟩], var ⟨3⟩]

def letterBindings : Bindings :=
  .several [(⟨0⟩, sequence [var ⟨3⟩]), (⟨3⟩, primitive .nil), (⟨1⟩, sequence [var ⟨3⟩]),
    (⟨2⟩, primitive .nil)]

theorem Context.unify_fill_letter :
    (letter.fill wildcard).WellFormed ∧ (∀ t ∈ letter.siblings, t.isGround = true ∧ t.NaNFree) ∧
      unify (fun _ => none) .standard (letter.fill letterPair) (letter.fill letterData) =
        .unified letterBindings ∧
      unify (fun _ => none) .standard (letter.fill (var ⟨0⟩)) (letter.fill (var ⟨1⟩)) =
        .mismatch (.unbound ⟨0⟩ ⟨1⟩) := by
  have hc : (letter.fill wildcard).WellFormed := by decide
  have hs : ∀ t ∈ letter.siblings, t.isGround = true ∧ t.NaNFree := by decide
  refine ⟨hc, hs, ?_, ?_⟩
  · rw [unify_fill _ _ _ _ hc hs]
    rfl
  · rw [unify_fill _ _ _ _ hc hs]
    rfl

end Letter

end Unification
