import Mathlib.Data.List.Induction
import Unification.Proofs.Names
import Unification.Registry

/-! A variable keeps the place of its first write and has the value of its last one. -/

namespace Unification.Bindings

def ofList (ws : List (Variable × Term)) : Bindings := ws.foldl (fun s w => s.insert w.1 w.2) .empty

variable {naming : Variable → String} {ws : List (Variable × Term)} {v : Variable} {t : Term} {n : String}

lemma ofList_concat (w : Variable × Term) : ofList (ws ++ [w]) = (ofList ws).insert w.1 w.2 := by
  rw [ofList, List.foldl_append]
  rfl

lemma keys_put (es : List (Variable × Term)) : (put v t es).map Prod.fst =
    if v ∈ es.map Prod.fst then es.map Prod.fst else es.map Prod.fst ++ [v] := by
  induction es with
  | nil => rfl
  | cons e es ih =>
    obtain ⟨w, u⟩ := e
    by_cases hw : w = v
    · simp [put, hw]
    · rw [put, if_neg hw, List.map_cons, ih]
      by_cases hv : v ∈ es.map Prod.fst
      · simp [hv]
      · simp [hv, Ne.symm hw]

theorem keys_ofList (ws : List (Variable × Term)) :
    (ofList ws).entries.map Prod.fst = (ws.map Prod.fst).eraseDups := by
  induction ws using List.reverseRecOn with
  | nil => rfl
  | append_singleton ws w ih =>
    rw [ofList_concat, entries_insert, keys_put, ih, List.map_append, List.eraseDups_append]
    by_cases hv : w.1 ∈ ws.map Prod.fst <;> simp [hv, List.removeAll, List.eraseDups_cons]

lemma nodup_keys_put {es : List (Variable × Term)} (v : Variable) (t : Term)
    (h : (es.map Prod.fst).Nodup) : ((put v t es).map Prod.fst).Nodup := by
  rw [keys_put]
  split
  · exact h
  · next hv => exact List.concat_eq_append ▸ h.concat hv

lemma nodup_keys_ofList (ws : List (Variable × Term)) : ((ofList ws).entries.map Prod.fst).Nodup := by
  induction ws using List.reverseRecOn with
  | nil => exact List.nodup_nil
  | append_singleton ws w ih =>
    rw [ofList_concat, entries_insert]
    exact nodup_keys_put w.1 w.2 ih

theorem lookup_ofList (ws : List (Variable × Term)) (v : Variable) :
    (ofList ws).lookup v = ws.reverse.lookup v := by
  induction ws using List.reverseRecOn with
  | nil => rfl
  | append_singleton ws w ih =>
    rw [ofList_concat, lookup_insert, ih, List.reverse_append]
    exact (Keyed.lookup_cons_eq_ite w.1 v w.2 ws.reverse).symm

lemma get?_eq_bind_lookup {s : Bindings} (h : (s.entries.map Prod.fst).Nodup) (n : String) :
    s.get? naming n =
      ((s.entries.map Prod.fst).reverse.find? fun v => naming v == n).bind s.lookup := by
  rw [get?, ← List.map_reverse, List.find?_map]
  cases hfind : s.entries.reverse.find? ((fun v => naming v == n) ∘ Prod.fst) with
  | none => exact congrArg (Option.map _) hfind
  | some e =>
    have he : e ∈ s.entries := List.mem_reverse.mp (List.mem_of_find?_eq_some hfind)
    have hlookup : s.lookup e.1 = some e.2 := (Keyed.lookup_eq_some_iff h).mpr he
    exact (congrArg (Option.map _) hfind).trans hlookup.symm

def lastWrite (naming : Variable → String) (ws : List (Variable × Term)) (n : String) :
    Option (Variable × Term) :=
  ws.reverse.find? fun w => naming w.1 == n

def newest (naming : Variable → String) (ws : List (Variable × Term)) (n : String) : Option Variable :=
  (ws.map Prod.fst).eraseDups.reverse.find? fun v => naming v == n

lemma lookup_of_lastWrite (h : lastWrite naming ws n = some (v, t)) :
    ws.reverse.lookup v = some t := by
  obtain ⟨hv, later, earlier, heq, hlater⟩ := List.find?_eq_some_iff_append.mp h
  refine List.lookup_eq_some_iff.mpr ⟨later, earlier, heq, fun w hw => ?_⟩
  have hn : naming v = n := beq_iff_eq.mp hv
  have hne : naming w.1 ≠ n := by simpa using hlater w hw
  exact bne_iff_ne.mpr fun hvw => hne (hvw ▸ hn)

lemma get?_eq_none_iff {s : Bindings} :
    s.get? naming n = none ↔ ∀ v ∈ s.entries.map Prod.fst, naming v ≠ n := by
  simp [get?, List.find?_eq_none]

/-- Under a name the value is reported that was written last to the newest variable of the name. It is the
last one written under the name if that was written to the newest variable, and there is none if nothing
was written under the name. -/
theorem get?_ofList (naming : Variable → String) (ws : List (Variable × Term)) (n : String) :
    (ofList ws).get? naming n = (newest naming ws n).bind (ws.reverse.lookup ·) ∧
      (∀ v t, lastWrite naming ws n = some (v, t) → newest naming ws n = some v →
        (ofList ws).get? naming n = some t) ∧
      ((ofList ws).get? naming n = none ↔ ∀ w ∈ ws, naming w.1 ≠ n) := by
  have hget : (ofList ws).get? naming n = (newest naming ws n).bind (ws.reverse.lookup ·) := by
    rw [get?_eq_bind_lookup (nodup_keys_ofList ws), keys_ofList, newest]
    exact Option.bind_congr fun v _ => lookup_ofList ws v
  refine ⟨hget, fun v t hlast hnew => ?_, ?_⟩
  · rw [hget, hnew]
    exact lookup_of_lastWrite hlast
  · rw [get?_eq_none_iff, keys_ofList]
    simp

section Twins

open Term (primitive)

def twins : Registry where
  declarations := #[⟨"a", none⟩, ⟨"a", none⟩]

def rewritten : List (Variable × Term) :=
  [(⟨0⟩, primitive (.long 1)), (⟨1⟩, primitive (.long 2)), (⟨0⟩, primitive (.long 3))]

theorem get?_ofList_twins :
    lastWrite twins.nameOf (rewritten ++ [(⟨1⟩, primitive (.long 4))]) "a" =
        some (⟨1⟩, primitive (.long 4)) ∧
      (ofList (rewritten ++ [(⟨1⟩, primitive (.long 4))])).get? twins.nameOf "a" =
        some (primitive (.long 4)) :=
  ⟨rfl, (get?_ofList twins.nameOf _ "a").2.1 ⟨1⟩ _ rfl rfl⟩

theorem get?_ofList_ne_lastWrite :
    lastWrite twins.nameOf rewritten "a" = some (⟨0⟩, primitive (.long 3)) ∧
      (ofList rewritten).get? twins.nameOf "a" = some (primitive (.long 2)) ∧
      (ofList rewritten).get? twins.nameOf "a" ≠
        (lastWrite twins.nameOf rewritten "a").map Prod.snd := by
  have hlast : lastWrite twins.nameOf rewritten "a" = some (⟨0⟩, primitive (.long 3)) := rfl
  have hget : (ofList rewritten).get? twins.nameOf "a" = some (primitive (.long 2)) := rfl
  refine ⟨hlast, hget, ?_⟩
  rw [hget, hlast]
  simp

end Twins

end Unification.Bindings
