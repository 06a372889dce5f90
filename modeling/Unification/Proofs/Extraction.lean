import Unification.Proofs.Conversion
import Unification.Proofs.Extension
import Unification.Proofs.Names

namespace Unification

open Term (ofDocument)

variable {req : Requirements} {cfg : Config} {a b : Term} {s : Bindings}

theorem Bindings.exists_toDocument_eq [Scalars] (naming : Variable → String) (s : Bindings) :
    ∃ es, s.toDocument naming = .object es ∧ Keyed.Ordered es ∧
      ∀ n, es.lookup n = (s.get? naming n).bind Term.toDocument? := by
  have hnodup : (Keyed.keys (s.reported naming)).Nodup := nodup_names naming s
  refine ⟨_, rfl, Keyed.ordered_ofList _, fun n => ?_⟩
  rw [← lookup_reported, ← Keyed.lookup_filterMap hnodup]
  exact Keyed.lookup_ofList_of_nodup (Keyed.nodup_keys_filterMap hnodup) n

lemma Term.hereditary_mem_parts_self (t : Term) : Hereditary (· ∈ t.parts) := by
  simpa using hereditary_mem_parts [t]

theorem mem_parts_of_unify {c : Term} (hc : c.isGround = true) (hab : a = c ∨ b = c)
    (h : unify req cfg a b = .unified s) {v : Variable} {t : Term} (ht : (v, t) ∈ s.entries) :
    t ∈ c.parts := by
  obtain ⟨tr, hx, rfl⟩ := unify_eq_unified_iff.mp h
  have hvar (v : Variable) : Term.var v ∉ c.parts := Term.isGround_iff.mp hc v
  have hside : a ∈ c.parts ∨ b ∈ c.parts := by
    rcases hab with rfl | rfl
    · exact .inl a.self_mem_parts
    · exact .inr b.self_mem_parts
  have hhalf := Reaches.half c.hereditary_mem_parts_self hvar hx (Pending.half_start hside)
  exact hhalf.values v t ((Keyed.lookup_eq_some_iff (nodup_of_reaches hx)).mpr ht)

lemma Term.Writable.isGround {t : Term} (ht : t.Writable) : t.isGround = true :=
  isGround_iff.mpr fun _ hv => Bool.false_ne_true (ht _ hv)

theorem toDocument_of_unify_ofDocument [Scalars] [LawfulScalars] (req : Requirements) (cfg : Config)
    (naming : Variable → String) {d : Document}
    (h : unify req cfg a (ofDocument d) = .unified s ∨ unify req cfg (ofDocument d) a = .unified s) :
    (∀ v t, (v, t) ∈ s.entries → t ∈ (ofDocument d).parts) ∧
      ∃ es, s.toDocument naming = .object es ∧ Keyed.Ordered es ∧
        (Keyed.keys es).Perm (s.names naming) ∧
        ∀ n ∈ s.names naming, ∃ t d', s.get? naming n = some t ∧ t.toDocument? = some d' ∧
          es.lookup n = some d' := by
  have hwritable := Term.writable_ofDocument d
  have hparts : ∀ v t, (v, t) ∈ s.entries → t ∈ (ofDocument d).parts := by
    intro v t ht
    rcases h with h | h
    · exact mem_parts_of_unify hwritable.isGround (.inr rfl) h ht
    · exact mem_parts_of_unify hwritable.isGround (.inl rfl) h ht
  obtain ⟨es, heq, hordered, hlookup⟩ := s.exists_toDocument_eq naming
  have hvalue : ∀ n ∈ s.names naming, ∃ t d', s.get? naming n = some t ∧ t.toDocument? = some d' ∧
      es.lookup n = some d' := by
    intro n hn
    obtain ⟨t, ht⟩ := (s.mem_names_iff naming).mp hn
    obtain ⟨v, hv, -⟩ := s.exists_mem_of_get naming ht
    obtain ⟨d', hd'⟩ := Term.exists_toDocument?_iff.mpr (hwritable.of_mem_parts (hparts v t hv))
    exact ⟨t, d', ht, hd', by rw [hlookup, ht, Option.bind_some, hd']⟩
  refine ⟨hparts, es, heq, hordered, ?_, hvalue⟩
  refine (List.perm_ext_iff_of_nodup hordered.nodup_keys (s.nodup_names naming)).mpr fun n => ?_
  rw [← Keyed.contains_iff, Keyed.contains, Option.isSome_iff_exists]
  constructor
  · rintro ⟨d', hd'⟩
    rw [hlookup] at hd'
    obtain ⟨t, ht, -⟩ := Option.bind_eq_some_iff.mp hd'
    exact (s.mem_names_iff naming).mpr ⟨t, ht⟩
  · intro hn
    obtain ⟨t, d', -, -, hd'⟩ := hvalue n hn
    exact ⟨d', hd'⟩

section Shipment

open Term (record sequence var primitive)

def shipmentPattern : Term :=
  record [("_", var ⟨0⟩), ("from", record [("city", var ⟨1⟩)]), ("parts", sequence [var ⟨2⟩, var ⟨3⟩])]

def shipment : Document :=
  .object [("from", .object [("_", .string "Oslo")]), ("parts", .array [.null, .array [.bool true]]),
    ("weight", .integer ⟨2 ^ 63 + 2 ^ 62, by decide⟩)]

def shipmentBindings : Bindings :=
  .several [(⟨1⟩, primitive (.string "Oslo")), (⟨2⟩, primitive .nil),
    (⟨3⟩, sequence [primitive (.bool true)]), (⟨0⟩, primitive (.float ⟨0x43e8000000000000⟩))]

def shipmentNames : Variable → String := fun v => if v.id % 2 = 1 then "x" else "rest"

theorem toDocument_of_unify_ofDocument_shipment :
    unify (fun _ => none) .standard shipmentPattern (ofDocument shipment) = .unified shipmentBindings ∧
      (∀ v t, (v, t) ∈ shipmentBindings.entries → t ∈ (ofDocument shipment).parts) ∧
      ∃ es, shipmentBindings.toDocument shipmentNames = .object es ∧
        (Keyed.keys es).Perm ["x", "rest"] ∧ es.lookup "x" = some (.array [.bool true]) := by
  have h : unify (fun _ => none) .standard shipmentPattern (ofDocument shipment) =
      .unified shipmentBindings := rfl
  obtain ⟨hparts, es, heq, -, hkeys, hvalues⟩ :=
    toDocument_of_unify_ofDocument (fun _ => none) .standard shipmentNames (.inl h)
  obtain ⟨t, d', ht, hd', hlookup⟩ := hvalues "x" (by decide)
  cases ht
  cases hd'
  exact ⟨h, hparts, es, heq, hkeys, hlookup⟩

end Shipment

end Unification
