import Mathlib.Data.List.Basic
import Unification.Label

namespace Unification

namespace Text

variable {rs : Ranges} {p : Pattern} {c d : Char} {cs : List Char}

lemma contain_nil : Ranges.contain [] c = false := rfl

lemma contain_cons {low high : ℕ} : Ranges.contain ((low, high) :: rs) c = true ↔
    (low ≤ c.toNat ∧ c.toNat ≤ high) ∨ rs.contain c = true := by
  simp [Ranges.contain]

lemma accepts_one : Pattern.accepts (.one rs :: p) cs = true ↔
    ∃ c ds, cs = c :: ds ∧ rs.contain c = true ∧ p.accepts ds = true := by
  cases cs <;> simp [Pattern.accepts]

lemma accepts_many : Pattern.accepts (.many rs :: p) cs = true ↔
    ∃ ds es, cs = ds ++ es ∧ (∀ d ∈ ds, rs.contain d = true) ∧ p.accepts es = true := by
  rw [Pattern.accepts]
  induction cs with
  | nil => simp [skipMany]
  | cons c cs ih =>
    rw [skipMany, Bool.or_eq_true, Bool.and_eq_true, ih]
    constructor
    · rintro (h | ⟨hc, ds, es, rfl, hds, hes⟩)
      · exact ⟨[], c :: cs, rfl, by simp, h⟩
      · exact ⟨c :: ds, es, rfl, List.forall_mem_cons.mpr ⟨hc, hds⟩, hes⟩
    · rintro ⟨ds, es, heq, hds, hes⟩
      cases ds with
      | nil => exact .inl (heq ▸ hes)
      | cons d ds =>
        obtain ⟨rfl, rfl⟩ := List.cons.inj heq
        exact .inr ⟨hds c List.mem_cons_self, ds, es, rfl, (List.forall_mem_cons.mp hds).2, hes⟩

lemma toNat_le_iff : c.toNat ≤ d.toNat ↔ c ≤ d := by
  rw [Char.le_def, UInt32.le_iff_toNat_le]
  rfl

end Text

namespace Label

def Letter (c : Char) : Prop := 'A' ≤ c ∧ c ≤ 'Z' ∨ 'a' ≤ c ∧ c ≤ 'z'

def Digit (c : Char) : Prop := '0' ≤ c ∧ c ≤ '9'

def Initial (c : Char) : Prop := Letter c ∨ c = '_' ∨ c = '$'

def Simple (name : String) : Prop :=
  ∃ c cs, name.toList = c :: cs ∧ Initial c ∧ ∀ d ∈ cs, Initial d ∨ Digit d

lemma contain_initials {c : Char} : initials.contain c = true ↔ Initial c := by
  simp only [Initial, Letter, ← Char.toNat_inj, ← Text.toNat_le_iff, Char.reduceToNat, initials,
    Text.contain_cons, Text.contain_nil, Bool.false_eq_true, or_false]
  omega

lemma contain_followers {c : Char} : followers.contain c = true ↔ Initial c ∨ Digit c := by
  simp only [Initial, Letter, Digit, ← Char.toNat_inj, ← Text.toNat_le_iff, Char.reduceToNat, followers,
    Text.contain_cons, Text.contain_nil, Bool.false_eq_true, or_false]
  omega

lemma isSimple_iff {name : String} : isSimple name = true ↔ Simple name := by
  rw [isSimple, pattern, Text.accepts_one]
  simp only [Text.accepts_many, Simple, contain_initials, contain_followers]
  simp [Text.Pattern.accepts]

lemma check_of_simple {name : String} (h : Simple name) : check name = .ok () := by
  have hne : name.isEmpty = false := by
    obtain ⟨c, cs, hcs, -⟩ := h
    rw [String.isEmpty_eq_false_iff]
    rintro rfl
    cases hcs
  rw [check, hne, if_neg Bool.false_ne_true, if_pos (isSimple_iff.mpr h)]

lemma check_of_not_simple {name : String} (h : ¬ Simple name) : ∃ f, check name = .error f := by
  rw [check, if_neg (isSimple_iff.not.mpr h)]
  split
  · exact ⟨_, rfl⟩
  · exact ⟨_, rfl⟩

end Label

end Unification
