import Folio.Text.Basic

namespace Folio.Text

theorem le_cons_iff {a b : Char} {as bs : Text} :
    le (a :: as) (b :: bs) ↔ a.toNat < b.toNat ∨ a = b ∧ le as bs := by
  simp [le]

theorem le_total (a b : Text) : le a b ∨ le b a := by
  induction a generalizing b with
  | nil => exact Or.inl rfl
  | cons c cs ih =>
    cases b with
    | nil => exact Or.inr rfl
    | cons d ds =>
      rw [le_cons_iff, le_cons_iff]
      rcases Nat.lt_trichotomy c.toNat d.toNat with h | h | h
      · exact Or.inl (Or.inl h)
      · have hcd : c = d := Char.toNat_inj.1 h
        exact (ih ds).imp (fun h => Or.inr ⟨hcd, h⟩) fun h => Or.inr ⟨hcd.symm, h⟩
      · exact Or.inr (Or.inl h)

theorem le_trans {a b c : Text} (hab : le a b) (hbc : le b c) : le a c := by
  induction a generalizing b c with
  | nil => rfl
  | cons x xs ih =>
    cases b with
    | nil => cases hab
    | cons y ys =>
      cases c with
      | nil => cases hbc
      | cons z zs =>
        rw [le_cons_iff] at hab hbc ⊢
        rcases hab with hxy | ⟨rfl, hxy⟩ <;> rcases hbc with hyz | ⟨rfl, hyz⟩
        · exact Or.inl (Nat.lt_trans hxy hyz)
        · exact Or.inl hxy
        · exact Or.inl hyz
        · exact Or.inr ⟨rfl, ih hxy hyz⟩

theorem le_antisymm {a b : Text} (hab : le a b) (hba : le b a) : a = b := by
  induction a generalizing b with
  | nil =>
    cases b with
    | nil => rfl
    | cons _ _ => cases hba
  | cons x xs ih =>
    cases b with
    | nil => cases hab
    | cons y ys =>
      rw [le_cons_iff] at hab hba
      rcases hab with hxy | ⟨rfl, hxy⟩
      · rcases hba with hyx | ⟨rfl, _⟩
        · exact absurd hxy (Nat.lt_asymm hyx)
        · exact absurd hxy (Nat.lt_irrefl _)
      · rcases hba with hyx | ⟨_, hyx⟩
        · exact absurd hyx (Nat.lt_irrefl _)
        · rw [ih hxy hyx]

/-- Texts that differ are in lexicographic order. -/
theorem lt_of_le {a b : Text} (h : le a b) (hne : a ≠ b) : a < b := by
  induction a generalizing b with
  | nil =>
    obtain ⟨d, ds, rfl⟩ := List.exists_cons_of_ne_nil (Ne.symm hne)
    exact List.nil_lt_cons d ds
  | cons c cs ih =>
    cases b with
    | nil => cases h
    | cons d ds =>
      rw [List.cons_lt_cons_iff]
      rcases le_cons_iff.1 h with hcd | ⟨rfl, hle⟩
      · exact Or.inl hcd
      · exact Or.inr ⟨rfl, ih hle fun heq => hne (congrArg (c :: ·) heq)⟩

end Folio.Text
