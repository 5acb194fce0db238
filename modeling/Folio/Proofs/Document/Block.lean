import Folio.Proofs.Document.Lines
import Folio.Proofs.Document.Standard

namespace Folio

open Text

namespace Lines

/-- The first line that is not blank, if any, is not indented. -/
def Flush (ls : List Text) : Prop :=
  ∀ l, ls.find? (fun l => !(trim l).isEmpty) = some l → stripIndent? l = none

theorem flush_nil : Flush [] := fun _ h => nomatch h

theorem flush_cons_iff {l : Text} {ls : List Text} :
    Flush (l :: ls) ↔ if trim l = [] then Flush ls else stripIndent? l = none := by
  unfold Flush
  by_cases hb : trim l = []
  · rw [if_pos hb, List.find?_cons_of_neg (by simp [hb])]
  · rw [if_neg hb, List.find?_cons_of_pos (by simp [hb])]
    simp

instance decidableFlush : (ls : List Text) → Decidable (Flush ls)
  | [] => isTrue flush_nil
  | _ :: ls =>
    have := decidableFlush ls
    decidable_of_iff _ flush_cons_iff.symm

theorem blockAfter_cons (k : Nat) (l : Text) (ls : List Text) :
    blockAfter k (l :: ls) =
      if (trim l).isEmpty then blockAfter (k + 1) ls
      else match (stripIndent? l).map trimEnd with
        | none => ([], 0)
        | some content => (List.replicate k [] ++ content :: (blockAfter 0 ls).1,
          k + 1 + (blockAfter 0 ls).2) := by
  rw [blockAfter]
  split
  · rfl
  · cases stripIndent? l <;> rfl

theorem blockAfter_flush {ls : List Text} (h : Flush ls) (k : Nat) : blockAfter k ls = ([], 0) := by
  induction ls generalizing k with
  | nil => rfl
  | cons l ls ih =>
    rw [blockAfter_cons]
    rw [flush_cons_iff] at h
    by_cases hb : trim l = []
    · rw [if_pos hb] at h
      rw [if_pos (List.isEmpty_iff.2 hb)]
      exact ih h (k + 1)
    · rw [if_neg hb] at h
      rw [if_neg (mt List.isEmpty_iff.1 hb), h]
      rfl

theorem stripIndent?_dropReturn_eq_none {l : Text} (h : stripIndent? l = none) :
    stripIndent? (dropReturn l) = none := by
  have hmap := stripIndent?_dropReturn l
  rw [h] at hmap
  exact Option.map_eq_none_iff.1 hmap

/-- Lines that start flush do so where a blank line and more flush lines follow. -/
theorem Flush.closed {ls ms ys : List Text} (hl : Flush ls) (h : Closed ls ms) (hy : Flush ys) :
    Flush (ms ++ [] :: ys) := by
  have hblank : Flush ([] :: ys) := flush_cons_iff.2 hy
  induction h with
  | nil => exact hblank
  | blank => exact flush_cons_iff.2 hblank
  | last l =>
    rw [flush_cons_iff] at hl
    rw [List.singleton_append, flush_cons_iff, trim_dropReturn]
    split
    · exact hblank
    · rename_i hb
      rw [if_neg hb] at hl
      exact stripIndent?_dropReturn_eq_none hl
  | cons l h ih =>
    rw [flush_cons_iff] at hl
    rw [List.cons_append, flush_cons_iff]
    split
    · rename_i hb
      rw [if_pos hb] at hl
      exact ih hl
    · rename_i hb
      rwa [if_neg hb] at hl

/-- A block ends at the latest before lines that are flush. -/
theorem blockAfter_closed {ls ms ys : List Text} (h : Closed ls ms) (hy : Flush ys) (k : Nat) :
    blockAfter k (ms ++ [] :: ys) = blockAfter k ls := by
  -- the count of blank lines before is arbitrary: the new blank line raises it
  induction h generalizing k with
  | nil => exact blockAfter_flush hy (k + 1)
  | blank => exact blockAfter_flush hy (k + 1 + 1)
  | last l =>
    -- the block may still take the line, and nothing after it
    have hrest (j : Nat) : blockAfter j ([] :: ys) = ([], 0) := blockAfter_flush hy (j + 1)
    rw [List.singleton_append, blockAfter_cons k (dropReturn l), blockAfter_cons k l,
      trim_dropReturn, stripIndent?_dropReturn, hrest, hrest]
    rfl
  | cons l h ih =>
    rw [List.cons_append, blockAfter_cons k l (_ ++ _), blockAfter_cons k l, ih, ih]

theorem blockAfter_spanned (k : Nat) (ls : List Text) : (blockAfter k ls).2 ≤ k + ls.length := by
  induction ls generalizing k with
  | nil => exact Nat.zero_le _
  | cons l ls ih =>
    rw [blockAfter_cons, List.length_cons]
    split
    · have := ih (k + 1)
      omega
    · split
      · exact Nat.zero_le _
      · have := ih 0
        dsimp only
        omega

end Lines

namespace Directive

theorem claimBlock_closed {keyword line l l' : Text} {ls ms ys : List Text} (h : Closed ls ms)
    (hy : Lines.Flush ys) :
    claimBlock keyword line (l' :: (ms ++ [] :: ys)) 0 = claimBlock keyword line (l :: ls) 0 := by
  have hblock : Lines.block (ms ++ [] :: ys) = Lines.block ls := Lines.blockAfter_closed h hy 0
  unfold claimBlock
  simp only [Nat.zero_add, List.drop_succ_cons, List.drop_zero, hblock]

theorem altLine?_dropReturn (l : Text) : altLine? (dropReturn l) = altLine? l := by
  rcases dropReturn_cases l with h | h
  · rw [h]
  · unfold altLine?
    conv_rhs => rw [h, Lines.stripIndent?_concat]
    cases Lines.stripIndent? (dropReturn l) with
    | none => rfl
    | some rest => exact (Lines.argument?_concat (by decide) rest).symm

theorem altLine?_closed {ls ms ys : List Text} (h : Closed ls ms) :
    ((ms ++ [] :: ys)[0]?).bind altLine? = (ls[0]?).bind altLine? := by
  cases h with
  | nil => rfl
  | blank => rfl
  | last l => exact altLine?_dropReturn l
  | cons l h => rfl

theorem Standard.claim_closed {d : Directive} (hd : d.Standard) (line : Text) {l l' : Text}
    {ls ms ys : List Text} (h : Closed ls ms) (hy : Lines.Flush ys) :
    d.claim line (l' :: (ms ++ [] :: ys)) 0 = d.claim line (l :: ls) 0 := by
  cases hd with
  | heading level => rfl
  | date => rfl
  | image =>
    unfold Directive.image
    simp only [Nat.zero_add, List.getElem?_cons_succ, altLine?_closed h]
  | markdown => exact claimBlock_closed h hy

end Directive

end Folio
