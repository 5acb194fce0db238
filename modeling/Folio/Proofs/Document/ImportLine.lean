import Folio.Proofs.Document.Lines
import Folio.Proofs.Document.Standard
import Folio.Proofs.Document.Tiling

namespace Folio

theorem Kind.space_not_mem_of_flag {f : Text} (h : f ∈ flags) : ' ' ∉ f := by
  revert f
  decide

/-- The line that imports a reference. -/
def importLine (reference : Text) : Text := Kind.importKind ++ ' ' :: reference

theorem head?_importLine (t : Text) : (importLine t).head? = some 'i' := by
  rw [importLine, List.head?_append]
  rfl

theorem trim_importLine {t : Text} (hne : t ≠ []) (ht : Text.trim t = t) :
    Text.trim (importLine t) = importLine t := by
  obtain ⟨cs, hcs⟩ := List.head?_eq_some_iff.1 (head?_importLine t)
  have hstart : Text.trimStart (importLine t) = importLine t := by
    rw [hcs]
    exact List.dropWhile_cons_of_neg (by decide)
  rw [Text.trim, hstart, importLine, List.append_cons]
  exact Text.trimEnd_append hne ht _

namespace Segment

variable (r : Registry) {lines : List Text} {i : Nat} {t : Text}

theorem claimAt?_importLine (h : lineAt lines i = importLine t) (ht : Text.trim t = t) :
    claimAt? r lines i = some (.single Kind.importKind t) := by
  have hflag : importLine t ∉ Kind.flags := fun hm =>
    Kind.space_not_mem_of_flag hm (by simp [importLine])
  have harg : Lines.argument? Kind.importKind (importLine t) = some t :=
    Lines.argument?_eq_some_iff.2 ⟨t, rfl, ht.symm⟩
  rw [claimAt?, h, builtinClaim?, if_neg hflag]
  simp only [harg, Option.some_or]

theorem startingAt_importLine (hi : i < lines.length) (h : lineAt lines i = importLine t)
    (ht : Text.trim t = t) :
    startingAt r lines i =
      .claimed (importLine t) (.single Kind.importKind t) :: startingAt r lines (i + 1) := by
  have hblank : ¬ BlankAt lines i := by
    rw [BlankAt, h, importLine]
    simp
  rw [startingAt_claimed hi hblank (claimAt?_importLine r h ht) (.of_le hi), h]
  rfl

end Segment

theorem parseTokens_import (r : Registry) (t : Text) :
    (parseTokens r [⟨Kind.importKind, t⟩]).value = [.scalar Kind.importKind t] := by
  have hstep : Step.at? r ⟨[⟨Kind.importKind, t⟩], 0⟩ =
      some ⟨some (.scalar Kind.importKind t), 1, false⟩ := rfl
  rw [parseTokens, parseFrom_step hstep (.of_le (Nat.le_refl 1)), parseFrom_end (by simp)]
  rfl

theorem lines_importLine {t : Text} (hline : '\n' ∉ t) :
    Text.lines (importLine t) = [importLine t] := by
  refine Text.lines_of_not_mem (by simp [importLine]) ?_
  rw [importLine, List.mem_append, List.mem_cons, not_or, not_or]
  exact ⟨by decide, by decide, hline⟩

theorem nodesOf_importLine (r : Registry) {t : Text} (hne : t ≠ []) (ht : Text.trim t = t)
    (hline : '\n' ∉ t) : (nodesOf r (importLine t)).value = [.scalar Kind.importKind t] := by
  have htokens : (tokenize r (importLine t)).value = [⟨Kind.importKind, t⟩] := by
    have hat : Segment.lineAt [importLine t] 0 = importLine t := trim_importLine hne ht
    rw [tokenize, segments, lines_importLine hline, Segment.startingAt_importLine r Nat.one_pos hat ht,
      Segment.startingAt_end (show [importLine t].length ≤ 0 + 1 from Nat.le_refl _)]
    rfl
  rw [nodesOf, Logged.bind, htokens]
  exact parseTokens_import r t

end Folio
