import Folio.Proofs.Document.Block
import Folio.Proofs.Document.Bundle
import Folio.Proofs.Document.Metadata
import Folio.Proofs.Document.Suffix

/-! Two parts of a document with a blank line between them are read apart. What follows the blank
line cannot reach back over it, unless it starts with an indented line that a block before it would
take, or completes an object that a marker before it asks for. -/
namespace Folio

open Text Frontmatter

theorem Frontmatter.capture?_complete {l l' : Text} {ls ms after : List Text}
    (hl : trim l' = trim l) (h : Closed ls ms) (hc : Complete (l :: ls)) :
    capture? (l' :: (ms ++ after)) = capture? (l :: ls) := by
  by_cases hm : IsMarker l
  · -- the object is complete before the lines that follow
    obtain ⟨⟨o, n⟩, hcapture⟩ := Option.isSome_iff_exists.1 (hc [] l ls rfl hm)
    rw [hcapture, capture?_closed hl h hcapture]
  · have hm' : ¬ IsMarker l' := by
      unfold IsMarker
      rwa [hl]
    rw [capture?_eq_none hm, capture?_eq_none hm']

namespace Segment

variable {r : Registry} {l l' : Text} {ls ms ys : List Text}

/-- A line keeps its claim when a blank line comes after the lines that follow it. -/
theorem claimAt?_closed (hr : r.Standard) (hl : trim l' = trim l) (h : Closed ls ms)
    (hc : Complete (l :: ls)) (hy : Lines.Flush ys) :
    claimAt? r (l' :: (ms ++ [] :: ys)) 0 = claimAt? r (l :: ls) 0 := by
  have hdirectives : r.claim? (trim l) (l' :: (ms ++ [] :: ys)) 0 =
      r.claim? (trim l) (l :: ls) 0 := by
    unfold Registry.claim?
    rw [List.map_congr_left fun d hd => (hr d hd).claim_closed _ h hy]
  have hbuiltin : builtinClaim? (trim l) (l' :: (ms ++ [] :: ys)) 0 =
      builtinClaim? (trim l) (l :: ls) 0 := by
    unfold builtinClaim?
    simp only [List.drop_zero, capture?_complete hl h hc, Directive.claimBlock_closed (l := l) h hy]
  unfold claimAt?
  rw [lineAt_cons, lineAt_cons, hl, hbuiltin, hdirectives]

/-- Running text stops at the blank line. -/
theorem runFrom_closed (hr : r.Standard) (h : Closed ls ms) (hc : Complete ls)
    (hy : Lines.Flush ys) : runFrom r (ms ++ [] :: ys) 0 = runFrom r ls 0 := by
  have hblank (zs : List Text) : runFrom r ([] :: zs) 0 = [] := by
    rw [runFrom_cons hr]
    rfl
  -- the lines are the same up to the blank one, and each keeps its claim
  induction ls generalizing ms with
  | nil =>
    rw [show runFrom r [] 0 = [] from runFrom_end (Nat.le_refl 0)]
    cases h with
    | nil => exact hblank ys
    | blank => exact hblank ([] :: ys)
  | cons l ls ih =>
    obtain ⟨l', ms, rfl, hl, hclosed⟩ := h.uncons
    have hends : endsRun r (l' :: (ms ++ [] :: ys)) 0 = endsRun r (l :: ls) 0 := by
      unfold endsRun
      rw [claimAt?_closed hr hl hclosed hc hy, lineAt_cons, lineAt_cons, hl]
    rw [List.cons_append, runFrom_cons hr, runFrom_cons hr, hends, hl,
      ih hclosed (hc.drop 1)]

theorem runFrom_length_le (hr : r.Standard) (ls : List Text) :
    (runFrom r ls 0).length ≤ ls.length := by
  induction ls with
  | nil => exact Nat.le_of_eq (congrArg List.length (runFrom_end (Nat.le_refl 0)))
  | cons l ls ih =>
    rw [runFrom_cons hr]
    split
    · exact Nat.zero_le _
    · exact Nat.succ_le_succ ih

/-- The tokens of lines with a blank line among them are those of the lines before it and those of
the lines after it. -/
theorem tokensOf_closed (hr : r.Standard) (h : Closed ls ms) (hc : Complete ls)
    (hlines : ∀ l ∈ ls, '\n' ∉ l) (hall : ∀ l ∈ ms ++ [] :: ys, '\n' ∉ l) (hy : Lines.Flush ys) :
    tokensOf r (ms ++ [] :: ys) = tokensOf r ls ++ tokensOf r ys := by
  -- on the number of lines before the blank one; a segment takes at least one of them
  induction hk : ls.length using Nat.strongRecOn generalizing ls ms with
  | _ k ih =>
    -- what is left after the first segment ends in the same way
    have hrest {n : Nat} (hn : n ≤ ls.length) (hpos : 0 < n) :
        tokensOf r ((ms ++ [] :: ys).drop n) = tokensOf r (ls.drop n) ++ tokensOf r ys := by
      have hdrop : (ms ++ [] :: ys).drop n = ms.drop n ++ [] :: ys :=
        List.drop_append_of_le_length (Nat.le_trans hn h.length_le)
      rw [hdrop]
      exact ih _ (by rw [List.length_drop]; omega) (h.drop hn) (hc.drop n)
        (fun l hl => hlines l (List.mem_of_mem_drop hl))
        (fun l hl => hall l (List.mem_of_mem_drop (hdrop ▸ hl))) rfl
    cases ls with
    | nil =>
      rw [tokensOf_nil, List.nil_append]
      cases h with
      | nil => exact tokensOf_blank hr hall rfl
      | blank =>
        have hys := (List.forall_mem_cons.1 hall).2
        exact (tokensOf_blank hr hall rfl).trans (tokensOf_blank hr hys rfl)
    | cons l ls =>
      obtain ⟨l', ms, rfl, hl, hclosed⟩ := h.uncons
      have hclaim := claimAt?_closed hr hl hclosed hc hy
      rw [List.cons_append] at hrest hall ⊢
      by_cases hb : trim l = []
      · rw [tokensOf_blank hr hall (hl.trans hb), tokensOf_blank hr hlines hb]
        exact hrest (Nat.succ_le_succ (Nat.zero_le _)) Nat.one_pos
      · have hb' : trim l' ≠ [] := by rwa [hl]
        cases hat : claimAt? r (l :: ls) 0 with
        | some c =>
          -- the claim ends before the blank line
          have hend := claimAt?_end_le hr hlines (Nat.succ_pos _) hat
          rw [Nat.zero_add] at hend
          rw [tokensOf_claimed hr hall hb' (hclaim.trans hat), tokensOf_claimed hr hlines hb hat,
            hrest hend (Nat.le_max_left 1 _), List.append_assoc]
        | none =>
          -- the run may go up to the blank line and no further
          have hrun := runFrom_closed hr hclosed (hc.drop 1) hy
          have hle := runFrom_length_le hr ls
          rw [tokensOf_run hr hall hb' (hclaim.trans hat), tokensOf_run hr hlines hb hat, hl, hrun]
          have hdrop := hrest (n := (runFrom r ls 0).length + 1) (Nat.succ_le_succ hle)
            (Nat.succ_pos _)
          rw [List.drop_succ_cons, List.drop_succ_cons] at hdrop
          rw [hdrop]
          rfl

end Segment

open Segment

theorem lines_append_blank (a b : Text) :
    lines (a ++ "\n\n".toList ++ b) = ended a ++ [] :: lines b := by
  calc lines (a ++ "\n\n".toList ++ b)
      = lines (a ++ '\n' :: '\n' :: b) := by
        rw [List.append_assoc]
        rfl
    _ = ended a ++ lines ('\n' :: b) := lines_append_cons a ('\n' :: b)
    _ = ended a ++ [] :: lines b := congrArg _ (lines_append_cons [] b)

section Parts

variable {r : Registry} (hr : r.Standard) {a b : Text} (ha : Complete (lines a))
  (hb : Lines.Flush (lines b))
include hr ha hb

/-- Two parts of a document with a blank line between them give the tokens of the one and those of
the other. -/
theorem tokenize_append : (tokenize r (a ++ "\n\n".toList ++ b)).value =
    (tokenize r a).value ++ (tokenize r b).value := by
  have htokens (t : Text) : (tokenize r t).value = tokensOf r (lines t) := rfl
  have hunbroken (t : Text) : ∀ l ∈ lines t, '\n' ∉ l := fun _ hl => newline_not_mem_of_mem_lines hl
  rw [htokens, htokens, htokens, lines_append_blank]
  exact tokensOf_closed hr (closed_ended a) ha (hunbroken a) (lines_append_blank a b ▸ hunbroken _) hb

/-- And the nodes of the one and those of the other. -/
theorem nodesOf_append : (nodesOf r (a ++ "\n\n".toList ++ b)).value =
    (nodesOf r a).value ++ (nodesOf r b).value := by
  have hnodes (t : Text) : (nodesOf r t).value = (parseFrom r (tokenize r t).value 0).value := rfl
  calc (nodesOf r (a ++ "\n\n".toList ++ b)).value
      = (parseFrom r ((tokenize r a).value ++ (tokenize r b).value) 0).value := by
        rw [hnodes, tokenize_append hr ha hb]
    _ = (parseFrom r (tokenize r a).value 0).value ++ (parseFrom r (tokenize r b).value 0).value :=
        parseFrom_append hr (tokenize_alts hr b).head_ne (Nat.zero_le _)
    _ = (nodesOf r a).value ++ (nodesOf r b).value := by rw [hnodes, hnodes]

end Parts

/-- Two parts of a document with a blank line between them are read apart, the lines into tokens and
the tokens into nodes, whichever directives of the library are in use. -/
theorem read_apart {r : Registry} (hr : r.Standard) {a b : Text} (ha : Complete (lines a))
    (hb : Lines.Flush (lines b)) :
    (tokenize r (a ++ "\n\n".toList ++ b)).value =
      (tokenize r a).value ++ (tokenize r b).value ∧
    (nodesOf r (a ++ "\n\n".toList ++ b)).value = (nodesOf r a).value ++ (nodesOf r b).value :=
  ⟨tokenize_append hr ha hb, nodesOf_append hr ha hb⟩

/-- The first part ends where a block could begin, and the indented line of the second comes too late
for it. -/
theorem read_apart_script :
    Registry.builtin.Standard ∧
    Complete (lines "frontmatter\n\x7b\x7d\nimage a.png\nscript\r".toList) ∧
    Lines.Flush (lines " \nalt A\n\tB".toList) ∧
    (tokenize Registry.builtin ("frontmatter\n\x7b\x7d\nimage a.png\nscript\r".toList ++
        "\n\n".toList ++ " \nalt A\n\tB".toList)).value =
      (tokenize Registry.builtin "frontmatter\n\x7b\x7d\nimage a.png\nscript\r".toList).value ++
        (tokenize Registry.builtin " \nalt A\n\tB".toList).value ∧
    (nodesOf Registry.builtin ("frontmatter\n\x7b\x7d\nimage a.png\nscript\r".toList ++
        "\n\n".toList ++ " \nalt A\n\tB".toList)).value =
      (nodesOf Registry.builtin "frontmatter\n\x7b\x7d\nimage a.png\nscript\r".toList).value ++
        (nodesOf Registry.builtin " \nalt A\n\tB".toList).value := by
  have hcomplete : Complete (lines "frontmatter\n\x7b\x7d\nimage a.png\nscript\r".toList) := by
    decide
  have hflush : Lines.Flush (lines " \nalt A\n\tB".toList) := by decide
  exact ⟨Registry.builtin_standard, hcomplete, hflush,
    read_apart Registry.builtin_standard hcomplete hflush⟩

theorem Lines.Flush.append {a b : Text} (ha : Flush (lines a)) (hb : Flush (lines b)) :
    Flush (lines (a ++ "\n\n".toList ++ b)) := by
  rw [lines_append_blank]
  exact ha.closed (closed_ended a) hb

end Folio
