import Mathlib.Data.List.Forall2
import Folio.Proofs.Document.Block
import Folio.Proofs.Document.ClaimForm
import Folio.Proofs.Document.Metadata
import Folio.Proofs.Document.Suffix

namespace Folio

open Text

namespace Lines

/-- Lines that a block can have for a body. -/
structure IsBody (b : List Text) : Prop where
  lines : ∀ l ∈ b, '\n' ∉ l ∧ trimEnd l = l
  closed : ∃ l ∈ b.getLast?, l ≠ []

/-- A line of a body, and how it is written below a keyword. -/
inductive Written : Text → Text → Prop
  | indented (indent : Text) {l : Text} : indent ∈ indents → l ≠ [] → Written l (indent ++ l)
  | blank {w : Text} : '\n' ∉ w → (∀ c ∈ w, isBlank c) → Written [] w

namespace Written

variable {l w : Text}

theorem unbroken (h : Written l w) (hl : '\n' ∉ l) : '\n' ∉ w := by
  cases h with
  | blank hw _ => exact hw
  | indented indent hindent _ =>
    have hfree : ∀ indent ∈ indents, '\n' ∉ indent := by decide
    rw [List.mem_append, not_or]
    exact ⟨hfree _ hindent, hl⟩

/-- A return at the end of the line is a blank of its own. -/
theorem dropReturn (h : Written l w) (ht : trimEnd l = l) : Written l (dropReturn w) := by
  cases h with
  | blank hw hall =>
    refine .blank (not_mem_dropReturn hw) fun c hc => ?_
    rcases dropReturn_cases w with hd | hd
    · exact hall c (hd ▸ hc)
    · exact hall c (hd ▸ List.mem_append_left _ hc)
  | indented indent hindent hl =>
    have hend : trimEnd (indent ++ l) = indent ++ l := by
      rw [trimEnd_prepend, ht, if_neg hl]
    rw [dropReturn_of_trimEnd hend]
    exact .indented indent hindent hl

end Written

/-- The written lines stay lines of their own, and a return at the end of one makes no difference. -/
theorem written_lines {b ws : List Text} (h : List.Forall₂ Written b ws)
    (hb : ∀ l ∈ b, '\n' ∉ l ∧ trimEnd l = l) :
    (∀ w ∈ ws, '\n' ∉ w) ∧ List.Forall₂ Written b (ws.map Text.dropReturn) := by
  induction h with
  | nil => exact ⟨by simp, .nil⟩
  | cons hw _ ih =>
    obtain ⟨⟨hbreak, htrim⟩, hb⟩ := List.forall_mem_cons.1 hb
    obtain ⟨hbreaks, hwritten⟩ := ih hb
    exact ⟨List.forall_mem_cons.2 ⟨hw.unbroken hbreak, hbreaks⟩, .cons (hw.dropReturn htrim) hwritten⟩

/-- The lines of a body come back, with as many empty lines before them as blank ones came before. -/
theorem blockAfter_written {b ws ys : List Text} (h : List.Forall₂ Written b ws) (hb : IsBody b)
    (hy : Flush ys) (k : Nat) :
    blockAfter k (ws ++ ys) = (List.replicate k [] ++ b, k + b.length) := by
  -- the count of blank lines is arbitrary: an empty line raises it
  induction h generalizing k with
  | nil =>
    obtain ⟨_, hl, _⟩ := hb.closed
    cases hl
  | @cons l w b ws hw hrest ih =>
    obtain ⟨⟨_, htrim⟩, hlines⟩ := List.forall_mem_cons.1 hb.lines
    have hmore (hne : b ≠ []) : IsBody b := by
      obtain ⟨m, b, rfl⟩ := List.exists_cons_of_ne_nil hne
      exact ⟨hlines, by simpa only [List.getLast?_cons_cons] using hb.closed⟩
    rw [List.cons_append, blockAfter_cons]
    cases hw with
    | blank _ hall =>
      -- an empty line is not the last one
      have hne : b ≠ [] := by
        rintro rfl
        obtain ⟨_, hl, hne⟩ := hb.closed
        exact hne (Option.some.inj hl).symm
      rw [if_pos (List.isEmpty_iff.2 (trim_eq_nil hall)), ih (hmore hne) (k + 1),
        List.replicate_succ', List.length_cons]
      simp only [List.append_assoc, List.singleton_append, Nat.add_assoc, Nat.add_comm 1]
    | indented indent hindent hne =>
      have hshown : trim (indent ++ l) ≠ [] := by
        rw [ne_eq, trim_eq_nil_iff, List.forall_mem_append, ← trimEnd_eq_nil_iff (t := l), htrim]
        exact fun h => hne h.2
      have hrest : blockAfter 0 (ws ++ ys) = (b, b.length) := by
        by_cases hb : b = []
        · subst hb
          cases hrest
          exact blockAfter_flush hy 0
        · rw [ih (hmore hb) 0, List.replicate_zero, List.nil_append, Nat.zero_add]
      rw [if_neg (mt List.isEmpty_iff.1 hshown), stripIndent?_eq_some_iff.2 ⟨indent, hindent, rfl⟩,
        Option.map_some, htrim, hrest]
      simp only [List.length_cons, Nat.add_assoc, Nat.add_comm 1]

/-- What is read as a block is a body. -/
theorem isBody_blockAfter {ls : List Text} (hls : ∀ l ∈ ls, '\n' ∉ l) {k : Nat}
    (hne : (blockAfter k ls).1 ≠ []) : IsBody (blockAfter k ls).1 := by
  induction ls generalizing k with
  | nil => exact absurd rfl hne
  | cons l ls ih =>
    obtain ⟨hl, hlater⟩ := List.forall_mem_cons.1 hls
    rw [blockAfter_cons] at hne ⊢
    by_cases hblank : trim l = []
    · rw [if_pos (List.isEmpty_iff.2 hblank)] at hne ⊢
      exact ih hlater hne
    · rw [if_neg (mt List.isEmpty_iff.1 hblank)] at hne ⊢
      cases hindent : stripIndent? l with
      | none =>
        rw [hindent] at hne
        exact absurd rfl hne
      | some rest =>
        obtain ⟨indent, hmem, rfl⟩ := stripIndent?_eq_some_iff.1 hindent
        -- the line is not blank, so there is something after its indentation
        have hcontent : trimEnd rest ≠ [] := by
          rw [ne_eq, trimEnd_eq_nil_iff]
          exact fun h => hblank (trim_eq_nil (List.forall_mem_append.2 ⟨isBlank_of_indent hmem, h⟩))
        have hrest : '\n' ∉ trimEnd rest := by
          obtain ⟨blanks, hrest, _⟩ := exists_trimEnd rest
          intro h
          exact hl (List.mem_append_right indent (hrest ▸ List.mem_append_left blanks h))
        dsimp only [Option.map_some]
        generalize hbody : (blockAfter 0 ls).1 = body
        have hmore : body ≠ [] → IsBody body := fun h => hbody ▸ ih hlater (hbody ▸ h)
        constructor
        · rw [List.forall_mem_append, List.forall_mem_cons]
          refine ⟨fun m hm => ?_, ⟨hrest, trimEnd_trimEnd rest⟩, fun m hm => ?_⟩
          · rw [List.eq_of_mem_replicate hm]
            exact ⟨List.not_mem_nil, rfl⟩
          · exact (hmore (List.ne_nil_of_mem hm)).lines m hm
        · rw [List.getLast?_append_cons]
          by_cases hnil : body = []
          · subst hnil
            exact ⟨_, rfl, hcontent⟩
          · obtain ⟨m, body, rfl⟩ := List.exists_cons_of_ne_nil hnil
            rw [List.getLast?_cons_cons]
            exact (hmore hnil).closed

end Lines

open Lines Segment

/-- The keywords of blocks. -/
def Kind.blocks : List Text := [Kind.script, Kind.markdown]

theorem Kind.mem_blocks {k : Text} {p : Prop} (h : k = Kind.script ∨ k = Kind.markdown ∧ p) :
    k ∈ Kind.blocks := by
  rcases h with rfl | ⟨rfl, _⟩
  · decide
  · decide

variable {r : Registry} {k : Text}

theorem Segment.claimAt?_isSome_of_rule {q : Rule} {lines : List Text} {i : Nat} (hq : q ∈ Rule.all r)
    (h : (q (lineAt lines i) lines i).isMatch) : (claimAt? r lines i).isSome := by
  rw [claimAt?_eq_find?, List.find?_isSome]
  exact ⟨_, List.mem_map_of_mem hq, h⟩

/-- A keyword with a block below it is claimed for the block. -/
theorem Segment.claimAt?_block (hr : r.Standard) {ls : List Text}
    (hk : k = Kind.script ∨ k = Kind.markdown ∧ Directive.markdown ∈ r) (hls : (block ls).1 ≠ []) :
    claimAt? r (k :: ls) 0 = some ⟨1 + (block ls).2, [⟨k, joinWithBreaks (block ls).1⟩]⟩ := by
  have hkeyword := Kind.mem_blocks hk
  have hline : lineAt (k :: ls) 0 = k := by
    have htrim : ∀ k ∈ Kind.blocks, trim k = k := by decide
    exact htrim k hkeyword
  have hspace : ' ' ∉ lineAt (k :: ls) 0 := by
    have hfree : ∀ k ∈ Kind.blocks, ' ' ∉ k := by decide
    rw [hline]
    exact hfree k hkeyword
  have hmatch : (Directive.claimBlock k (lineAt (k :: ls) 0) (k :: ls) 0).isMatch := by
    rw [hline, Directive.claimBlock, if_pos rfl]
    dsimp only [Nat.zero_add, List.drop_succ_cons, List.drop_zero]
    rw [if_neg (by simpa using hls)]
    rfl
  have hsome : (claimAt? r (k :: ls) 0).isSome := by
    rcases hk with rfl | ⟨rfl, hmem⟩
    · exact claimAt?_isSome_of_rule (q := Rule.script) (by simp [Rule.all, Rule.builtin]) hmatch
    · exact claimAt?_isSome_of_rule (List.mem_append_right _ (List.mem_map_of_mem hmem)) hmatch
  obtain ⟨c, hc⟩ := Option.isSome_iff_exists.1 hsome
  rw [hc]
  -- a rule that comes earlier could win; but the line is neither a flag nor a marker of metadata, and
  -- has no argument, so every other form of claim is excluded
  cases claimForm_of_claimAt? hr hc with
  | flag hflag =>
    have hfree : ∀ k ∈ Kind.blocks, k ∉ Kind.flags := by decide
    exact absurd (hline ▸ hflag) (hfree k hkeyword)
  | importing hv => exact absurd (space_mem_of_argument? hv) hspace
  | definition hv => exact absurd (space_mem_of_argument? hv) hspace
  | directive _ _ hv => exact absurd (space_mem_of_argument? hv) hspace
  | captioned _ hv _ _ => exact absurd (space_mem_of_argument? hv) hspace
  | metadata hcapture =>
    have hfree : ∀ k ∈ Kind.blocks, ¬ Frontmatter.IsMarker k := by decide
    rw [List.drop_zero, Frontmatter.capture?_eq_none (hfree k hkeyword)] at hcapture
    cases hcapture
  | block _ hkind _ =>
    obtain rfl := hline.symm.trans hkind
    rfl

/-- Every body can be written in a block, and comes back line by line in one token; what follows the
block is read as it is alone. -/
theorem tokenize_block (hr : r.Standard)
    (hk : k = Kind.script ∨ k = Kind.markdown ∧ Directive.markdown ∈ r) {b ws : List Text}
    (hb : IsBody b) (hw : List.Forall₂ Written b ws) {rest : Text} (hrest : Flush (lines rest)) :
    (tokenize r (k ++ '\n' :: joinWith ['\n'] ws ++ '\n' :: rest)).value =
      ⟨k, joinWith ['\n'] b⟩ :: (tokenize r rest).value := by
  have hkeyword := Kind.mem_blocks hk
  have hplain : ∀ k ∈ Kind.blocks, '\n' ∉ k ∧ dropReturn k = k ∧ trim k ≠ [] := by decide
  obtain ⟨hunbroken, hreturn, hshown⟩ := hplain k hkeyword
  have hbne : b ≠ [] := by
    rintro rfl
    obtain ⟨_, hl, _⟩ := hb.closed
    cases hl
  have hwne : ws ≠ [] := fun h => hbne (List.forall₂_nil_right_iff.1 (h ▸ hw))
  obtain ⟨hbreaks, hwritten⟩ := written_lines hw hb.lines
  -- the returns at the ends of the lines are gone before the block is read
  have hblock : block (ws.map dropReturn ++ lines rest) = (b, b.length) := by
    rw [block, blockAfter_written hwritten hb hrest, List.replicate_zero, List.nil_append,
      Nat.zero_add]
  have hlines : lines (k ++ '\n' :: joinWith ['\n'] ws ++ '\n' :: rest) =
      k :: (ws.map dropReturn ++ lines rest) := by
    have hjoin : k ++ '\n' :: joinWith ['\n'] ws = joinWith ['\n'] (k :: ws) := by
      rw [joinWith_cons hwne, List.append_assoc]
      rfl
    rw [hjoin, lines_append_cons, ended, splitOn_joinWith (List.cons_ne_nil k ws)
      (List.forall_mem_cons.2 ⟨hunbroken, hbreaks⟩), List.map_cons, hreturn, List.cons_append]
  have hsome : (block (ws.map dropReturn ++ lines rest)).1 ≠ [] := by rwa [hblock]
  have hclaim := claimAt?_block hr hk hsome
  calc (tokenize r (k ++ '\n' :: joinWith ['\n'] ws ++ '\n' :: rest)).value
      = tokensOf r (k :: (ws.map dropReturn ++ lines rest)) := by rw [← hlines]; rfl
    _ = ⟨k, joinWith ['\n'] b⟩ :: tokensOf r ((ws.map dropReturn ++ lines rest).drop b.length) := by
        rw [tokensOf_claimed hr (fun l hl => newline_not_mem_of_mem_lines (hlines ▸ hl)) hshown hclaim,
          hblock, Nat.max_eq_right (Nat.le_add_right 1 _), Nat.add_comm 1, List.drop_succ_cons]
        rfl
    _ = ⟨k, joinWith ['\n'] b⟩ :: tokensOf r (lines rest) := by
        rw [List.drop_left' (by rw [List.length_map, hw.length_eq])]
    _ = ⟨k, joinWith ['\n'] b⟩ :: (tokenize r rest).value := rfl

/-- A body that starts with an empty line and has a line that looks like a heading. -/
def outline : List Text := [[], "  - a".toList, [], "title b".toList]

/-- The same as it is written, with blanks and a return for empty lines. -/
def outlineLines : List Text :=
  [" \r".toList, "\t  - a".toList, "    ".toList, "    title b".toList]

theorem outline_written : List.Forall₂ Written outline outlineLines := by
  have hblank : ∀ w ∈ [" \r".toList, "    ".toList], '\n' ∉ w ∧ w.all isBlank := by decide
  have hwritten (w : Text) (hw : w ∈ [" \r".toList, "    ".toList]) : Written [] w :=
    .blank (hblank w hw).1 (List.all_eq_true.1 (hblank w hw).2)
  exact .cons (hwritten _ (by simp)) <| .cons (.indented ['\t'] (by decide) (by decide)) <|
    .cons (hwritten _ (by simp)) <| .cons (.indented "    ".toList (by decide) (by decide)) .nil

theorem tokenize_block_outline :
    Registry.Standard [Directive.date, Directive.markdown] ∧ IsBody outline ∧
    List.Forall₂ Written outline outlineLines ∧ Flush (lines "\n \ntitle c\n\td".toList) ∧
    (tokenize [Directive.date, Directive.markdown] (Kind.markdown ++ '\n' ::
        joinWith ['\n'] outlineLines ++ '\n' :: "\n \ntitle c\n\td".toList)).value =
      ⟨Kind.markdown, "\n  - a\n\ntitle b".toList⟩ ::
        (tokenize [Directive.date, Directive.markdown] "\n \ntitle c\n\td".toList).value := by
  have hr : Registry.Standard [Directive.date, Directive.markdown] := by
    intro d hd
    simp only [List.mem_cons, List.not_mem_nil, or_false] at hd
    rcases hd with rfl | rfl
    · exact .date
    · exact .markdown
  have hb : IsBody outline := ⟨by decide, _, rfl, by decide⟩
  have hrest : Flush (lines "\n \ntitle c\n\td".toList) := by decide
  exact ⟨hr, hb, outline_written, hrest,
    tokenize_block hr (Or.inr ⟨rfl, by simp⟩) hb outline_written hrest⟩

end Folio
