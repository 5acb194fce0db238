import Folio.Proofs.Document.Keyword
import Folio.Proofs.Document.Tiling

namespace Folio.Segment

variable {r : Registry} {lines : List Text} {i : Nat}

/-- The forms of claims, in the order in which they are tried. -/
inductive ClaimForm (r : Registry) (lines : List Text) (i : Nat) : Claim → Prop
  | flag : lineAt lines i ∈ Kind.flags →
      ClaimForm r lines i (.single (lineAt lines i) "true".toList)
  | importing {path : Text} : Lines.argument? Kind.importKind (lineAt lines i) = some path →
      ClaimForm r lines i (.single Kind.importKind path)
  | definition {v : Text} : Lines.argument? "var".toList (lineAt lines i) = some v →
      ClaimForm r lines i (.single Kind.variableKind v)
  | metadata {o : Text} {n : Nat} : Frontmatter.capture? (lines.drop i) = some (o, n) →
      ClaimForm r lines i ⟨n, [⟨Kind.frontmatter, o⟩]⟩
  | block {k : Text} : k = Kind.script ∨ k = Kind.markdown ∧ k ∈ r.keywords →
      lineAt lines i = k → (Lines.block (lines.drop (i + 1))).1 ≠ [] →
      ClaimForm r lines i ⟨1 + (Lines.block (lines.drop (i + 1))).2,
        [⟨k, Lines.joinWithBreaks (Lines.block (lines.drop (i + 1))).1⟩]⟩
  | directive {k v : Text} : k ∈ r.keywords → k ≠ Kind.markdown →
      Lines.argument? k (lineAt lines i) = some v → ClaimForm r lines i (.single k v)
  | captioned {source next alt : Text} : Kind.image ∈ r.keywords →
      Lines.argument? Kind.image (lineAt lines i) = some source →
      lines[i + 1]? = some next → Directive.altLine? next = some alt →
      ClaimForm r lines i ⟨2, [⟨Kind.image, source⟩, ⟨Kind.alt, alt⟩]⟩

theorem claimForm_of_claimBlock {k : Text} (hk : k = Kind.script ∨ k = Kind.markdown ∧ k ∈ r.keywords)
    (h : (Directive.claimBlock k (lineAt lines i) lines i).isMatch) :
    ClaimForm r lines i (Directive.claimBlock k (lineAt lines i) lines i) := by
  unfold Directive.claimBlock at h ⊢
  dsimp only at h ⊢
  split at h
  · rename_i hline
    rw [if_pos hline]
    split at h
    · cases h
    · rename_i hbody
      rw [if_neg hbody]
      exact .block hk hline (by simpa using hbody)
  · cases h

theorem claimForm_of_claimLine {k : Text} (hk : k ∈ r.keywords) (hne : k ≠ Kind.markdown)
    (h : (Directive.claimLine k (lineAt lines i)).isMatch) :
    ClaimForm r lines i (Directive.claimLine k (lineAt lines i)) := by
  unfold Directive.claimLine at h ⊢
  split at h
  · rename_i hv
    exact .directive hk hne hv
  · cases h

theorem claimForm_of_directive {d : Directive} (hd : d.Standard) (hmem : d ∈ r)
    (h : (d.claim (lineAt lines i) lines i).isMatch) :
    ClaimForm r lines i (d.claim (lineAt lines i) lines i) := by
  have hkeyword : d.keyword ∈ r.keywords := List.mem_map_of_mem hmem
  cases hd with
  | heading level =>
    refine claimForm_of_claimLine hkeyword (fun hk => ?_) h
    have hhead : (Directive.headingKeyword level).head? = some 't' := by
      unfold Directive.headingKeyword
      split <;> rfl
    rw [hk] at hhead
    cases hhead
  | date => exact claimForm_of_claimLine hkeyword (by decide) h
  | markdown => exact claimForm_of_claimBlock (Or.inr ⟨rfl, hkeyword⟩) h
  | image =>
    unfold Directive.image at h ⊢
    dsimp only at h ⊢
    split at h
    · cases h
    · rename_i source hsource
      cases halt : lines[i + 1]?.bind Directive.altLine? with
      | none => exact .directive hkeyword (by decide) hsource
      | some alt =>
        obtain ⟨next, hnext, halt⟩ := Option.bind_eq_some_iff.1 halt
        exact .captioned hkeyword hsource hnext halt

/-- A claimed line is claimed in one of the forms. -/
theorem claimForm_of_claimAt? (hr : r.Standard) {c : Claim} (hc : claimAt? r lines i = some c) :
    ClaimForm r lines i c := by
  obtain ⟨_, _, _, _, _, _, hmatch⟩ := claimAt?_eq_some_iff.1 hc
  refine claimAt?_of_rules (motive := fun c => c.isMatch → ClaimForm r lines i c) (fun q hq h => ?_)
    (fun d hd => claimForm_of_directive (hr d hd) hd) hc hmatch
  simp only [Rule.builtin, List.mem_cons, List.not_mem_nil, or_false] at hq
  -- flag, import, variable, metadata, script
  rcases hq with rfl | rfl | rfl | rfl | rfl
  · unfold Rule.flag at h ⊢
    split at h
    · rename_i hflag
      rw [if_pos hflag]
      exact .flag hflag
    · cases h
  · unfold Rule.keyword at h ⊢
    split at h
    · rename_i path hpath
      exact .importing hpath
    · cases h
  · unfold Rule.keyword at h ⊢
    split at h
    · rename_i v hv
      exact .definition hv
    · cases h
  · unfold Rule.metadata at h ⊢
    split at h
    · rename_i o n hcapture
      exact .metadata hcapture
    · cases h
  · exact claimForm_of_claimBlock (Or.inl rfl) h

end Folio.Segment
