import Mathlib.Data.Nat.Find
import Folio.Document.Listing
import Folio.Proofs.Document.Advancing
import Folio.Proofs.Document.Body
import Folio.Proofs.Document.MetadataBlock

/-! The metadata that a listing shows. It is found by going over the lines of a document, while the
page takes it from the tokens. Both come to the same object unless the first line with one is in the
body of a script or of markdown, which the listing does not tell from a line of the document. -/
namespace Folio

open Text

/-- A stretch of lines for a script or for markdown: the line of the keyword, and the body. -/
def Stretch.IsBlock (s : Stretch) : Prop := ∃ k ∈ Kind.blocks, ∃ v, s.tokens = [⟨k, v⟩]

namespace Frontmatter

/-- The line is in the body of a script or of markdown. -/
def InBody (source : Text) (i : Nat) : Prop :=
  ∃ ss s, Tiles Registry.builtin (lines source) 0 ss ∧ s ∈ ss ∧ s.IsBlock ∧
    s.start < i ∧ i < s.start + s.length

/-- The first line on which a marker has its object. -/
structure FirstCapture (lines : List Text) (i : Nat) (o : Text) : Prop where
  captured : ∃ n, capture? (lines.drop i) = some (o, n)
  first : ∀ j < i, capture? (lines.drop j) = none

/-- The members are those of the first metadata among the tokens; without any there are none. -/
def IsFirstOf (f : Frontmatter) (ts : List Token) : Prop :=
  match ts.find? fun t => t.kind = Kind.frontmatter with
  | some t => parse t.value = .ok f
  | none => f = []

theorem isMarker_of_capture? {l : Text} {ls : List Text} (h : (capture? (l :: ls)).isSome) :
    IsMarker l := by
  by_contra hm
  rw [capture?_eq_none hm] at h
  cases h

/-- The first test of a line leaves no marker out. -/
theorem extractFrom_cons (l : Text) (ls : List Text) :
    extractFrom (l :: ls) = (capture? (l :: ls)).elim (extractFrom ls) fun found =>
      (parse found.1).toOption.getD [] := by
  have htest (hm : IsMarker l) : (stripPrefix? Kind.frontmatter (trimStart l)).isSome := by
    obtain ⟨blanks, hstart, _⟩ := exists_trimEnd (trimStart l)
    obtain ⟨rest, hrest⟩ : ∃ rest, trim l = Kind.frontmatter ++ rest := by
      rcases hm with hm | ⟨rest, hm⟩
      · exact ⟨[], by rw [hm, List.append_nil]⟩
      · exact ⟨' ' :: rest, by rw [← hm, List.append_assoc]; rfl⟩
    rw [Option.isSome_iff_exists]
    refine ⟨rest ++ blanks, stripPrefix?_eq_some_iff.2 ?_⟩
    rw [hstart, ← trim, hrest, List.append_assoc]
  rw [extractFrom]
  by_cases hp : (stripPrefix? Kind.frontmatter (trimStart l)).isSome
  · rw [if_pos hp]
    cases capture? (l :: ls) <;> rfl
  · rw [if_neg hp, capture?_eq_none (mt htest hp)]
    rfl

theorem parse_extractFrom {ls : List Text} {i : Nat} {o : Text} (h : FirstCapture ls i o) :
    parse o = .ok (extractFrom ls) := by
  induction ls generalizing i with
  | nil =>
    obtain ⟨_, hcapture⟩ := h.captured
    rw [List.drop_nil] at hcapture
    cases hcapture
  | cons l ls ih =>
    rw [extractFrom_cons]
    cases i with
    | zero =>
      obtain ⟨n, hcapture⟩ := h.captured
      rw [List.drop_zero] at hcapture
      obtain ⟨_, _, _, _, hobject, _⟩ := capture?_eq_some_iff.1 hcapture
      obtain ⟨ms, hms⟩ := exists_parse hobject
      rw [hcapture, Option.elim_some, parse_eq_ok hobject hms]
      rfl
    | succ i =>
      have hnone : capture? (l :: ls) = none := h.first 0 (Nat.succ_pos i)
      rw [hnone, Option.elim_none]
      exact ih ⟨h.captured, fun j hj => h.first (j + 1) (Nat.succ_lt_succ hj)⟩

theorem extractFrom_eq_nil {ls : List Text} (h : ∀ i, capture? (ls.drop i) = none) :
    extractFrom ls = [] := by
  induction ls with
  | nil => rfl
  | cons l ls ih =>
    have hnone : capture? (l :: ls) = none := h 0
    rw [extractFrom_cons, hnone, Option.elim_none]
    exact ih fun i => h (i + 1)

theorem exists_firstCapture {ls : List Text} (h : ¬ ∀ i, capture? (ls.drop i) = none) :
    ∃ i o, FirstCapture ls i o := by
  classical
  rw [not_forall] at h
  obtain ⟨⟨o, n⟩, hcapture⟩ := Option.ne_none_iff_exists'.1 (Nat.find_spec h)
  exact ⟨Nat.find h, o, ⟨n, hcapture⟩, fun j hj => not_not.1 (Nat.find_min h hj)⟩

section

open Segment

variable {r : Registry} {lines : List Text} {s : Stretch} {i : Nat} {o : Text}

/-- A line on which a marker has its object is claimed for it. -/
theorem claimAt?_of_capture? (hr : r.Standard) {n : Nat} (h : capture? (lines.drop i) = some (o, n)) :
    ¬ BlankAt lines i ∧ claimAt? r lines i = some ⟨n, [⟨Kind.frontmatter, o⟩]⟩ := by
  rw [BlankAt, claimAt?_drop hr, lineAt_drop]
  cases hls : lines.drop i with
  | nil =>
    rw [hls] at h
    cases h
  | cons l ls =>
    rw [hls] at h
    have hm := isMarker_of_capture? (by rw [h]; rfl)
    -- a marker starts with a letter, so its line is not blank
    obtain ⟨cs, hcs⟩ := hm.head
    refine ⟨?_, claimAt?_metadata r hm h⟩
    rw [lineAt_cons, hcs]
    exact List.cons_ne_nil _ _

theorem tokens_of_capture? (hr : r.Standard) (hs : s.Valid r lines) {n : Nat}
    (h : capture? (lines.drop s.start) = some (o, n)) : s.tokens = [⟨Kind.frontmatter, o⟩] := by
  obtain ⟨hshown, hclaim⟩ := claimAt?_of_capture? hr h
  cases hs with
  | blank _ hblank => exact absurd hblank hshown
  | claimed _ _ hc => rw [Option.some.inj ((claimAt?_eq_some_iff.2 hc).symm.trans hclaim)]
  | run hn _ hrun _ =>
    exact absurd ⟨_, claimAt?_eq_some_iff.1 hclaim⟩ (hrun _ (Nat.le_refl _) (by omega)).2

/-- Tokens with metadata come from markers alone. -/
theorem kind_ne_of_capture? (hr : r.Standard) (hs : s.Valid r lines)
    (h : capture? (lines.drop s.start) = none) : ∀ t ∈ s.tokens, t.kind ≠ Kind.frontmatter := by
  have hsingle {k v : Text} (hk : k ≠ Kind.frontmatter) :
      ∀ t ∈ [Token.mk k v], t.kind ≠ Kind.frontmatter := List.forall_mem_singleton.2 hk
  cases hs with
  | blank _ _ => exact List.forall_mem_nil _
  | run _ _ _ _ => exact hsingle (by decide)
  | claimed _ _ hc =>
    cases claimForm_of_claimAt? hr (claimAt?_eq_some_iff.2 hc) with
    | flag hk =>
      have hflags : ∀ k ∈ Kind.flags, k ≠ Kind.frontmatter := by decide
      exact hsingle (hflags _ hk)
    | importing _ => exact hsingle (by decide)
    | definition _ => exact hsingle (by decide)
    | metadata hcapture => cases h.symm.trans hcapture
    | block hk _ _ =>
      have hblocks : ∀ k ∈ Kind.blocks, k ≠ Kind.frontmatter := by decide
      exact hsingle (hblocks _ (Kind.mem_blocks hk))
    | directive hk _ _ =>
      have hkeywords : ∀ k ∈ Registry.builtin.keywords, k ≠ Kind.frontmatter := by decide
      exact hsingle (hkeywords _ (hr.keyword_mem hk))
    | captioned _ _ _ _ =>
      have himage : Kind.image ≠ Kind.frontmatter := by decide
      exact List.forall_mem_cons.2 ⟨himage, hsingle (by decide)⟩

/-- Only blocks, metadata and captioned images go over more than one claimed line, and the line of an
alternative text is no marker. -/
theorem isBlock_of_capture? (hr : r.Standard) (hs : s.Valid r lines) {n : Nat}
    (h : capture? (lines.drop i) = some (o, n)) (hbefore : capture? (lines.drop s.start) = none)
    (hlt : s.start < i) (hend : i < s.start + s.length) : s.IsBlock := by
  obtain ⟨_, hclaim⟩ := claimAt?_of_capture? hr h
  cases hs with
  | blank _ _ => exact absurd hend (by dsimp only at hlt ⊢; omega)
  | run _ _ hrun _ =>
    exact absurd ⟨_, claimAt?_eq_some_iff.1 hclaim⟩ (hrun i (Nat.le_of_lt hlt) hend).2
  | @claimed j c _ _ hc =>
    have hspan : i < j + max 1 c.jumped := by
      dsimp only at hend
      omega
    cases claimForm_of_claimAt? hr (claimAt?_eq_some_iff.2 hc) with
    | flag _ => exact absurd hspan (Nat.not_lt.2 hlt)
    | importing _ => exact absurd hspan (Nat.not_lt.2 hlt)
    | definition _ => exact absurd hspan (Nat.not_lt.2 hlt)
    | directive _ _ _ => exact absurd hspan (Nat.not_lt.2 hlt)
    | metadata hcapture => cases hbefore.symm.trans hcapture
    | block hk _ _ => exact ⟨_, Kind.mem_blocks hk, _, rfl⟩
    | captioned _ _ hnext halt =>
      -- a marker and the line of an alternative text start with different letters
      obtain rfl : i = j + 1 := Nat.le_antisymm (Nat.le_of_lt_succ hspan) hlt
      obtain ⟨hnextlt, hget⟩ := List.getElem?_eq_some_iff.1 hnext
      rw [List.drop_eq_getElem_cons hnextlt, hget] at h
      obtain ⟨cs, hcs⟩ := (isMarker_of_capture? (by rw [h]; rfl)).head
      obtain ⟨ds, hds⟩ := Lines.head_of_altLine? halt
      cases hcs.symm.trans hds

/-- The stretches before the first capture have no metadata, and the one that starts there has its
object, unless a block runs over it. -/
theorem find?_of_firstCapture (hr : r.Standard) (h : FirstCapture lines i o) {j : Nat}
    {ss : List Stretch} (hss : Tiles r lines j ss) (hj : j ≤ i)
    (hout : ∀ s ∈ ss, s.IsBlock → s.start < i → ¬ i < s.start + s.length) :
    (ss.flatMap Stretch.tokens).find? (fun t => t.kind = Kind.frontmatter) =
      some ⟨Kind.frontmatter, o⟩ := by
  obtain ⟨n, hcapture⟩ := h.captured
  induction ss generalizing j with
  | nil =>
    rw [List.drop_eq_nil_of_le (show lines.length ≤ i from hss ▸ hj)] at hcapture
    cases hcapture
  | cons s ss ih =>
    obtain ⟨rfl, hvalid, htiles⟩ := hss
    obtain ⟨hhead, htail⟩ := List.forall_mem_cons.1 hout
    rw [List.flatMap_cons]
    -- the capture is on the first line of the first stretch, or after it
    rcases Nat.eq_or_lt_of_le hj with heq | hlt
    · rw [tokens_of_capture? hr hvalid (heq ▸ hcapture)]
      rfl
    · have hbefore := h.first s.start hlt
      have hnone : s.tokens.find? (fun t => t.kind = Kind.frontmatter) = none := by
        rw [List.find?_eq_none]
        exact fun t ht hk => kind_ne_of_capture? hr hvalid hbefore t ht (by simpa using hk)
      have hend : s.start + s.length ≤ i := by
        by_contra hend
        have hinside := Nat.lt_of_not_le hend
        exact hhead (isBlock_of_capture? hr hvalid hcapture hbefore hlt hinside) hlt hinside
      rw [List.find?_append, hnone, Option.none_or]
      exact ih htiles hend htail

end

/-- A listing shows the object of the first line that has one after a marker, and nothing without such
a line. If the line is not in the body of a script or of markdown, that is the first metadata of the
page. -/
theorem extract_agrees (source : Text) :
    (∀ i o, FirstCapture (lines source) i o → parse o = .ok (extract source)) ∧
    ((∀ i, capture? ((lines source).drop i) = none) → extract source = []) ∧
    ((∀ i o, FirstCapture (lines source) i o → ¬ InBody source i) →
      IsFirstOf (extract source) (tokenize Registry.builtin source).value) := by
  refine ⟨fun i o h => parse_extractFrom h, extractFrom_eq_nil, fun hout => ?_⟩
  have hr := Registry.builtin_standard
  obtain ⟨ss, htiles, htokens⟩ := Segment.exists_tiles_of_standard hr source
  rw [htokens, IsFirstOf]
  by_cases hnone : ∀ i, capture? ((lines source).drop i) = none
  · have hfind : (ss.flatMap Stretch.tokens).find? (fun t => t.kind = Kind.frontmatter) = none := by
      rw [List.find?_eq_none]
      intro t ht hk
      obtain ⟨s, hs, ht⟩ := List.mem_flatMap.1 ht
      exact kind_ne_of_capture? hr (htiles.valid s hs) (hnone s.start) t ht (by simpa using hk)
    rw [hfind]
    exact extractFrom_eq_nil hnone
  · obtain ⟨i, o, hfirst⟩ := exists_firstCapture hnone
    have hfind := find?_of_firstCapture hr hfirst htiles (Nat.zero_le i)
      fun s hs hblock hlt hend => hout i o hfirst ⟨ss, s, htiles, hs, hblock, hlt, hend⟩
    rw [hfind]
    exact parse_extractFrom hfirst

/-- A document with metadata, and with more of it in the text that it shows. -/
def annotated : Text :=
  "frontmatter \x7b\"title\": \"A\"\x7d\nmarkdown\n\tfrontmatter \x7b\x7d".toList

theorem extract_agrees_annotated :
    parse "\x7b\"title\": \"A\"\x7d".toList = .ok (extract annotated) ∧
    (∀ i o, FirstCapture (lines annotated) i o → ¬ InBody annotated i) ∧
    IsFirstOf (extract annotated) (tokenize Registry.builtin annotated).value ∧
    extract [] = [] := by
  have hcapture : capture? ((lines annotated).drop 0) =
      some ("\x7b\"title\": \"A\"\x7d".toList, 1) := by decide +kernel
  have hzero : FirstCapture (lines annotated) 0 "\x7b\"title\": \"A\"\x7d".toList :=
    ⟨⟨1, hcapture⟩, fun j hj => absurd hj (Nat.not_lt_zero j)⟩
  have hout : ∀ i o, FirstCapture (lines annotated) i o → ¬ InBody annotated i := by
    rintro i o hfirst ⟨_, s, _, _, _, hlt, _⟩
    -- nothing is captured before the first line
    cases (hfirst.first 0 (Nat.zero_lt_of_lt hlt)).symm.trans hcapture
  have hempty (i : Nat) : capture? ((lines []).drop i) = none := by
    rw [show lines [] = [] from rfl, List.drop_nil]
    rfl
  obtain ⟨hparse, _, hagree⟩ := extract_agrees annotated
  exact ⟨hparse 0 _ hzero, hout, hagree hout, (extract_agrees []).2.1 hempty⟩

/-- A document with metadata after a sample in the text that it shows. -/
def sampled : Text :=
  "markdown\n\tfrontmatter \x7b\"title\": \"B\"\x7d\nfrontmatter \x7b\"title\": \"A\"\x7d".toList

/-- The listing shows the sample. -/
theorem extract_sampled :
    (tokenize Registry.builtin sampled).value =
      [⟨Kind.markdown, "frontmatter \x7b\"title\": \"B\"\x7d".toList⟩,
        ⟨Kind.frontmatter, "\x7b\"title\": \"A\"\x7d".toList⟩] ∧
    (extract sampled).title? = some ['B'] ∧
    ¬ IsFirstOf (extract sampled) (tokenize Registry.builtin sampled).value := by
  have htokens : (tokenize Registry.builtin sampled).value =
      [⟨Kind.markdown, "frontmatter \x7b\"title\": \"B\"\x7d".toList⟩,
        ⟨Kind.frontmatter, "\x7b\"title\": \"A\"\x7d".toList⟩] := by decide +kernel
  have htitle : (extract sampled).title? = some ['B'] := by decide +kernel
  refine ⟨htokens, htitle, fun h => ?_⟩
  rw [htokens] at h
  have hparse : parse "\x7b\"title\": \"A\"\x7d".toList = .ok (extract sampled) := h
  have hother : (parse "\x7b\"title\": \"A\"\x7d".toList).toOption.map title? =
      some (some ['A']) := by decide +kernel
  rw [hparse] at hother
  cases htitle.symm.trans (Option.some.inj hother)

end Frontmatter
end Folio
