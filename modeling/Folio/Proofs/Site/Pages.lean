import Folio.Proofs.Site.Scan
import Folio.Site.Build

namespace Folio.Build

open Folio.Path Workspace

variable {init : List Text} {n stem extension : Text}

/-- The file of a page is neither a filler nor a parent. -/
theorem page_is_name {stem : Text} (h : stem ≠ []) :
    ¬ isFiller (stem ++ '.' :: pageExtension) ∧
      stem ++ '.' :: pageExtension ≠ ['.', '.'] := by
  obtain ⟨c, cs, rfl⟩ := List.exists_cons_of_ne_nil h
  constructor
  · simp [isFiller]
  · intro hdots
    have hlength := congrArg List.length hdots
    rw [List.length_append] at hlength
    exact absurd hlength (by simp [pageExtension])

theorem isSegment_renamed (hn : IsSegment n) (h : splitExtension n = (stem, some extension)) :
    IsSegment (renamed stem pageExtension) := by
  obtain ⟨rfl, hstem, _⟩ := splitExtension_eq_iff.1 h
  have hslash : '/' ∉ stem := fun hm => hn.2 (List.mem_append_left _ hm)
  unfold renamed
  split
  · exact ⟨by decide, by decide⟩
  · refine ⟨(page_is_name hstem).1, ?_⟩
    rw [List.mem_append, not_or]
    exact ⟨hslash, by decide⟩

section Document

variable (hnames : ∀ m ∈ init ++ [n], IsName m) (h : splitExtension n = (stem, some extension))
include hnames h

theorem isSegment_page : ∀ m ∈ init ++ [renamed stem pageExtension], IsSegment m := by
  intro m hm
  rcases List.mem_append.1 hm with hm | hm
  · exact isSegment_of_isName (hnames m (List.mem_append_left _ hm))
  · rw [List.mem_singleton.1 hm]
    exact isSegment_renamed (isSegment_of_isName (hnames n (by simp))) h

theorem nul_not_mem_page : ∀ m ∈ init ++ [renamed stem pageExtension], Char.ofNat 0 ∉ m := by
  intro m hm
  rcases List.mem_append.1 hm with hm | hm
  · exact (hnames m (List.mem_append_left _ hm)).nul_not_mem
  · obtain ⟨rfl, -, -⟩ := splitExtension_eq_iff.1 h
    rw [List.mem_singleton.1 hm, renamed]
    split
    · decide
    · rw [List.mem_append, not_or]
      refine ⟨fun hin => ?_, by decide⟩
      exact (hnames _ (List.mem_append_right init List.mem_cons_self)).nul_not_mem
        (List.mem_append_left _ hin)

/-- The page of a document, seen from the output directory. -/
theorem withExtension_document :
    (ofNames (init ++ [n])).withExtension pageExtension =
      ofNames (init ++ [renamed stem pageExtension]) :=
  withExtension_of_segments
    (segments_ofNames (by simp) fun m hm => isSegment_of_isName (hnames m hm))
    (not_isFiller (hnames n (by simp))) (hnames n (by simp)).ne_dots h (by decide)

/-- The path of a page goes down from the output directory. -/
theorem segments_outputPath (output : Path) :
    ∃ before, (outputPath output (ofNames (init ++ [n]))).segments =
        before ++ (init ++ [renamed stem pageExtension]) ∧
      ∀ l, follow l before = follow l output.segments := by
  have hsegments := isSegment_page hnames h
  obtain ⟨before, hbefore, hfollow⟩ := segments_join (p := output) (not_isAbsolute_ofNames hsegments)
  refine ⟨before, ?_, hfollow⟩
  rw [outputPath, withExtension_document hnames h, hbefore, segments_ofNames (by simp) hsegments]

/-- Where the page of a document stands. -/
theorem lexical_outputPath (w : Workspace) (output : Path) (hstem : stem ≠ ['.']) :
    w.lexical (outputPath output (ofNames (init ++ [n]))) =
      w.lexical output ++ init ++ [stem ++ '.' :: pageExtension] := by
  have hsegments := isSegment_page hnames h
  have hlast := hsegments _ (List.mem_append_right init (List.mem_singleton.2 rfl))
  have hdots : stem ++ '.' :: pageExtension ≠ ['.', '.'] :=
    (page_is_name (splitExtension_eq_iff.1 h).2.1).2
  rw [renamed, if_neg hstem] at hlast
  rw [outputPath, withExtension_document hnames h, lexical_join (not_isAbsolute_ofNames hsegments),
    segments_ofNames (by simp) hsegments, renamed, if_neg hstem, follow_append,
    follow_names fun m hm => hnames m (List.mem_append_left _ hm), follow_cons, step,
    if_neg hlast.1, if_neg hdots]
  rfl

/-- A path that ends with a name is not that of a document whose stem is a dot. -/
theorem stem_ne_dot {output : Path} {before : List Text} {last : Text}
    (hpath : (outputPath output (ofNames (init ++ [n]))).segments = before ++ [last])
    (hlast : last ≠ ['.', '.']) : stem ≠ ['.'] := by
  rintro rfl
  obtain ⟨start, hstart, _⟩ := segments_outputPath hnames h output
  rw [hpath, ← List.append_assoc] at hstart
  exact hlast (List.singleton_inj.1 (List.append_inj' hstart rfl).2)

end Document

/-- No two documents of one extension have their pages at the same place. -/
theorem page_injective {w : Workspace} {output : Path} {init' : List Text} {n' stem' : Text}
    (hnames : ∀ m ∈ init ++ [n], IsName m) (hnames' : ∀ m ∈ init' ++ [n'], IsName m)
    (h : splitExtension n = (stem, some extension))
    (h' : splitExtension n' = (stem', some extension))
    (hstem : stem ≠ ['.']) (hstem' : stem' ≠ ['.'])
    (heq : w.lexical (outputPath output (ofNames (init ++ [n]))) =
      w.lexical (outputPath output (ofNames (init' ++ [n'])))) : init ++ [n] = init' ++ [n'] := by
  rw [lexical_outputPath hnames h w output hstem, lexical_outputPath hnames' h' w output hstem',
    List.append_assoc, List.append_assoc] at heq
  obtain ⟨rfl, hlast⟩ := List.append_inj' (List.append_cancel_left heq) rfl
  obtain rfl := (List.append_inj' (List.singleton_inj.1 hlast) rfl).1
  rw [(splitExtension_eq_iff.1 h).1, (splitExtension_eq_iff.1 h').1]

/-- A page has an extension of its own. -/
theorem page_not_document {l l₀ : Location} {names : Location} (hextension : extension ≠ pageExtension)
    (hnames : ∀ m ∈ names, IsName m) (hstem : stem ≠ [])
    (hpage : l ++ names = l₀ ++ [stem ++ '.' :: pageExtension]) :
    ¬ (ofNames names).hasExtension extension := by
  rcases List.eq_nil_or_concat names with rfl | ⟨init, n, rfl⟩
  · have hnone : (ofNames []).extension? = none := by decide
    rw [hasExtension, hnone]
    simp
  · rw [List.concat_eq_append] at hnames hpage ⊢
    rw [← List.append_assoc] at hpage
    obtain rfl := List.singleton_inj.1 (List.append_inj' hpage rfl).2
    intro hhas
    obtain ⟨stem', hsplit⟩ := (hasExtension_iff
      (segments_ofNames (by simp) fun m hm => isSegment_of_isName (hnames m hm))
      (not_isFiller (hnames _ (by simp))) (hnames _ (by simp)).ne_dots).1 hhas
    have hpage : splitExtension (stem ++ '.' :: pageExtension) = (stem, some pageExtension) :=
      splitExtension_eq_iff.2 ⟨rfl, hstem, by decide⟩
    rw [hpage] at hsplit
    exact hextension (Option.some.inj (Prod.mk.inj hsplit).2).symm

end Folio.Build
