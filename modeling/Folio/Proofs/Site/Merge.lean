import Folio.Proofs.Site.Build

namespace Folio.Build

open Folio.Path Workspace

variable {w w' : Workspace} {p : Path} {b l : Location} {init : List Text} {m html : Text}

/-- Why a page cannot be written into a directory that is there. -/
def refusal? (w : Workspace) (l : Location) (m : Text) : Option FileFault :=
  if m = ['.', '.'] then some .isDirectory
  else if maxNameSize < Text.byteSize m then some .nameTooLong
  else if w.tree.lookup (l ++ [m]) = some .directory then some .isDirectory
  else none

/-- What writing a page below a directory that is there comes to. -/
inductive Paged (w : Workspace) (b : Location) (init : List Text) (m html : Text) :
    Workspace × Option FileFault → Prop
  | blocked : ¬ Clear w b init →
      Paged w b init m html
        (w, some (if w.tree.lookup (b ++ init) = none then .notDirectory else .exists))
  | refused {w₁ : Workspace} {fault : FileFault} : Made w b init (w₁, none) →
      refusal? w (b ++ init) m = some fault → Paged w b init m html (w₁, some fault)
  | written {w₁ w₂ : Workspace} : Made w b init (w₁, none) → refusal? w (b ++ init) m = none →
      w₂.home = w.home →
      (∀ l, w₂.tree.lookup l =
        if l = b ++ init ++ [m] then some (.file (.text html)) else w₁.tree.lookup l) →
      Paged w b init m html (w₂, none)

theorem write_below (html : Text) (h : Descends w p b (init ++ [m])) (hm : IsSegment m)
    (hdir : w.tree.lookup (b ++ init) = some .directory) :
    w.write p (.text html) = match refusal? w (b ++ init) m with
      | some fault => .error fault
      | none => if ha : w.tree.Admits (b ++ init ++ [m]) (.file (.text html)) then
          .ok { w with tree := w.tree.put (b ++ init ++ [m]) (.file (.text html)) ha }
        else .error .isDirectory := by
  obtain ⟨before, _, hsegments, hwalk⟩ := h.segments
  have hparent : w.walk (w.start p) (before ++ init) = .ok (b ++ init) :=
    walk_append_eq_ok.2 ⟨b, hwalk, walk_names hdir⟩
  unfold write
  rw [hsegments, ← List.append_assoc, target_concat h.nonempty h.nul hparent hdir]
  unfold refusal?
  by_cases hdots : m = ['.', '.']
  · rw [if_pos hdots, if_pos (by rw [Bool.or_eq_true, decide_eq_true_eq]; exact Or.inr hdots)]
  · rw [if_neg hdots, if_neg (by simpa [hdots] using hm.1)]
    by_cases hsize : maxNameSize < Text.byteSize m
    · rw [if_pos hsize, if_pos hsize]
    · rw [if_neg hsize, if_neg hsize]
      by_cases hthere : w.tree.lookup (b ++ init ++ [m]) = some .directory
      · have hnot : ¬ w.tree.Admits (b ++ init ++ [m]) (.file (.text html)) := by
          rintro ⟨_, _, _, hnone | ⟨hfile, _⟩⟩
          · rw [hthere] at hnone
            cases hnone
          · rw [hthere] at hfile
            cases hfile
        rw [if_pos hthere]
        dsimp only
        rw [dif_neg hnot]
      · rw [if_neg hthere]

theorem admits_page (html : Text) (hdir : w.tree.lookup l = some .directory) (hm : IsSegment m)
    (hnul : Char.ofNat 0 ∉ m) (h : refusal? w l m = none) :
    w.tree.Admits (l ++ [m]) (.file (.text html)) := by
  unfold refusal? at h
  split at h
  · cases h
  · rename_i hdots
    split at h
    · cases h
    · rename_i hsize
      split at h
      · cases h
      · rename_i hnot
        have hfiller := hm.1
        rw [isFiller, Bool.or_eq_true, List.isEmpty_iff, decide_eq_true_eq, not_or] at hfiller
        have hname : IsName m :=
          ⟨hfiller.1, hfiller.2, hdots, hm.2, hnul, Nat.le_of_not_lt hsize⟩
        refine ⟨by simp, fun s hs => ?_, by rwa [List.dropLast_concat], ?_⟩
        · rcases List.mem_append.1 hs with hs | hs
          · exact FileTree.isName_of_lookup hdir s hs
          · rwa [List.mem_singleton.1 hs]
        · cases he : w.tree.lookup (l ++ [m]) with
          | none => exact Or.inl rfl
          | some e =>
            cases e with
            | directory => exact absurd he hnot
            | file c => exact Or.inr ⟨rfl, rfl⟩

theorem paged_writePage (h : Descends w p b (init ++ [m])) (hinit : ∀ s ∈ init, IsName s)
    (hm : IsSegment m) : Paged w b init m html (writePage w p html) := by
  obtain ⟨q, hq, hparent⟩ := h.parent hm.1 hinit
  have hmade := made_makeDirectories hparent hinit
  have hgrown := grown_makeDirectories w q fun _ => False
  unfold writePage
  rw [hq]
  dsimp only
  generalize w.makeDirectories q = made at hmade hgrown
  cases hmade with
  | obstructed hclear => exact .blocked hclear
  | @made w₁ hclear hhome hlookup =>
    have hmade : Made w b init (w₁, none) := .made hclear hhome hlookup
    -- what stands in the place of the page is not changed by the directories
    have hrefusal : refusal? w₁ (b ++ init) m = refusal? w (b ++ init) m := by
      unfold refusal?
      rw [hmade.lookup_below (List.cons_ne_nil m [])]
    have hwrite := write_below html (h.grown hgrown) hm hmade.directory
    dsimp only
    cases hr : refusal? w (b ++ init) m with
    | some fault =>
      rw [hrefusal, hr] at hwrite
      rw [hwrite]
      exact .refused hmade hr
    | none =>
      have hnul : Char.ofNat 0 ∉ m := by
        obtain ⟨before, _, hsegments, _⟩ := h.segments
        have hmem : m ∈ p.segments := by simp [hsegments]
        exact fun hin => h.nul (Text.mem_of_mem_splitOn hmem hin)
      have ha := admits_page html hmade.directory hm hnul (hrefusal.trans hr)
      rw [hrefusal, hr] at hwrite
      dsimp only at hwrite
      rw [dif_pos ha] at hwrite
      rw [hwrite]
      refine .written hmade hr hhome fun l => ?_
      rw [FileTree.lookup_put]

/-- What writing a page may change: directories that are missing on the way down to it, if that is
clear, and the page itself. -/
def Changes (w₀ u : Workspace) (b : Location) (names : List Text) : Prop :=
  ∀ l, u.tree.lookup l = w₀.tree.lookup l ∨
    (u.tree.lookup l = some .directory ∧ w₀.tree.lookup l = none ∧ Clear w₀ b names.dropLast ∧
      l <+: b ++ names.dropLast) ∨
    ((∃ c, u.tree.lookup l = some (.file c)) ∧ l = b ++ names ∧
      w₀.tree.lookup l ≠ some .directory)

/-- The first page takes the place of no directory that the second needs, unless that is there. -/
def OutOfWay (w₀ : Workspace) (b : Location) (names others : List Text) : Prop :=
  names <+: others.dropLast → w₀.tree.lookup (b ++ names) = some .directory

/-- The last workspace has what several others change in the first one. -/
structure Merged (w₀ : Workspace) (us : List Workspace) (w : Workspace) : Prop where
  home : w.home = w₀.home
  changed : ∀ u ∈ us, ∀ l, u.tree.lookup l ≠ w₀.tree.lookup l →
    w.tree.lookup l = u.tree.lookup l
  same : ∀ l, (∀ u ∈ us, u.tree.lookup l = w₀.tree.lookup l) →
    w.tree.lookup l = w₀.tree.lookup l

variable {w₀ u u₁ w₁ : Workspace} {us : List Workspace} {names : List Text}
  {r r₀ : Workspace × Option FileFault}

theorem Changes.refl (w₀ : Workspace) (b : Location) (names : List Text) :
    Changes w₀ w₀ b names := fun _ => Or.inl rfl

theorem changes_of_made (h : Made w₀ b init (u, none)) (m : Text) :
    Changes w₀ u b (init ++ [m]) := by
  intro l
  rw [List.dropLast_concat]
  cases h with
  | made hclear _ hlookup =>
    rw [hlookup]
    by_cases hl : w₀.tree.lookup l = none ∧ l <+: b ++ init
    · rw [if_pos hl]
      exact Or.inr (Or.inl ⟨rfl, hl.1, hclear, hl.2⟩)
    · rw [if_neg hl]
      exact Or.inl rfl

theorem Paged.changes (h : Paged w₀ b init m html r) : Changes w₀ r.1 b (init ++ [m]) := by
  cases h with
  | blocked _ => exact Changes.refl w₀ b _
  | refused hmade _ => exact changes_of_made hmade m
  | written hmade hrefusal _ hlookup =>
    intro l
    dsimp only
    rw [hlookup]
    by_cases hl : l = b ++ init ++ [m]
    · rw [if_pos hl]
      refine Or.inr (Or.inr ⟨⟨_, rfl⟩, by rw [hl, List.append_assoc], fun hdir => ?_⟩)
      rw [hl] at hdir
      unfold refusal? at hrefusal
      rw [if_pos hdir] at hrefusal
      split at hrefusal
      · cases hrefusal
      · split at hrefusal <;> cases hrefusal
    · rw [if_neg hl]
      exact changes_of_made hmade m l

namespace Merged

/-- The others change each for a page of its own, and no two of the pages are in each other's way. -/
def Apart (w₀ : Workspace) (b : Location) (us : List Workspace) (names : List Text) : Prop :=
  ∀ u ∈ us, ∃ others, Changes w₀ u b others ∧ OutOfWay w₀ b others names ∧
    OutOfWay w₀ b names others ∧ others ≠ names

theorem nil (w₀ : Workspace) : Merged w₀ [] w₀ := ⟨rfl, by simp, fun _ _ => rfl⟩

/-- What changes nothing can be merged with the rest. -/
theorem concat_self (h : Merged w₀ us w) : Merged w₀ (us ++ [w₀]) w := by
  refine ⟨h.home, fun u hu => ?_, fun l hsame => h.same l fun u hu => ?_⟩
  · rcases List.mem_append.1 hu with hu | hu
    · exact h.changed u hu
    · rw [List.mem_singleton.1 hu]
      exact fun l hne => absurd rfl hne
  · exact hsame u (List.mem_append_left _ hu)

theorem exists_of_ne (h : Merged w₀ us w) (hl : w.tree.lookup l ≠ w₀.tree.lookup l) :
    ∃ u ∈ us, u.tree.lookup l ≠ w₀.tree.lookup l ∧ w.tree.lookup l = u.tree.lookup l := by
  by_contra hnone
  refine hl (h.same l fun u hu => ?_)
  by_contra hne
  exact hnone ⟨u, hu, hne, h.changed u hu l hne⟩

variable (h : Merged w₀ us w) (hus : Apart w₀ b us (init ++ [m]))
include h hus

/-- On the way down to a page nothing has changed but that directories have been made. -/
theorem lookup_way (hl : l <+: b ++ init) : w.tree.lookup l = w₀.tree.lookup l ∨
    (w.tree.lookup l = some .directory ∧ w₀.tree.lookup l = none ∧
      ∃ others, Clear w₀ b others ∧ l <+: b ++ others) := by
  by_cases hsame : w.tree.lookup l = w₀.tree.lookup l
  · exact Or.inl hsame
  obtain ⟨u, hu, hne, heq⟩ := h.exists_of_ne hsame
  obtain ⟨others, hchanges, hout, _, _⟩ := hus u hu
  rw [heq]
  rcases hchanges l with hsame | ⟨hdir, hnone, hclear, hothers⟩ | ⟨_, rfl, hnot⟩
  · exact absurd hsame hne
  · exact Or.inr ⟨hdir, hnone, _, hclear, hothers⟩
  · refine absurd (hout ?_) hnot
    rw [List.dropLast_concat]
    exact (List.prefix_append_right_inj b).1 hl

/-- Nothing has changed where the page would stand. -/
theorem lookup_page : w.tree.lookup (b ++ init ++ [m]) = w₀.tree.lookup (b ++ init ++ [m]) ∧
    ∀ u ∈ us, u.tree.lookup (b ++ init ++ [m]) = w₀.tree.lookup (b ++ init ++ [m]) := by
  have hsame : ∀ u ∈ us,
      u.tree.lookup (b ++ init ++ [m]) = w₀.tree.lookup (b ++ init ++ [m]) := by
    intro u hu
    obtain ⟨others, hchanges, _, hout, hne⟩ := hus u hu
    rcases hchanges (b ++ init ++ [m]) with hsame | ⟨_, hnone, _, hothers⟩ | ⟨_, heq, _⟩
    · exact hsame
    · rw [List.append_assoc] at hothers hnone
      rw [hout ((List.prefix_append_right_inj b).1 hothers)] at hnone
      cases hnone
    · rw [List.append_assoc] at heq
      exact absurd (List.append_cancel_left heq).symm hne
  exact ⟨h.same _ hsame, hsame⟩

theorem clear_iff : Clear w b init ↔ Clear w₀ b init := by
  refine forall₂_congr fun k hk => forall_congr' fun c => not_congr ?_
  rcases h.lookup_way hus ((List.prefix_append_right_inj b).2 hk) with hsame | ⟨hdir, hnone, _⟩
  · rw [hsame]
  · rw [hdir, hnone]
    simp

theorem refusal?_eq : refusal? w (b ++ init) m = refusal? w₀ (b ++ init) m := by
  unfold refusal?
  rw [(h.lookup_page hus).1]

/-- Where the way down is not clear, nothing has been made on it. -/
theorem lookup_of_not_clear (hclear : ¬ Clear w₀ b init) :
    w.tree.lookup (b ++ init) = w₀.tree.lookup (b ++ init) := by
  rcases h.lookup_way hus (List.prefix_refl _) with hsame | ⟨_, _, others, hothers, hprefix⟩
  · exact hsame
  · have hinit : init <+: others := (List.prefix_append_right_inj b).1 hprefix
    exact absurd (fun k hk => hothers k (hk.trans hinit)) hclear

theorem made (hw : Made w b init (w₁, none)) (hu : Made w₀ b init (u₁, none)) :
    Merged w₀ (us ++ [u₁]) w₁ := by
  cases hw with
  | made _ hhome hlookup =>
    cases hu with
    | made _ _ hlookup₀ =>
      refine ⟨hhome.trans h.home, fun u hu l hne => ?_, fun l hsame => ?_⟩
      · rw [hlookup]
        rcases List.mem_append.1 hu with hu | hu
        · have hw := h.changed u hu l hne
          obtain ⟨others, hchanges, _⟩ := hus u hu
          rw [if_neg, hw]
          rw [hw]
          rcases hchanges l with hsame | ⟨hdir, _⟩ | ⟨⟨c, hfile⟩, _⟩
          · exact absurd hsame hne
          · simp [hdir]
          · simp [hfile]
        · obtain rfl := List.mem_singleton.1 hu
          rw [hlookup₀] at hne ⊢
          by_cases hl : w₀.tree.lookup l = none ∧ l <+: b ++ init
          · rw [if_pos hl]
            rcases h.lookup_way hus hl.2 with hsame | ⟨hdir, _⟩
            · rw [if_pos ⟨hsame.trans hl.1, hl.2⟩]
            · rw [hdir, if_neg (by simp)]
          · rw [if_neg hl] at hne
            exact absurd rfl hne
      · have hw := h.same l fun u hu => hsame u (List.mem_append_left _ hu)
        have hu := hsame u₁ (by simp)
        rw [hlookup₀] at hu
        rw [hlookup, hw]
        exact hu

theorem written (hmade : Merged w₀ (us ++ [u₁]) w₁) {w₂ u₂ : Workspace} (hhome : w₂.home = w₁.home)
    (hw : ∀ l, w₂.tree.lookup l =
      if l = b ++ init ++ [m] then some (.file (.text html)) else w₁.tree.lookup l)
    (hu : ∀ l, u₂.tree.lookup l =
      if l = b ++ init ++ [m] then some (.file (.text html)) else u₁.tree.lookup l) :
    Merged w₀ (us ++ [u₂]) w₂ := by
  refine ⟨hhome.trans hmade.home, fun u hmem l hne => ?_, fun l hsame => ?_⟩
  · rw [hw]
    rcases List.mem_append.1 hmem with hmem | hmem
    · rw [if_neg, hmade.changed u (List.mem_append_left _ hmem) l hne]
      rintro rfl
      exact hne ((h.lookup_page hus).2 u hmem)
    · obtain rfl := List.mem_singleton.1 hmem
      rw [hu] at hne ⊢
      by_cases hl : l = b ++ init ++ [m]
      · rw [if_pos hl, if_pos hl]
      · rw [if_neg hl] at hne ⊢
        rw [if_neg hl, hmade.changed u₁ (by simp) l hne]
  · have hpage := hsame u₂ (by simp)
    rw [hu] at hpage
    rw [hw]
    by_cases hl : l = b ++ init ++ [m]
    · rwa [if_pos hl] at hpage ⊢
    · rw [if_neg hl] at hpage ⊢
      refine hmade.same l fun u hmem => ?_
      rcases List.mem_append.1 hmem with hmem | hmem
      · exact hsame u (List.mem_append_left _ hmem)
      · rwa [List.mem_singleton.1 hmem]

/-- A page is written as it is written alone, and what that changes is merged with the rest. -/
theorem step (hw : Paged w b init m html r) (hu : Paged w₀ b init m html r₀) :
    r.2 = r₀.2 ∧ Merged w₀ (us ++ [r₀.1]) r.1 := by
  have hclear := h.clear_iff hus
  have hrefusal := h.refusal?_eq hus
  cases hw with
  | blocked hnot =>
    have hnot₀ : ¬ Clear w₀ b init := fun hc => hnot (hclear.2 hc)
    cases hu with
    | blocked _ =>
      exact ⟨by rw [h.lookup_of_not_clear hus hnot₀], h.concat_self⟩
    | refused hmade _ => exact absurd hmade.clear hnot₀
    | written hmade _ _ _ => exact absurd hmade.clear hnot₀
  | refused hmade hr =>
    rw [hrefusal] at hr
    cases hu with
    | blocked hnot => exact absurd (hclear.1 hmade.clear) hnot
    | refused hmade₀ hr₀ => exact ⟨hr.symm.trans hr₀, h.made hus hmade hmade₀⟩
    | written _ hr₀ _ _ => cases hr.symm.trans hr₀
  | written hmade hr hhome hlookup =>
    rw [hrefusal] at hr
    cases hu with
    | blocked hnot => exact absurd (hclear.1 hmade.clear) hnot
    | refused _ hr₀ => cases hr.symm.trans hr₀
    | written hmade₀ _ _ hlookup₀ =>
      exact ⟨rfl, h.written hus (h.made hus hmade hmade₀) (hhome.trans hmade.home.symm) hlookup
        hlookup₀⟩

end Merged

end Folio.Build
