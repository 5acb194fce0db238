import Mathlib.Data.List.Forall2
import Folio.Proofs.Document.ImportLine
import Folio.Proofs.Files.Lexical
import Folio.Proofs.Import.Placement
import Folio.Proofs.Text.Affix

/-! Stylesheets keep their files. Along a route of relative references the directory of the document
at its end is the one that the first document refers to, so that a rebased reference leads from the
first document where the original one leads from its own. -/
namespace Folio

theorem CommonMark.contains_iff {part t : Text} : contains part t ↔ part <:+: t := by
  unfold contains
  induction t with
  | nil =>
    rw [afterFirst?, List.infix_nil]
    cases part <;> simp
  | cons c cs ih =>
    rw [afterFirst?, List.infix_cons_iff]
    cases hs : Text.stripPrefix? part (c :: cs) with
    | some rest =>
      rw [Text.stripPrefix?_eq_some_iff] at hs
      simp [hs]
    | none =>
      have hn : ¬ part <+: c :: cs := by
        rintro ⟨rest, hrest⟩
        rw [Text.stripPrefix?_eq_some_iff.2 hrest.symm] at hs
        cases hs
      simp only [hn, false_or]
      exact ih

namespace Import

open Folio.Path Workspace

/-- A reference with a scheme, or from the root, is left as it is. -/
theorem isFixed_iff {t : Text} :
    isFixed t ↔ t.head? = some '/' ∨ "://".toList <:+: t := by
  unfold isFixed
  rw [Bool.or_eq_true, decide_eq_true_eq, CommonMark.contains_iff]

theorem not_isAbsolute_of_not_isFixed {t : Text} (h : ¬ isFixed t) : ¬ (Path.mk t).isAbsolute := by
  rw [isFixed_iff, not_or] at h
  simpa [isAbsolute] using h.1

/-- The components of a path that are put before a reference are its segments but for fillers. -/
theorem plainComponents_eq (p : Path) :
    p.components.filterMap plainComponent? = p.segments.filter fun s => !isFiller s := by
  have hplain (s : Text) : plainComponent? (componentOf s) = some s := by
    unfold componentOf
    split
    · rename_i hs
      rw [hs]
      rfl
    · rfl
  have hrest (ss : List Text) : (ss.map componentOf).filterMap plainComponent? = ss := by
    rw [List.filterMap_map]
    have hsome : plainComponent? ∘ componentOf = some := funext hplain
    rw [hsome, List.filterMap_some]
  unfold components
  cases hp : p.segments with
  | nil => exact absurd hp (Text.splitOn_ne_nil '/' p.text)
  | cons first rest =>
    simp only [List.filterMap_append, hrest, List.filter_cons]
    by_cases he : first.isEmpty
    · by_cases ha : p.isAbsolute <;> simp [he, ha, isFiller, plainComponent?]
    · by_cases hd : first = ['.']
      · simp [hd, isFiller, plainComponent?]
      · simp [he, hd, isFiller, hplain]

theorem rebase_empty (t : Text) : rebase .empty t = t := by
  simp [rebase, Path.empty, Path.isEmpty]

theorem segments_rebase {inside : Path} {t : Text} (hfixed : ¬ isFixed t)
    (hne : ¬ inside.isEmpty) :
    (Path.mk (rebase inside t)).segments =
      (inside.segments.filter fun s => !isFiller s) ++ (Path.mk t).segments := by
  unfold rebase
  rw [if_neg (by simp [hfixed, hne]), plainComponents_eq]
  refine Text.splitOn_joinWith_append (fun s hs => ?_) t
  exact Text.not_mem_of_mem_splitOn (List.mem_filter.1 hs).1

/-- A rebased reference is relative and is followed through the directory before it. -/
theorem rebase_follow (inside : Path) {t : Text} (hfixed : ¬ isFixed t) :
    ¬ (Path.mk (rebase inside t)).isAbsolute ∧
      ∀ l, follow l (Path.mk (rebase inside t)).segments =
        follow (follow l inside.segments) (Path.mk t).segments := by
  have hrel := not_isAbsolute_of_not_isFixed hfixed
  by_cases hne : inside.isEmpty
  · have hinside : inside = .empty := congrArg Path.mk (List.isEmpty_iff.1 hne)
    rw [hinside, rebase_empty]
    exact ⟨hrel, fun l => rfl⟩
  · have hsegments := segments_rebase hfixed hne
    refine ⟨?_, fun l => by rw [hsegments, follow_append, follow_filter]⟩
    cases hparts : inside.segments.filter fun s => !isFiller s with
    | nil =>
      -- only fillers stand before the reference, and it is left as it is
      rw [hparts, List.nil_append] at hsegments
      have htext := congrArg (Text.joinWith ['/']) hsegments
      rw [joinWith_segments, joinWith_segments] at htext
      rw [show Path.mk (rebase inside t) = Path.mk t from congrArg Path.mk htext]
      exact hrel
    | cons s ss =>
      rw [hparts, List.cons_append] at hsegments
      have hs : s ∈ inside.segments.filter fun s => !isFiller s := by
        rw [hparts]
        exact List.mem_cons_self
      obtain ⟨hmem, hfiller⟩ := List.mem_filter.1 hs
      have hsne : s ≠ [] := by
        rintro rfl
        cases hfiller
      rw [isAbsolute, Text.head?_of_splitOn hsegments hsne]
      obtain ⟨c, cs, rfl⟩ := List.exists_cons_of_ne_nil hsne
      have hc := Text.not_mem_of_mem_splitOn hmem
      rw [List.mem_cons, not_or] at hc
      simpa using Ne.symm hc.1

/-- The directory that the first document refers to is the directory of the document. -/
def Aligned (w : Workspace) (root : Path) (route : List Path) (directory : Path) : Prop :=
  (∀ path ∈ route, ¬ path.isAbsolute) →
    ¬ (within route).isAbsolute ∧
      follow (w.lexical root) (within route).segments = w.lexical directory

theorem aligned_nil (w : Workspace) (root : Path) : Aligned w root [] root :=
  fun _ => ⟨by decide, rfl⟩

/-- A relative import takes the directory of the document to where it takes the route. -/
theorem follow_within_concat {w : Workspace} {directory path : Path} {route : List Path}
    {start l : Location} {source : Text}
    (h : follow start (within route).segments = w.lexical directory) (hpath : ¬ path.isAbsolute)
    (hl : w.resolve (directory.join path) = .ok l) (hs : w.readAt l = .ok source) :
    (within (route ++ [path])).isAbsolute = (within route).isAbsolute ∧
      follow start (within (route ++ [path])).segments = w.lexical (pathOf l.dropLast) := by
  obtain ⟨before, n, hsegments, hn, hdir⟩ := resolve_join_file hpath hl hs
  obtain ⟨parent, hparent, hprel, hpfollow⟩ := parent?_follow hpath hsegments hn
  have hnames : ∀ m ∈ l.dropLast, IsName m := fun m hm =>
    FileTree.isName_of_lookup (lookup_of_readAt hs) m (List.dropLast_subset l hm)
  -- both directories take the same step: the parent of the reference
  have hwithin : within (route ++ [path]) = (within route).join parent := by
    rw [within_append, nested, hparent]
    rfl
  rw [hwithin]
  refine ⟨isAbsolute_join hprel, ?_⟩
  calc follow start ((within route).join parent).segments
      = follow (follow start (within route).segments) parent.segments :=
        follow_segments_join hprel _
    _ = follow (w.lexical directory) before := by rw [h, hpfollow]
    _ = l.dropLast := hdir.symm
    _ = w.lexical (pathOf l.dropLast) := (lexical_pathOf hnames).symm

/-- One more import on the route keeps the directories aligned. -/
theorem Aligned.concat {w : Workspace} {root directory path : Path} {route : List Path}
    {l : Location} {source : Text} (h : Aligned w root route directory)
    (hl : w.resolve (directory.join path) = .ok l) (hs : w.readAt l = .ok source) :
    Aligned w root (route ++ [path]) (pathOf l.dropLast) := by
  intro hroute
  obtain ⟨hrel, hfollow⟩ := h fun p hp => hroute p (List.mem_append_left _ hp)
  obtain ⟨hkeeps, hstep⟩ := follow_within_concat hfollow (hroute path (by simp)) hl hs
  exact ⟨by rwa [hkeeps], hstep⟩

theorem Unfolds.aligned {r : Registry} {extension : Text} {w : Workspace} {root base : Path}
    {route : List Path} {ns : List Node} {ps : List Placed}
    (h : Unfolds r extension w base route ns ps) (halign : Aligned w root route base) :
    ∀ p ∈ ps, Aligned w root p.route p.directory :=
  h.forall_placed halign fun _ _ _ _ _ halign hl hs => halign.concat hl hs

/-- A rebased reference is read from a directory through the route. -/
theorem lexical_join_rebase (w : Workspace) (root inside : Path) {t : Text} (hfixed : ¬ isFixed t) :
    w.lexical (root.join ⟨rebase inside t⟩) =
      follow (follow (w.lexical root) inside.segments) (Path.mk t).segments := by
  obtain ⟨hrebased, hfollow⟩ := rebase_follow inside hfixed
  rw [lexical_join hrebased, hfollow]

/-- Where the first document refers to the directory of another one, a relative reference in that
other document and the rebased one lead to the same place. -/
theorem Aligned.lexical_rebase {w : Workspace} {root directory : Path} {route : List Path} {t : Text}
    (h : Aligned w root route directory) (hroute : ∀ path ∈ route, ¬ path.isAbsolute)
    (hfixed : ¬ isFixed t) :
    w.lexical (root.join ⟨rebase (within route) t⟩) = w.lexical (directory.join ⟨t⟩) := by
  rw [lexical_join_rebase w root (within route) hfixed, (h hroute).2,
    lexical_join (not_isAbsolute_of_not_isFixed hfixed)]

/-- In an expansion each node is left as it was written, but for the references of stylesheets.
Such a reference, where it is relative and only relative references lead to its document, leads
from the first document to the same place as from its own. -/
theorem resolve_stylesheets (r : Registry) (extension : Text) (w : Workspace) (root : Path)
    (chain : List Location) (ns out : List Node)
    (h : (resolve r extension w root chain ns).value = .ok out) :
    ∃ ps, Unfolds r extension w root [] ns ps ∧
      List.Forall₂ (fun p m =>
        if p.node.kind = Kind.importKind then
          ∃ href, m = .scalar Kind.importKind href ∧
            ((∀ path ∈ p.route, ¬ path.isAbsolute) → (reference p.node).head? ≠ some '/' →
              ¬ "://".toList <:+: reference p.node →
              w.lexical (root.join ⟨href⟩) = w.lexical (p.directory.join ⟨reference p.node⟩))
        else m = p.node) ps out := by
  obtain ⟨ps, hps, rfl⟩ := expand_placed [] h
  refine ⟨ps, hps, ?_⟩
  rw [List.forall₂_map_right_iff, List.forall₂_same]
  intro p hp
  have halign := hps.aligned (aligned_nil w root) p hp
  unfold Placed.left
  split
  · refine ⟨_, rfl, ?_⟩
    intro hroute hslash hscheme
    exact halign.lexical_rebase hroute (by rw [isFixed_iff]; exact not_or.2 ⟨hslash, hscheme⟩)
  · rfl

/-- A document in a directory of its own, with a stylesheet above that directory. -/
def styledPart : Workspace where
  tree := {
    entries := [(["parts".toList, "b.sphst".toList], .file (.text "import ../site.css".toList)),
      (["parts".toList], .directory)]
    nodup := by decide
    named := by decide
    closed := by decide }
  home := []

theorem resolve_part :
    (resolve Registry.builtin "sphst".toList styledPart ⟨['/']⟩ []
        [.scalar Kind.importKind "./parts//b".toList]).value =
      .ok [.scalar Kind.importKind "parts/../site.css".toList] := by
  have hrole : role "sphst".toList styledPart ⟨['/']⟩
      (.scalar Kind.importKind "./parts//b".toList) =
        .document ⟨"./parts//b.sphst".toList⟩ ["parts".toList, "b.sphst".toList] :=
    role_eq_document_iff.2 ⟨rfl, by decide, by decide⟩
  have hread : styledPart.readAt ["parts".toList, "b.sphst".toList] =
      .ok "import ../site.css".toList := by decide
  have hnodes : (nodesOf Registry.builtin "import ../site.css".toList).value =
      [.scalar Kind.importKind "../site.css".toList] :=
    nodesOf_importLine Registry.builtin (by decide) (by decide) (by decide)
  have hinner : role "sphst".toList styledPart
      (pathOf ["parts".toList, "b.sphst".toList].dropLast)
      (.scalar Kind.importKind "../site.css".toList) = .stylesheet "../site.css".toList := by rfl
  rw [resolve, expand_cons, expand_nil, piece_document hrole (by simp) hread, hnodes, expand_cons,
    expand_nil, piece_stylesheet hinner]
  decide

theorem resolve_styledPart :
    (resolve Registry.builtin "sphst".toList styledPart ⟨['/']⟩ []
        [.scalar Kind.importKind "./parts//b".toList]).value =
      .ok [.scalar Kind.importKind "parts/../site.css".toList] ∧
    ∃ ps, Unfolds Registry.builtin "sphst".toList styledPart ⟨['/']⟩ []
        [.scalar Kind.importKind "./parts//b".toList] ps ∧
      List.Forall₂ (fun p m =>
        if p.node.kind = Kind.importKind then
          ∃ href, m = .scalar Kind.importKind href ∧
            ((∀ path ∈ p.route, ¬ path.isAbsolute) → (reference p.node).head? ≠ some '/' →
              ¬ "://".toList <:+: reference p.node →
              styledPart.lexical (Path.join ⟨['/']⟩ ⟨href⟩) =
                styledPart.lexical (p.directory.join ⟨reference p.node⟩))
        else m = p.node) ps [.scalar Kind.importKind "parts/../site.css".toList] :=
  ⟨resolve_part, resolve_stylesheets _ _ _ _ _ _ _ resolve_part⟩

end Import
end Folio
