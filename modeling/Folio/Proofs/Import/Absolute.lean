import Folio.Proofs.Files.Components
import Folio.Proofs.Import.Rebase

namespace Folio

namespace Path

/-- The parent of an absolute path to a name is followed as the segments before that name are. -/
theorem parent?_follow_of_absolute {p : Path} (habsolute : p.isAbsolute) {before : List Text}
    {n : Text} (hp : p.segments = before ++ [n]) (hn : ¬ isFiller n) :
    ∃ q, p.parent? = some q ∧ q.isAbsolute ∧ ∀ l, follow l q.segments = follow l before := by
  obtain ⟨rest, rfl⟩ : ∃ rest, before = [] :: rest := by
    obtain ⟨s, ss, hsegments⟩ := isAbsolute_iff.1 habsolute
    rw [hp] at hsegments
    cases before with
    | nil => cases (List.cons.inj hsegments).2
    | cons first rest => exact ⟨rest, by rw [(List.cons.inj hsegments).1]⟩
  have hrest (l : Location) : follow l ([] :: rest) = follow l (dropFillersEnd rest) := by
    rw [follow_cons, step_filler (by decide), follow_dropFillersEnd]
  rw [parent?_of_segments hp hn]
  by_cases hkept : dropFillersEnd rest = []
  · refine ⟨⟨['/']⟩, by rw [hkept]; rfl, by decide, fun l => ?_⟩
    rw [hrest, hkept]
    rfl
  · refine ⟨⟨Text.joinWith ['/'] ([] :: dropFillersEnd rest)⟩, by simp [hkept], ?_, fun l => ?_⟩
    · rw [isAbsolute, Text.joinWith_cons hkept]
      rfl
    · rw [hrest, segments_kept hp, follow_cons, step_filler (by decide)]

/-- Steps that never go up are taken within the directory where they begin. -/
theorem follow_append_left {ss : List Text} (hss : ['.', '.'] ∉ ss) (l m : Location) :
    follow (l ++ m) ss = l ++ follow m ss := by
  induction ss generalizing m with
  | nil => rfl
  | cons s ss ih =>
    obtain ⟨hs, hss⟩ := not_or.1 (mt List.mem_cons.2 hss)
    have hstep : step (l ++ m) s = l ++ step m s := by
      unfold step
      split
      · rfl
      · rw [if_neg (Ne.symm hs), if_neg (Ne.symm hs), List.append_assoc]
    rw [follow_cons, follow_cons, hstep, ih hss]

end Path

namespace Import

open Folio.Path Workspace

/-- The directory of the document is where the route leads to from the root of all files. -/
def Rooted (w : Workspace) (route : List Path) (directory : Path) : Prop :=
  (∃ path ∈ route, path.isAbsolute) →
    (within route).isAbsolute ∧ follow [] (within route).segments = w.lexical directory

theorem rooted_nil (w : Workspace) (directory : Path) : Rooted w [] directory := by
  rintro ⟨_, hmem, _⟩
  cases hmem

/-- After one more import the route leads from the root to the directory of the document, if it did or
if the import is by an absolute path. -/
theorem Rooted.concat {w : Workspace} {directory path : Path} {route : List Path} {l : Location}
    {source : Text} (h : Rooted w route directory)
    (hl : w.resolve (directory.join path) = .ok l) (hs : w.readAt l = .ok source) :
    Rooted w (route ++ [path]) (pathOf l.dropLast) := by
  rintro ⟨p, hp, habsolute⟩
  by_cases hpath : path.isAbsolute
  · -- the path is read from the root, and so is its parent
    rw [join, if_pos hpath] at hl
    have hfile := lookup_of_readAt hs
    have hwalk := resolve_eq_ok hl
    rw [start, if_pos hpath] at hwalk
    obtain ⟨before, n, hsegments, hn, rfl⟩ :=
      walk_file hwalk hfile (Text.splitOn_ne_nil '/' path.text)
    obtain ⟨parent, hparent, hparentAbsolute, hfollow⟩ :=
      parent?_follow_of_absolute hpath hsegments hn
    have hwithin : within (route ++ [path]) = parent := by
      rw [within_append, nested, hparent, Option.getD_some, join, if_pos hparentAbsolute]
    have hnames : ∀ m ∈ (follow [] before ++ [n]).dropLast, IsName m := fun m hm =>
      FileTree.isName_of_lookup hfile m (List.dropLast_subset _ hm)
    rw [hwithin, lexical_pathOf hnames, List.dropLast_concat]
    exact ⟨hparentAbsolute, hfollow []⟩
  · have hroute : ∃ path ∈ route, path.isAbsolute := by
      rcases List.mem_append.1 hp with hp | hp
      · exact ⟨p, hp, habsolute⟩
      · exact absurd (List.mem_singleton.1 hp ▸ habsolute) hpath
    obtain ⟨hkept, hfollow⟩ := h hroute
    obtain ⟨hkeeps, hstep⟩ := follow_within_concat hfollow hpath hl hs
    exact ⟨by rwa [hkeeps], hstep⟩

theorem Unfolds.rooted {r : Registry} {extension : Text} {w : Workspace} {base : Path}
    {route : List Path} {ns : List Node} {ps : List Placed}
    (h : Unfolds r extension w base route ns ps) (hrooted : Rooted w route base) :
    ∀ p ∈ ps, Rooted w p.route p.directory :=
  h.forall_placed hrooted fun _ _ _ _ _ hrooted hl hs => hrooted.concat hl hs

/-- Where the route leads from the root to the directory of a document, a rebased reference leads from
a directory as it would lead from the root, and stays within that directory if it never goes up. -/
theorem Rooted.lexical_rebase {w : Workspace} {directory : Path} {route : List Path} {t : Text}
    (h : Rooted w route directory) (hroute : ∃ path ∈ route, path.isAbsolute) (hfixed : ¬ isFixed t)
    (root : Path) :
    (w.lexical root = [] →
      w.lexical (root.join ⟨rebase (within route) t⟩) = w.lexical (directory.join ⟨t⟩)) ∧
    (['.', '.'] ∉ (Path.mk (rebase (within route) t)).segments →
      w.lexical (root.join ⟨rebase (within route) t⟩) =
        w.lexical root ++ w.lexical (directory.join ⟨t⟩)) := by
  obtain ⟨hrebased, hfollow⟩ := rebase_follow (within route) hfixed
  have hroot : follow [] (Path.mk (rebase (within route) t)).segments =
      w.lexical (directory.join ⟨t⟩) := by
    rw [hfollow, (h hroute).2, lexical_join (not_isAbsolute_of_not_isFixed hfixed)]
  rw [lexical_join hrebased]
  refine ⟨fun hempty => by rw [hempty, hroot], fun hdots => ?_⟩
  have hbelow := follow_append_left hdots (w.lexical root) []
  rwa [List.append_nil, hroot] at hbelow

/-- In an expansion, a relative reference to a stylesheet in a document that an absolute path leads
to, at any depth, leads from the first document to the same place as from its own if the directory of
the first document is the root. Another directory is put before that place, unless the reference goes
up. -/
theorem resolve_absolute (r : Registry) (extension : Text) (w : Workspace) (root : Path)
    (chain : List Location) (ns out : List Node)
    (h : (resolve r extension w root chain ns).value = .ok out) :
    ∃ ps, Unfolds r extension w root [] ns ps ∧
      List.Forall₂ (fun p m =>
        if p.node.kind = Kind.importKind then
          ∃ href, m = .scalar Kind.importKind href ∧
            ((∃ path ∈ p.route, path.isAbsolute) → (reference p.node).head? ≠ some '/' →
              ¬ "://".toList <:+: reference p.node →
              (w.lexical root = [] →
                w.lexical (root.join ⟨href⟩) = w.lexical (p.directory.join ⟨reference p.node⟩)) ∧
              (['.', '.'] ∉ (Path.mk href).segments →
                w.lexical (root.join ⟨href⟩) =
                  w.lexical root ++ w.lexical (p.directory.join ⟨reference p.node⟩)))
        else m = p.node) ps out := by
  obtain ⟨ps, hps, rfl⟩ := expand_placed [] h
  refine ⟨ps, hps, ?_⟩
  rw [List.forall₂_map_right_iff, List.forall₂_same]
  intro p hp
  have hrooted := hps.rooted (rooted_nil w root) p hp
  unfold Placed.left
  split
  · refine ⟨_, rfl, fun hroute hslash hscheme => ?_⟩
    have hfixed : ¬ isFixed (reference p.node) := by
      rw [isFixed_iff]
      exact not_or.2 ⟨hslash, hscheme⟩
    exact hrooted.lexical_rebase hroute hfixed root
  · rfl

/-- A document in a directory of its own, beside its stylesheet, and a directory without documents. -/
def styledApart : Workspace where
  tree := {
    entries := [(["parts".toList, "b.sphst".toList], .file (.text "import theme.css".toList)),
      (["parts".toList, "theme.css".toList], .file (.text [])),
      (["parts".toList], .directory), (["site".toList], .directory)]
    nodup := by decide
    named := by decide
    closed := by decide }
  home := []

/-- What an import of that document by its absolute path unfolds to. -/
def apartSheet : Placed :=
  ⟨[⟨"/parts/b.sphst".toList⟩], ⟨"/parts".toList⟩, .scalar Kind.importKind "theme.css".toList⟩

theorem nodesOf_apart : (nodesOf Registry.builtin "import theme.css".toList).value =
    [.scalar Kind.importKind "theme.css".toList] :=
  nodesOf_importLine Registry.builtin (by decide) (by decide) (by decide)

theorem readAt_apart : styledApart.readAt ["parts".toList, "b.sphst".toList] =
    .ok "import theme.css".toList := by decide

theorem role_sheet : role "sphst".toList styledApart
    (pathOf ["parts".toList, "b.sphst".toList].dropLast)
    (.scalar Kind.importKind "theme.css".toList) = .stylesheet "theme.css".toList := by rfl

section Root

variable {root : Path} (hrole : role "sphst".toList styledApart root
  (.scalar Kind.importKind "/parts/b".toList) =
    .document ⟨"/parts/b.sphst".toList⟩ ["parts".toList, "b.sphst".toList])
include hrole

theorem unfolds_apart : Unfolds Registry.builtin "sphst".toList styledApart root []
    [.scalar Kind.importKind "/parts/b".toList] [apartSheet] := by
  have hinner : Unfolds Registry.builtin "sphst".toList styledApart
      (pathOf ["parts".toList, "b.sphst".toList].dropLast) ([] ++ [⟨"/parts/b.sphst".toList⟩])
      (nodesOf Registry.builtin "import theme.css".toList).value [apartSheet] := by
    rw [nodesOf_apart]
    exact .stylesheet role_sheet .nil
  exact .document hrole readAt_apart hinner .nil

theorem resolve_apart : (resolve Registry.builtin "sphst".toList styledApart root []
    [.scalar Kind.importKind "/parts/b".toList]).value =
      .ok [.scalar Kind.importKind "parts/theme.css".toList] := by
  rw [resolve, expand_cons, expand_nil, piece_document hrole (by simp) readAt_apart, nodesOf_apart,
    expand_cons, expand_nil, piece_stylesheet role_sheet]
  decide

end Root

theorem resolve_absolute_root :
    (resolve Registry.builtin "sphst".toList styledApart ⟨['/']⟩ []
        [.scalar Kind.importKind "/parts/b".toList]).value =
      .ok [.scalar Kind.importKind "parts/theme.css".toList] ∧
    Unfolds Registry.builtin "sphst".toList styledApart ⟨['/']⟩ []
      [.scalar Kind.importKind "/parts/b".toList] [apartSheet] ∧
    styledApart.lexical (Path.join ⟨['/']⟩ ⟨"parts/theme.css".toList⟩) =
      styledApart.lexical (apartSheet.directory.join ⟨reference apartSheet.node⟩) := by
  have hrole : role "sphst".toList styledApart ⟨['/']⟩ (.scalar Kind.importKind "/parts/b".toList) =
      .document ⟨"/parts/b.sphst".toList⟩ ["parts".toList, "b.sphst".toList] :=
    role_eq_document_iff.2 ⟨rfl, by decide, by decide⟩
  have hunfolds := unfolds_apart hrole
  obtain ⟨ps, hps, hall⟩ := resolve_absolute _ _ _ _ _ _ _ (resolve_apart hrole)
  obtain rfl := hps.unique hunfolds
  have hsheet := (List.forall₂_cons.1 hall).1
  rw [if_pos (by rfl)] at hsheet
  obtain ⟨href, hhref, hleads⟩ := hsheet
  obtain rfl := (Node.scalar.inj hhref).2
  have hroute : ∃ path ∈ apartSheet.route, path.isAbsolute := ⟨_, List.mem_cons_self, by decide⟩
  exact ⟨resolve_apart hrole, hunfolds, (hleads hroute (by decide) (by decide)).1 (by decide)⟩

/-- Below another directory the stylesheet is lost. -/
theorem resolve_absolute_site :
    (resolve Registry.builtin "sphst".toList styledApart ⟨"/site".toList⟩ []
        [.scalar Kind.importKind "/parts/b".toList]).value =
      .ok [.scalar Kind.importKind "parts/theme.css".toList] ∧
    Unfolds Registry.builtin "sphst".toList styledApart ⟨"/site".toList⟩ []
      [.scalar Kind.importKind "/parts/b".toList] [apartSheet] ∧
    styledApart.lexical (Path.join ⟨"/site".toList⟩ ⟨"parts/theme.css".toList⟩) ≠
      styledApart.lexical (apartSheet.directory.join ⟨reference apartSheet.node⟩) := by
  have hrole : role "sphst".toList styledApart ⟨"/site".toList⟩
      (.scalar Kind.importKind "/parts/b".toList) =
        .document ⟨"/parts/b.sphst".toList⟩ ["parts".toList, "b.sphst".toList] :=
    role_eq_document_iff.2 ⟨rfl, by decide, by decide⟩
  exact ⟨resolve_apart hrole, unfolds_apart hrole, by decide⟩

end Import
end Folio
