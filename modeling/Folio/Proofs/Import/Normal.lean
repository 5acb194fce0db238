import Folio.Proofs.Files.Components
import Folio.Proofs.Import.Rebase
import Folio.Proofs.Page.Summary

namespace Folio.Import

open Folio.Path

theorem isStylesheet_iff {t : Text} : isStylesheet t ↔
    ∃ n, (Path.mk t).fileName? = some n ∧ (splitExtension n).2.any isStylesheetExtension := by
  unfold isStylesheet extension?
  cases (Path.mk t).fileName? with
  | none => simp
  | some n => simp

/-- Putting a directory before the reference of a stylesheet leaves the reference of a stylesheet. -/
theorem isStylesheet_rebase (within : Path) {t : Text} (h : isStylesheet t) :
    isStylesheet (rebase within t) := by
  by_cases hsame : isFixed t || within.isEmpty
  · rw [rebase, if_pos hsame]
    exact h
  · rw [Bool.or_eq_true, not_or] at hsame
    obtain ⟨n, hn, hcss⟩ := isStylesheet_iff.1 h
    obtain ⟨hlast, hdots⟩ := fileName?_eq_some_iff.1 hn
    -- both references end with the same name
    obtain ⟨before, hsteps⟩ : ∃ before,
        (Path.mk (rebase within t)).steps = before ++ (Path.mk t).steps := by
      rw [steps, segments_rebase hsame.1 hsame.2, List.filter_append]
      exact ⟨_, rfl⟩
    refine isStylesheet_iff.2 ⟨n, fileName?_eq_some_iff.2 ⟨?_, hdots⟩, hcss⟩
    rw [hsteps, List.getLast?_append, hlast, Option.some_or]

theorem classify_eq_stylesheet_iff {t : Text} (extension : Text) :
    classify t extension = .stylesheet ↔ isStylesheet t := by
  unfold classify isStylesheet
  cases (Path.mk t).extension? with
  | none => simp
  | some e => by_cases he : isStylesheetExtension e <;> grind

/-- A node that has nothing to expand: no flag, and no import but that of a stylesheet. -/
def IsResolved (n : Node) : Prop :=
  n.kind ≠ Kind.importable ∧
    (n.kind = Kind.importKind → ∃ href, n = .scalar Kind.importKind href ∧ isStylesheet href)

theorem isResolved_stylesheet {href : Text} (h : isStylesheet href) :
    IsResolved (.scalar Kind.importKind href) :=
  ⟨(by decide : Kind.importKind ≠ Kind.importable), fun _ => ⟨href, rfl, h⟩⟩

section

variable {r : Registry} {extension : Text} {w : Workspace} {base within : Path}
  {chain : List Location} {n : Node} {ns : List Node}

theorem isResolved_of_kept (h : role extension w base n = .kept) : IsResolved n := by
  refine ⟨fun hk => ?_, fun hk => absurd hk (kind_of_kept h)⟩
  rw [role, if_pos hk] at h
  cases h

theorem role_of_isStylesheet {href : Text} (h : isStylesheet href) :
    role extension w base (.scalar Kind.importKind href) = .stylesheet href := by
  have hkind : (Node.scalar Kind.importKind href).kind = Kind.importKind := rfl
  have href : reference (.scalar Kind.importKind href) = href := rfl
  rw [role, hkind, if_neg (by decide), if_pos rfl, href, (classify_eq_stylesheet_iff extension).2 h]

theorem isStylesheet_of_role {t : Text} (h : role extension w base n = .stylesheet t) :
    isStylesheet t := by
  obtain ⟨hk, rfl⟩ := stylesheet_of_role h
  rw [← classify_eq_stylesheet_iff extension]
  rw [role, if_neg (by rw [hk]; decide), if_pos hk] at h
  split at h
  · assumption
  · cases h
  · split at h <;> cases h

/-- An expansion leaves nothing to expand. -/
theorem isResolved_of_expand {out : List Node}
    (h : (expand r extension w base within chain ns).value = .ok out) : ∀ n ∈ out, IsResolved n :=
  forall_expand (Q := fun _ => True) (fun _ _ _ _ _ => trivial) (fun _ _ _ => isResolved_of_kept)
    (fun _ within _ _ hr => isResolved_stylesheet (isStylesheet_rebase within (isStylesheet_of_role hr)))
    (fun _ _ => trivial) h

/-- Where there is nothing to expand, nothing changes. -/
theorem expand_resolved (hns : ∀ n ∈ ns, IsResolved n) :
    (expand r extension w base .empty chain ns).value = .ok ns := by
  induction ns with
  | nil => exact expand_nil r extension w base .empty chain
  | cons n ns ih =>
    obtain ⟨⟨hflag, himport⟩, hrest⟩ := List.forall_mem_cons.1 hns
    have hpiece : piece r extension w base .empty chain n = .ok [n] := by
      by_cases hk : n.kind = Kind.importKind
      · obtain ⟨href, rfl, hcss⟩ := himport hk
        rw [piece_stylesheet (role_of_isStylesheet hcss), rebase_empty]
      · have hrole : role extension w base n = .kept := by rw [role, if_neg hflag, if_neg hk]
        exact piece_kept hrole
    exact expand_cons_ok_iff.2 ⟨[n], ns, hpiece, ih hrest, rfl⟩

/-- The page has a link for each import. -/
theorem links_resolved (hns : ∀ n ∈ ns, IsResolved n) :
    (Summary.ofNodes ns).value.links =
      (ns.filter fun n => n.kind = Kind.importKind).map fun n => stylesheetLink (reference n) := by
  rw [(Summary.describes_ofNodes ns).links]
  induction ns with
  | nil => rfl
  | cons n ns ih =>
    obtain ⟨⟨_, himport⟩, hrest⟩ := List.forall_mem_cons.1 hns
    rw [List.filterMap_cons, List.filter_cons]
    by_cases hk : n.kind = Kind.importKind
    · obtain ⟨href, rfl, hcss⟩ := himport hk
      have hlink : (Node.scalar Kind.importKind href).link? = some (stylesheetLink href) := by
        rw [Node.link?, if_pos hk, Node.text?, Option.filter_some, if_pos hcss, Option.map_some]
      rw [hlink, if_pos (decide_eq_true hk), List.map_cons, ih hrest]
      rfl
    · have hlink : n.link? = none := if_neg hk
      rw [hlink, if_neg (by simpa using hk), ih hrest]

end

/-- Resolving ends in a normal form: no flag is left and no import but those of stylesheets, and to
resolve the result, from any directory and in any other setting, changes nothing. The page gets one
link for each import that is left, in order. -/
theorem resolve_normal {r : Registry} {extension : Text} {w : Workspace} {base : Path}
    {chain : List Location} {ns out : List Node}
    (h : (resolve r extension w base chain ns).value = .ok out) :
    (∀ n ∈ out, n.kind ≠ Kind.importable ∧
      (n.kind = Kind.importKind → ∃ href, n = .scalar Kind.importKind href ∧ isStylesheet href)) ∧
    (∀ (r' : Registry) (extension' : Text) (w' : Workspace) (base' : Path) (chain' : List Location),
      (resolve r' extension' w' base' chain' out).value = .ok out) ∧
    (Summary.ofNodes out).value.links =
      (out.filter fun n => n.kind = Kind.importKind).map fun n => stylesheetLink (reference n) := by
  have hresolved := isResolved_of_expand h
  exact ⟨hresolved, fun _ _ _ _ _ => expand_resolved hresolved, links_resolved hresolved⟩

/-- Nodes that a flag, an import without a text and the import of a document stand among. -/
def mixedNodes : List Node :=
  [.scalar Kind.importable "true".toList, .composite Kind.importKind [],
    .scalar Kind.importKind "a/.//B.CSS/".toList, .scalar Kind.importKind "./parts//b".toList]

/-- The stylesheets, the second one from the document. -/
def mixedLeft : List Node :=
  [.scalar Kind.importKind "a/.//B.CSS/".toList, .scalar Kind.importKind "parts/../site.css".toList]

theorem resolve_normal_mixed :
    (resolve Registry.builtin "sphst".toList styledPart ⟨['/']⟩ [] mixedNodes).value =
      .ok mixedLeft ∧
    (∀ n ∈ mixedLeft, n.kind ≠ Kind.importable ∧
      (n.kind = Kind.importKind → ∃ href, n = .scalar Kind.importKind href ∧ isStylesheet href)) ∧
    (resolve Registry.builtin "sphst".toList styledPart ⟨"/parts".toList⟩ [[]] mixedLeft).value =
      .ok mixedLeft ∧
    (Summary.ofNodes mixedLeft).value.links =
      [stylesheetLink "a/.//B.CSS/".toList, stylesheetLink "parts/../site.css".toList] := by
  have hflag : role "sphst".toList styledPart ⟨['/']⟩ (.scalar Kind.importable "true".toList) =
      .dropped [] := by rfl
  have hempty : ∃ log, role "sphst".toList styledPart ⟨['/']⟩ (.composite Kind.importKind []) =
      .dropped log := ⟨_, by rfl⟩
  obtain ⟨log, hempty⟩ := hempty
  have hcss : role "sphst".toList styledPart ⟨['/']⟩
      (.scalar Kind.importKind "a/.//B.CSS/".toList) = .stylesheet "a/.//B.CSS/".toList :=
    role_of_isStylesheet (by decide)
  have hvalue : (resolve Registry.builtin "sphst".toList styledPart ⟨['/']⟩ [] mixedNodes).value =
      .ok mixedLeft :=
    expand_cons_ok_iff.2 ⟨[], _, piece_dropped hflag, expand_cons_ok_iff.2 ⟨[], _,
      piece_dropped hempty, expand_cons_ok_iff.2 ⟨_, _, piece_stylesheet hcss, resolve_part, rfl⟩,
      rfl⟩, rfl⟩
  obtain ⟨hnormal, hagain, hlinks⟩ := resolve_normal hvalue
  exact ⟨hvalue, hnormal, hagain _ _ _ _ _, hlinks.trans (by rfl)⟩

end Folio.Import
