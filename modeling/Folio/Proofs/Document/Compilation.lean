import Folio.Proofs.Document.ImportLine
import Folio.Proofs.Files.Lexical
import Folio.Proofs.Import.Graph

namespace Folio.Compiler

open Import

/-- The page of a document from its own nodes and their expansion. -/
def pageOf (c : Compiler) (w : Workspace) (base : Path) (nodes resolved : List Node) : Page :=
  let done := (Renderer.render ⟨c.registry, c.host, c.page, w, base, c.extension⟩ resolved).value
  ⟨done.html, done.title, nodes.any fun n => n.kind = Kind.importable, done.frontmatter⟩

/-- Only the expansion of the imports can fail. -/
theorem compileWithin_value (c : Compiler) (w : Workspace) (base : Path) (chain : List Location)
    (source : Text) :
    (c.compileWithin w base chain source).value =
      (expand c.registry c.extension w base .empty chain (nodesOf c.registry source).value).value.map
        (c.pageOf w base (nodesOf c.registry source).value) := by
  unfold compileWithin Logged.bind Import.resolve
  simp only
  cases (expand c.registry c.extension w base .empty chain (nodesOf c.registry source).value).value
    <;> rfl

theorem compileFile_unreadable {c : Compiler} {w : Workspace} {p : Path} {fault : FileFault}
    (h : w.read p = .error fault) : (c.compileFile w p).value = .error (.unreadable p fault) := by
  unfold Workspace.read at h
  unfold compileFile
  cases hl : w.resolve p with
  | error f =>
    rw [hl] at h
    obtain rfl := Except.error.inj h
    rfl
  | ok l =>
    simp only [hl] at h
    simp only [h]
    rfl

theorem compileFile_readable {c : Compiler} {w : Workspace} {p : Path} {l : Location}
    {source : Text} (hl : w.resolve p = .ok l) (hs : w.readAt l = .ok source) :
    (c.compileFile w p).value =
      (expand c.registry c.extension w (Workspace.pathOf l.dropLast) .empty [l]
        (nodesOf c.registry source).value).value.map
        (c.pageOf w (Workspace.pathOf l.dropLast) (nodesOf c.registry source).value) := by
  rw [← compileWithin_value]
  unfold compileFile
  simp only [hl, hs]

/-- A readable file makes a page where no cycle can be reached, and else reports one. -/
theorem compileFile_readable_cases {c : Compiler} {w : Workspace} {p : Path} {l : Location}
    {source : Text} (hl : w.resolve p = .ok l) (hs : w.readAt l = .ok source) :
    (∃ page, (c.compileFile w p).value = .ok page ∧
        ¬ ReachesCycle c.registry c.extension w l) ∨
      ∃ chain, (c.compileFile w p).value = .error (.importCycle chain) ∧
        ReachesCycle c.registry c.extension w l ∧
        IsCycleReport c.registry c.extension w l chain := by
  have hiff := expand_root_isOk_iff c.registry c.extension .empty hs
  rw [compileFile_readable hl hs]
  cases hv : (expand c.registry c.extension w (Workspace.pathOf l.dropLast) .empty [l]
    (nodesOf c.registry source).value).value with
  | ok xs => exact Or.inl ⟨_, rfl, hiff.1 ⟨xs, hv⟩⟩
  | error fault =>
    obtain ⟨chain, rfl, hreport⟩ := expand_root_report hs hv
    refine Or.inr ⟨chain, rfl, ?_, hreport⟩
    -- without a cycle the expansion would have succeeded
    by_contra hn
    obtain ⟨xs, hx⟩ := hiff.2 hn
    cases hv.symm.trans hx

/-- A file fails to compile exactly for one of two reasons: it cannot be read, or a cycle of
imports can be reached from it, and then such a cycle is reported. -/
theorem compileFile_outcome (c : Compiler) (w : Workspace) (p : Path) :
    (∀ q fault, (c.compileFile w p).value = .error (.unreadable q fault) ↔
      q = p ∧ w.read p = .error fault) ∧
    ∀ l source, w.resolve p = .ok l → w.readAt l = .ok source →
      ((∃ chain, (c.compileFile w p).value = .error (.importCycle chain)) ↔
        ReachesCycle c.registry c.extension w l) ∧
      ((∃ page, (c.compileFile w p).value = .ok page) ↔
        ¬ ReachesCycle c.registry c.extension w l) ∧
      ∀ chain, (c.compileFile w p).value = .error (.importCycle chain) →
        IsCycleReport c.registry c.extension w l chain := by
  constructor
  · intro q fault
    cases hread : w.read p with
    | error f =>
      rw [compileFile_unreadable hread]
      grind
    | ok source =>
      obtain ⟨l, hl, hs⟩ := Workspace.read_eq_ok hread
      rcases compileFile_readable_cases (c := c) hl hs with ⟨page, hv, _⟩ | ⟨chain, hv, _⟩ <;> simp [hv]
  · intro l source hl hs
    rcases compileFile_readable_cases (c := c) hl hs with ⟨page, hv, hn⟩ | ⟨chain, hv, hc, hreport⟩
    · simp [hv, hn]
    · simpa [hv, hc] using hreport

/-- The directives of the library and no scripts. -/
def usual : Compiler := ⟨Registry.builtin, Script.idle, .standard, "sphst".toList⟩

/-- A document that imports itself. -/
def selfImport : Workspace where
  tree := {
    entries := [(["a.sphst".toList], .file (.text "import a".toList))]
    nodup := by decide
    named := by decide
    closed := by decide }
  home := []

theorem compileFile_selfImport :
    selfImport.resolve ⟨"./a.sphst".toList⟩ = .ok ["a.sphst".toList] ∧
    selfImport.readAt ["a.sphst".toList] = .ok "import a".toList ∧
    ∃ chain, (usual.compileFile selfImport ⟨"./a.sphst".toList⟩).value =
        .error (.importCycle chain) ∧
      IsCycleReport Registry.builtin "sphst".toList selfImport ["a.sphst".toList] chain := by
  have hl : selfImport.resolve ⟨"./a.sphst".toList⟩ = .ok ["a.sphst".toList] := by decide
  have hs : selfImport.readAt ["a.sphst".toList] = .ok "import a".toList := by decide
  have hnodes : (nodesOf Registry.builtin "import a".toList).value =
      [.scalar Kind.importKind "a".toList] :=
    nodesOf_importLine Registry.builtin (by decide) (by decide) (by decide)
  have hedge : Imports Registry.builtin "sphst".toList selfImport ["a.sphst".toList]
      ["a.sphst".toList] := by
    refine ⟨_, hs, .scalar Kind.importKind "a".toList, ?_, rfl, ⟨"a.sphst".toList⟩, ?_, ?_, _, hs⟩
    · rw [hnodes]
      exact List.mem_singleton_self _
    · decide
    · decide
  obtain ⟨hcycle, -, hreport⟩ :=
    (compileFile_outcome usual selfImport ⟨"./a.sphst".toList⟩).2 _ _ hl hs
  obtain ⟨chain, hchain⟩ := hcycle.2 ⟨_, .refl, .single hedge⟩
  exact ⟨hl, hs, chain, hchain, hreport chain hchain⟩

end Folio.Compiler
