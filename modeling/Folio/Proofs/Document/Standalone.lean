import Folio.Proofs.Files.Names
import Folio.Proofs.Import.Inclusion

/-! Compiling a file is compiling its text in its directory. The file is on the chain in the one case
and not in the other, so that a cycle may be gone around once more before it is noticed; but it is
noticed in both cases, and a page does not depend on the chain. -/
namespace Folio

/-- The parent of the path of an entry is the path of its directory. -/
theorem Workspace.parent?_pathOf {l : Location} {n : Text} (h : ∀ m ∈ l ++ [n], IsName m) :
    (pathOf (l ++ [n])).parent? = some (pathOf l) := by
  have hn : ¬ Path.isFiller n := Path.not_isFiller (h n (by simp))
  have hsegments : (pathOf (l ++ [n])).segments = [] :: (l ++ [n]) := by
    rw [segments_pathOf h, if_neg (by simp)]
  -- the name before the last one is no filler either
  have hkept : Path.dropFillersEnd l = l := by
    rcases List.eq_nil_or_concat l with rfl | ⟨init, m, rfl⟩
    · rfl
    · rw [List.concat_eq_append] at h ⊢
      exact Path.dropFillersEnd_concat (Path.not_isFiller (h m (by simp)))
  rw [Path.parent?_of_segments hsegments hn, hkept]
  by_cases hempty : l = []
  · rw [hempty]
    rfl
  · rw [if_neg (by simp [hempty]), Text.joinWith_cons hempty]
    rfl

namespace Compiler

/-- A readable file makes a page exactly if its text makes that page in the directory of the file, and
one of the two compilations reports a cycle of imports exactly if the other one does. -/
theorem compileFile_iff_compile (c : Compiler) {w : Workspace} {p : Path} {l : Location}
    {source : Text} (hl : w.resolve p = .ok l) (hs : w.readAt l = .ok source) :
    ∃ base, (Workspace.pathOf l).parent? = some base ∧
      (∀ page, (c.compileFile w p).value = .ok page ↔ (c.compile w base source).value = .ok page) ∧
      ((∃ chain, (c.compileFile w p).value = .error (.importCycle chain)) ↔
        ∃ chain, (c.compile w base source).value = .error (.importCycle chain)) := by
  have hlookup := Workspace.lookup_of_readAt hs
  have hnames := FileTree.isName_of_lookup hlookup
  have hne : l ≠ [] := by
    rintro rfl
    cases hlookup
  have hsplit : l.dropLast ++ [l.getLast hne] = l := List.dropLast_concat_getLast hne
  have hparent : (Workspace.pathOf l).parent? = some (Workspace.pathOf l.dropLast) := by
    rw [← hsplit] at hnames
    have hpath := Workspace.parent?_pathOf hnames
    rwa [hsplit] at hpath
  refine ⟨Workspace.pathOf l.dropLast, hparent, ?_⟩
  -- the same nodes are expanded with the file on the chain and without it
  have hagree := Import.expand_nodes_agree c.registry c.extension hs
  unfold compile
  rw [compileFile_readable hl hs, compileWithin_value]
  rcases hagree with ⟨ns, hx, hy⟩ | ⟨x, y, hx, hy⟩
  · rw [hx, hy]
    exact ⟨fun page => Iff.rfl, Iff.rfl⟩
  · rw [hx, hy]
    constructor
    · intro page
      apply iff_of_false <;> rintro ⟨⟩
    · exact ⟨fun _ => ⟨y, rfl⟩, fun _ => ⟨x, rfl⟩⟩

/-- The document that imports itself reports a cycle in both ways. -/
theorem compile_selfImport :
    selfImport.resolve ⟨"./a.sphst".toList⟩ = .ok ["a.sphst".toList] ∧
    selfImport.readAt ["a.sphst".toList] = .ok "import a".toList ∧
    (Workspace.pathOf ["a.sphst".toList]).parent? = some ⟨['/']⟩ ∧
    (∃ chain, (usual.compileFile selfImport ⟨"./a.sphst".toList⟩).value =
      .error (.importCycle chain)) ∧
    ∃ chain, (usual.compile selfImport ⟨['/']⟩ "import a".toList).value =
      .error (.importCycle chain) := by
  have hl : selfImport.resolve ⟨"./a.sphst".toList⟩ = .ok ["a.sphst".toList] := by decide
  have hs : selfImport.readAt ["a.sphst".toList] = .ok "import a".toList := by decide
  have hnodes : (nodesOf Registry.builtin "import a".toList).value =
      [.scalar Kind.importKind "a".toList] :=
    nodesOf_importLine Registry.builtin (by decide) (by decide) (by decide)
  have hrole : Import.role "sphst".toList selfImport
      (Workspace.pathOf ["a.sphst".toList].dropLast)
      (.scalar Kind.importKind "a".toList) = .document ⟨"a.sphst".toList⟩ ["a.sphst".toList] :=
    Import.role_eq_document_iff.2 ⟨rfl, by decide, by decide⟩
  have hcycle : ∃ chain, (usual.compileFile selfImport ⟨"./a.sphst".toList⟩).value =
      .error (.importCycle chain) := by
    have hfile := compileFile_readable (c := usual) hl hs
    rw [show usual.registry = Registry.builtin from rfl, hnodes,
      show usual.extension = "sphst".toList from rfl,
      Import.expand_cons_of_error (Import.piece_cycle hrole List.mem_cons_self)] at hfile
    rw [hfile]
    exact ⟨_, rfl⟩
  obtain ⟨base, hbase, -, hiff⟩ := compileFile_iff_compile usual hl hs
  have hroot : (Workspace.pathOf ["a.sphst".toList]).parent? = some ⟨['/']⟩ := by decide
  obtain rfl : base = ⟨['/']⟩ := Option.some.inj (hbase.symm.trans hroot)
  exact ⟨hl, hs, hroot, hcycle, hiff.1 hcycle⟩

end Compiler
end Folio
