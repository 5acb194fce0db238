import Folio.Proofs.Document.Compilation
import Folio.Proofs.Document.Splice
import Folio.Proofs.Files.Canonical
import Folio.Proofs.Import.Placement

/-! Importing a document is writing its text in its place. The import line and the text give the same
nodes before and after them; in between, the nodes of the document are expanded once with the
document on the chain and once without it, which makes no difference: a way back to the document is
a cycle in both cases. -/
namespace Folio

open Text Frontmatter

/-- The only line is no marker of metadata, and it is not indented. -/
theorem importLine_free {t : Text} (hne : t ≠ []) (ht : trim t = t) (hline : '\n' ∉ t) :
    Complete (lines (importLine t)) ∧ Lines.Flush (lines (importLine t)) := by
  have htrim := trim_importLine hne ht
  -- the first letter tells the line from a marker
  have hmarker : ¬ IsMarker (importLine t) := by
    have hhead {u rest : Text} (h : importLine t = u ++ rest) (hu : u.head? = some 'f') : False := by
      have hi := head?_importLine t
      rw [h, List.head?_append, hu] at hi
      cases hi
    rintro (h | ⟨rest, h⟩)
    · rw [htrim] at h
      exact hhead (h.trans (List.append_nil _).symm) (by decide)
    · rw [htrim] at h
      exact hhead h.symm (by decide)
  have hindent : Lines.stripIndent? (importLine t) = none := rfl
  rw [lines_importLine hline, complete_cons_iff, Lines.flush_cons_iff,
    if_neg (by rw [htrim]; simp [importLine])]
  exact ⟨⟨fun h => absurd h hmarker, complete_nil⟩, hindent⟩

namespace Import

variable (r : Registry) (extension : Text) {w : Workspace} {l : Location} {t : Text}

/-- The nodes of a document fail to expand with the document on the chain exactly if they do without
it: a way back to the document could be gone twice. -/
theorem expand_self_isOk_iff (within : Path) (hl : w.readAt l = .ok t) :
    (∃ xs, (expand r extension w (Workspace.pathOf l.dropLast) within [l]
        (nodesOf r t).value).value = .ok xs) ↔
      ∃ xs, (expand r extension w (Workspace.pathOf l.dropLast) within []
        (nodesOf r t).value).value = .ok xs := by
  rw [expand_isOk_iff (by simpa using ⟨t, hl⟩), expand_isOk_iff (by simp)]
  constructor
  · intro h qs hw
    exact ⟨(h qs hw).1, by simp⟩
  · intro h qs hw
    refine ⟨(h qs hw).1, ?_⟩
    intro q hq hmem
    obtain rfl : q = l := List.mem_singleton.1 hmem
    obtain ⟨before, after, rfl⟩ := List.append_of_mem hq
    -- the walk has come back to the document, and can do so again
    have hloop : (q :: (before ++ [q])).IsChain (Imports r extension w) := by
      have hchain := (walk_nodes_iff hl).1 hw
      rw [List.append_cons, ← List.cons_append] at hchain
      exact hchain.left_of_append
    have htwice : (q :: (before ++ q :: (before ++ [q]))).IsChain (Imports r extension w) := by
      rw [← List.cons_append, List.isChain_split]
      exact ⟨hloop, hloop⟩
    have hnodup := (h _ ((walk_nodes_iff hl).2 htwice)).1
    rw [List.nodup_append] at hnodup
    exact (List.nodup_cons.1 hnodup.2.1).1 (by simp)

/-- Two expansions have one result, or each reports a cycle. -/
def Agree (x y : Except CompileFault (List Node)) : Prop :=
  (∃ ns, x = .ok ns ∧ y = .ok ns) ∨
    ∃ c d, x = .error (.importCycle c) ∧ y = .error (.importCycle d)

theorem Agree.append {x x' y y' : Except CompileFault (List Node)} (hx : Agree x x')
    (hy : Agree y y') :
    Agree (x.bind fun ms => y.map (ms ++ ·)) (x'.bind fun ms => y'.map (ms ++ ·)) := by
  rcases hx with ⟨ms, rfl, rfl⟩ | ⟨c, d, rfl, rfl⟩
  · rcases hy with ⟨ns, rfl, rfl⟩ | ⟨c, d, rfl, rfl⟩
    · exact Or.inl ⟨ms ++ ns, rfl, rfl⟩
    · exact Or.inr ⟨c, d, rfl, rfl⟩
  · exact Or.inr ⟨c, d, rfl, rfl⟩

variable (w) in
theorem expand_agree_self (base within : Path) (ns : List Node) :
    Agree (expand r extension w base within [] ns).value
      (expand r extension w base within [] ns).value := by
  cases h : (expand r extension w base within [] ns).value with
  | ok xs => exact Or.inl ⟨xs, rfl, rfl⟩
  | error fault =>
    obtain ⟨_, _, rfl, _⟩ := expand_error_walk (by simp) h
    exact Or.inr ⟨_, _, rfl, rfl⟩

theorem expand_nodes_agree (hl : w.readAt l = .ok t) :
    Agree (expand r extension w (Workspace.pathOf l.dropLast) .empty [l] (nodesOf r t).value).value
      (expand r extension w (Workspace.pathOf l.dropLast) .empty [] (nodesOf r t).value).value := by
  have hiff := expand_self_isOk_iff r extension .empty hl
  cases hx : (expand r extension w (Workspace.pathOf l.dropLast) .empty [l]
      (nodesOf r t).value).value with
  | ok xs =>
    obtain ⟨ys, hy⟩ := hiff.1 ⟨xs, hx⟩
    obtain rfl : xs = ys := expand_chain [] hx hy
    exact Or.inl ⟨xs, rfl, hy⟩
  | error fault =>
    cases hy : (expand r extension w (Workspace.pathOf l.dropLast) .empty []
        (nodesOf r t).value).value with
    | ok ys =>
      obtain ⟨xs, hx'⟩ := hiff.2 ⟨ys, hy⟩
      cases hx.symm.trans hx'
    | error fault' =>
      obtain ⟨_, _, rfl, _⟩ := expand_error_walk (by simpa using ⟨t, hl⟩) hx
      obtain ⟨_, _, rfl, _⟩ := expand_error_walk (by simp) hy
      exact Or.inr ⟨_, _, rfl, rfl⟩

/-- A node that imports a file of its own directory agrees with the nodes of that file. -/
theorem expand_import_agree {d : Location} {n : Text} (hread : w.readAt (d ++ [n]) = .ok t)
    (hclass : classify n extension = .document ⟨n⟩) :
    Agree (expand r extension w (Workspace.pathOf d) .empty [] [.scalar Kind.importKind n]).value
      (expand r extension w (Workspace.pathOf d) .empty [] (nodesOf r t).value).value := by
  have hlookup := Workspace.lookup_of_readAt hread
  have hnames := FileTree.isName_of_lookup hlookup
  have hn : IsName n := hnames n (by simp)
  have hresolve : w.resolve ((Workspace.pathOf d).join ⟨n⟩) = .ok (d ++ [n]) := by
    rw [Workspace.join_pathOf (fun m hm => hnames m (List.mem_append_left _ hm)) hn]
    exact Workspace.resolve_pathOf hlookup
  have hrole : role extension w (Workspace.pathOf d) (.scalar Kind.importKind n) =
      .document ⟨n⟩ (d ++ [n]) := role_eq_document_iff.2 ⟨rfl, hclass, hresolve⟩
  -- a name alone adds no directory to the references in the document
  have hnested : nested .empty ⟨n⟩ = .empty := by
    have hsegments : (Path.mk n).segments = [n] := Text.splitOn_of_not_mem hn.slash_not_mem
    have hparent : (Path.mk n).parent? = some .empty := by
      rw [Path.parent?, hsegments]
      simp [Path.dropFillersEnd, hn.1]
    rw [nested, hparent]
    rfl
  have hsingle : (expand r extension w (Workspace.pathOf d) .empty []
      [.scalar Kind.importKind n]).value =
        (expand r extension w (Workspace.pathOf d) .empty [d ++ [n]] (nodesOf r t).value).value := by
    have hpiece : piece r extension w (Workspace.pathOf d) .empty [] (.scalar Kind.importKind n) = _ :=
      piece_document hrole List.not_mem_nil hread
    rw [hnested, List.dropLast_concat, List.nil_append] at hpiece
    rw [expand_cons, expand_nil, hpiece]
    cases (expand r extension w (Workspace.pathOf d) .empty [d ++ [n]] (nodesOf r t).value).value with
    | error fault => rfl
    | ok xs => exact congrArg Except.ok (List.append_nil xs)
  have hagree := expand_nodes_agree r extension hread
  rw [List.dropLast_concat] at hagree
  rwa [hsingle]

/-- So they agree among other nodes. -/
theorem expand_splice_agree {d : Location} {n : Text} (hread : w.readAt (d ++ [n]) = .ok t)
    (hclass : classify n extension = .document ⟨n⟩) (ms ns : List Node) :
    Agree (expand r extension w (Workspace.pathOf d) .empty []
        (ms ++ ([.scalar Kind.importKind n] ++ ns))).value
      (expand r extension w (Workspace.pathOf d) .empty []
        (ms ++ ((nodesOf r t).value ++ ns))).value := by
  simp only [expand_append]
  have hself := expand_agree_self r extension w (Workspace.pathOf d) .empty
  exact (hself ms).append ((expand_import_agree r extension hread hclass).append (hself ns))

end Import

/-- The nodes of a part between two others. -/
theorem nodesOf_between {r : Registry} (hr : r.Standard) {a m b : Text} (ha : Complete (lines a))
    (hm : Complete (lines m)) (hflush : Lines.Flush (lines m)) (hb : Lines.Flush (lines b)) :
    (nodesOf r (a ++ "\n\n".toList ++ (m ++ "\n\n".toList ++ b))).value =
      (nodesOf r a).value ++ ((nodesOf r m).value ++ (nodesOf r b).value) := by
  rw [nodesOf_append hr ha (hflush.append hb), nodesOf_append hr hm hb]

namespace Compiler

open Import

/-- Importing a document from its own directory makes the page that its text makes in the place of
the import, or both fail for a cycle. -/
theorem compile_inclusion {c : Compiler} (hr : c.registry.Standard) {w : Workspace} {d : Location}
    {n t a b : Text} (hread : w.readAt (d ++ [n]) = .ok t)
    (hclass : classify n c.extension = .document ⟨n⟩) (htrim : trim n = n) (hline : '\n' ∉ n)
    (ha : Complete (lines a)) (ht : Complete (lines t)) (htop : Lines.Flush (lines t))
    (hbelow : Lines.Flush (lines b)) :
    (∃ p q,
      (c.compile w (Workspace.pathOf d)
        (a ++ "\n\nimport ".toList ++ n ++ "\n\n".toList ++ b)).value = .ok p ∧
      (c.compile w (Workspace.pathOf d)
        (a ++ "\n\n".toList ++ t ++ "\n\n".toList ++ b)).value = .ok q ∧
      p.html = q.html ∧ p.title = q.title ∧ p.frontmatter = q.frontmatter) ∨
    ∃ x y,
      (c.compile w (Workspace.pathOf d)
        (a ++ "\n\nimport ".toList ++ n ++ "\n\n".toList ++ b)).value = .error (.importCycle x) ∧
      (c.compile w (Workspace.pathOf d)
        (a ++ "\n\n".toList ++ t ++ "\n\n".toList ++ b)).value = .error (.importCycle y) := by
  have hne : n ≠ [] :=
    (FileTree.isName_of_lookup (Workspace.lookup_of_readAt hread) n (by simp)).1
  -- both documents have three parts that are read apart
  have himport : a ++ "\n\nimport ".toList ++ n ++ "\n\n".toList ++ b =
      a ++ "\n\n".toList ++ (importLine n ++ "\n\n".toList ++ b) := by
    have hword : "\n\nimport ".toList = "\n\n".toList ++ Kind.importKind ++ [' '] := by decide
    rw [hword, importLine]
    simp only [List.append_assoc, List.cons_append, List.nil_append]
  have htext : a ++ "\n\n".toList ++ t ++ "\n\n".toList ++ b =
      a ++ "\n\n".toList ++ (t ++ "\n\n".toList ++ b) := by
    simp only [List.append_assoc]
  obtain ⟨hcomplete, hflush⟩ := importLine_free hne htrim hline
  have hnodes := nodesOf_between hr (m := importLine n) ha hcomplete hflush hbelow
  rw [nodesOf_importLine c.registry hne htrim hline] at hnodes
  have hagree := expand_splice_agree c.registry c.extension hread hclass
    (nodesOf c.registry a).value (nodesOf c.registry b).value
  rw [← hnodes, ← nodesOf_between hr ha ht htop hbelow] at hagree
  rw [himport, htext]
  unfold compile
  rw [compileWithin_value, compileWithin_value]
  rcases hagree with ⟨ns, hx, hy⟩ | ⟨x, y, hx, hy⟩
  · rw [hx, hy]
    exact Or.inl ⟨_, _, rfl, rfl, rfl, rfl, rfl⟩
  · rw [hx, hy]
    exact Or.inr ⟨x, y, rfl, rfl⟩

/-- A document in a directory of its own. -/
def chapter : Workspace where
  tree := {
    entries := [(["book".toList, "one.sphst".toList], .file (.text "title One\n\nOnce.".toList)),
      (["book".toList], .directory)]
    nodup := by decide
    named := by decide
    closed := by decide }
  home := []

theorem compile_chapter :
    chapter.readAt (["book".toList] ++ ["one.sphst".toList]) = .ok "title One\n\nOnce.".toList ∧
    ((∃ p q,
      (usual.compile chapter (Workspace.pathOf ["book".toList])
        ("frontmatter \x7b\x7d".toList ++ "\n\nimport ".toList ++ "one.sphst".toList ++
          "\n\n".toList ++ "The end.".toList)).value = .ok p ∧
      (usual.compile chapter (Workspace.pathOf ["book".toList])
        ("frontmatter \x7b\x7d".toList ++ "\n\n".toList ++ "title One\n\nOnce.".toList ++
          "\n\n".toList ++ "The end.".toList)).value = .ok q ∧
      p.html = q.html ∧ p.title = q.title ∧ p.frontmatter = q.frontmatter) ∨
    ∃ x y,
      (usual.compile chapter (Workspace.pathOf ["book".toList])
        ("frontmatter \x7b\x7d".toList ++ "\n\nimport ".toList ++ "one.sphst".toList ++
          "\n\n".toList ++ "The end.".toList)).value = .error (.importCycle x) ∧
      (usual.compile chapter (Workspace.pathOf ["book".toList])
        ("frontmatter \x7b\x7d".toList ++ "\n\n".toList ++ "title One\n\nOnce.".toList ++
          "\n\n".toList ++ "The end.".toList)).value = .error (.importCycle y)) := by
  have hread : chapter.readAt (["book".toList] ++ ["one.sphst".toList]) =
      .ok "title One\n\nOnce.".toList := by decide
  have hbefore : Complete (lines "frontmatter \x7b\x7d".toList) := by decide
  have hwithin : Complete (lines "title One\n\nOnce.".toList) := by decide
  exact ⟨hread, compile_inclusion Registry.builtin_standard hread (by decide) (by decide)
    (by decide) hbefore hwithin (by decide) (by decide)⟩

end Compiler
end Folio
