import Mathlib.Data.Finset.Card
import Folio.Proofs.Document.ImportLine
import Folio.Proofs.Import.Normal

/-! Expanding imports ends. A document is read only if it is not on the chain, and is on the chain
while its own nodes are expanded. So each nested expansion uses up a readable file, and there are no
more of them within one another than there are readable files that the chain leaves. The runs of the
expansion are given here as a relation, which a run without an end would not be in. -/
namespace Folio.Import

/-- An expansion that runs within another one: how many it runs within, and the chain it runs with. -/
structure Nesting where
  depth : Nat
  chain : List Location

/-- The expansion as it is seen from outside of the one that it runs within. -/
def Nesting.deeper (c : Nesting) : Nesting := ⟨c.depth + 1, c.chain⟩

/-- The runs of the expansion that come to an end, each with its result and the expansions nested in
it, in the order of their beginnings. -/
inductive Runs (r : Registry) (extension : Text) (w : Workspace) :
    Path → Path → List Location → List Node → Except CompileFault (List Node) → List Nesting → Prop
  | nil {base within : Path} {chain : List Location} :
      Runs r extension w base within chain [] (.ok []) []
  | dropped {base within : Path} {chain : List Location} {n : Node} {ns : List Node}
      {out : Except CompileFault (List Node)} {calls : List Nesting} {log : List Warning} :
      role extension w base n = .dropped log →
      Runs r extension w base within chain ns out calls →
      Runs r extension w base within chain (n :: ns) out calls
  | kept {base within : Path} {chain : List Location} {n : Node} {ns : List Node}
      {out : Except CompileFault (List Node)} {calls : List Nesting} :
      role extension w base n = .kept →
      Runs r extension w base within chain ns out calls →
      Runs r extension w base within chain (n :: ns) (out.map (n :: ·)) calls
  | stylesheet {base within : Path} {chain : List Location} {n : Node} {ns : List Node}
      {out : Except CompileFault (List Node)} {calls : List Nesting} {reference : Text} :
      role extension w base n = .stylesheet reference →
      Runs r extension w base within chain ns out calls →
      Runs r extension w base within chain (n :: ns)
        (out.map (.scalar Kind.importKind (rebase within reference) :: ·)) calls
  | cycle {base within path : Path} {chain : List Location} {n : Node} {ns : List Node}
      {l : Location} :
      role extension w base n = .document path l → l ∈ chain →
      Runs r extension w base within chain (n :: ns) (.error (.importCycle (chain ++ [l]))) []
  | unreadable {base within path : Path} {chain : List Location} {n : Node} {ns : List Node}
      {out : Except CompileFault (List Node)} {calls : List Nesting} {l : Location}
      {fault : FileFault} :
      role extension w base n = .document path l → l ∉ chain → w.readAt l = .error fault →
      Runs r extension w base within chain ns out calls →
      Runs r extension w base within chain (n :: ns) out calls
  | failed {base within path : Path} {chain : List Location} {n : Node} {ns : List Node}
      {inner : List Nesting} {l : Location} {source : Text} {fault : CompileFault} :
      role extension w base n = .document path l → l ∉ chain → w.readAt l = .ok source →
      Runs r extension w (Workspace.pathOf l.dropLast) (nested within path) (chain ++ [l])
        (nodesOf r source).value (.error fault) inner →
      Runs r extension w base within chain (n :: ns) (.error fault)
        (⟨1, chain ++ [l]⟩ :: inner.map Nesting.deeper)
  | document {base within path : Path} {chain : List Location} {n : Node} {ns xs : List Node}
      {out : Except CompileFault (List Node)} {inner calls : List Nesting} {l : Location}
      {source : Text} :
      role extension w base n = .document path l → l ∉ chain → w.readAt l = .ok source →
      Runs r extension w (Workspace.pathOf l.dropLast) (nested within path) (chain ++ [l])
        (nodesOf r source).value (.ok xs) inner →
      Runs r extension w base within chain ns out calls →
      Runs r extension w base within chain (n :: ns) (out.map (xs ++ ·))
        (⟨1, chain ++ [l]⟩ :: inner.map Nesting.deeper ++ calls)

/-- A chain is another one and at its end a readable file that was not on it. -/
def Grows (w : Workspace) (outer chain : List Location) : Prop :=
  ∃ l, l ∉ outer ∧ (∃ t, w.readAt l = .ok t) ∧ chain = outer ++ [l]

/-- The readable files of a workspace that are not on a chain. -/
def unread (w : Workspace) (chain : List Location) : Finset Location :=
  (w.tree.entries.map Prod.fst).toFinset.filter fun l => l ∉ chain ∧ (w.readAt l).toOption.isSome

theorem mem_unread_iff {w : Workspace} {chain : List Location} {l : Location} :
    l ∈ unread w chain ↔ l ∉ chain ∧ ∃ t, w.readAt l = .ok t := by
  have hreadable : (w.readAt l).toOption.isSome ↔ ∃ t, w.readAt l = .ok t := by
    cases w.readAt l <;> simp [Except.toOption]
  unfold unread
  rw [Finset.mem_filter, List.mem_toFinset, hreadable]
  apply and_iff_right_of_imp
  rintro ⟨_, t, ht⟩
  exact List.mem_map_of_mem (mem_of_readAt ht)

variable {r : Registry} {extension : Text} {w : Workspace} {base within : Path}
  {chain : List Location} {ns : List Node} {out : Except CompileFault (List Node)}
  {calls : List Nesting}

theorem map_nil_append (x : Except CompileFault (List Node)) : x.map ([] ++ ·) = x := by
  cases x <;> rfl

/-- A run ends with the result of the expansion. -/
theorem Runs.result (h : Runs r extension w base within chain ns out calls) :
    out = (expand r extension w base within chain ns).value := by
  induction h with
  | nil => rw [expand_nil]
  | dropped hr _ ih =>
    rw [expand_cons_of_ok (piece_dropped hr), ← ih, map_nil_append]
  | kept hr _ ih =>
    rw [expand_cons_of_ok (piece_kept hr), ← ih]
    rfl
  | stylesheet hr _ ih =>
    rw [expand_cons_of_ok (piece_stylesheet hr), ← ih]
    rfl
  | cycle hr hl => rw [expand_cons_of_error (piece_cycle hr hl)]
  | unreadable hr hl hs _ ih =>
    rw [expand_cons_of_ok (piece_unreadable hr hl hs), ← ih, map_nil_append]
  | failed hr hl hs _ ih =>
    rw [expand_cons_of_error ((piece_document hr hl hs).trans ih.symm)]
  | document hr hl hs _ _ ihinner ih =>
    rw [expand_cons_of_ok ((piece_document hr hl hs).trans ihinner.symm), ← ih]

/-- A run of what follows a node gives a run with the node, if there is a run for the document that
the node imports. -/
theorem exists_runs_cons {n : Node}
    (hdoc : ∀ path l source, role extension w base n = .document path l → l ∉ chain →
      w.readAt l = .ok source →
      ∃ inner, Runs r extension w (Workspace.pathOf l.dropLast) (nested within path) (chain ++ [l])
        (nodesOf r source).value (expand r extension w (Workspace.pathOf l.dropLast)
          (nested within path) (chain ++ [l]) (nodesOf r source).value).value inner)
    (hrest : Runs r extension w base within chain ns
      (expand r extension w base within chain ns).value calls) :
    ∃ calls, Runs r extension w base within chain (n :: ns)
      (expand r extension w base within chain (n :: ns)).value calls := by
  cases hr : role extension w base n with
  | dropped log =>
    rw [expand_cons_of_ok (piece_dropped hr), map_nil_append]
    exact ⟨calls, .dropped hr hrest⟩
  | kept =>
    rw [expand_cons_of_ok (piece_kept hr)]
    exact ⟨calls, .kept hr hrest⟩
  | stylesheet t =>
    rw [expand_cons_of_ok (piece_stylesheet hr)]
    exact ⟨calls, .stylesheet hr hrest⟩
  | document path l =>
    by_cases hl : l ∈ chain
    · rw [expand_cons_of_error (piece_cycle hr hl)]
      exact ⟨[], .cycle hr hl⟩
    · cases hs : w.readAt l with
      | error fault =>
        rw [expand_cons_of_ok (piece_unreadable hr hl hs), map_nil_append]
        exact ⟨calls, .unreadable hr hl hs hrest⟩
      | ok source =>
        -- the document is expanded first, and what follows only if that succeeds
        have hpiece : piece r extension w base within chain n = _ := piece_document hr hl hs
        obtain ⟨inner, hinner⟩ := hdoc path l source hr hl hs
        cases hx : (expand r extension w (Workspace.pathOf l.dropLast) (nested within path)
            (chain ++ [l]) (nodesOf r source).value).value with
        | error fault =>
          rw [hx] at hpiece hinner
          rw [expand_cons_of_error hpiece]
          exact ⟨_, .failed hr hl hs hinner⟩
        | ok xs =>
          rw [hx] at hpiece hinner
          rw [expand_cons_of_ok hpiece]
          exact ⟨_, .document hr hl hs hinner hrest⟩

variable (r extension w base within chain ns) in
/-- There is a run for every list of nodes, whatever the chain. -/
theorem exists_runs :
    ∃ calls, Runs r extension w base within chain ns
      (expand r extension w base within chain ns).value calls := by
  apply expand_induction r extension w (motive := fun base within chain ns =>
    ∃ calls, Runs r extension w base within chain ns
      (expand r extension w base within chain ns).value calls)
  · intro base within chain
    rw [expand_nil]
    exact ⟨[], .nil⟩
  · rintro base within chain n ns ihdoc ⟨calls, hrest⟩
    exact exists_runs_cons ihdoc hrest

/-- An expansion was called with a chain that grows by one document: directly, or from another one
that is nested. -/
def CalledFrom (w : Workspace) (chain : List Location) (calls : List Nesting) (c : Nesting) : Prop :=
  ∃ outer, Grows w outer c.chain ∧
    ((c.depth = 1 ∧ outer = chain) ∨ ∃ d ∈ calls, d.depth + 1 = c.depth ∧ d.chain = outer)

theorem CalledFrom.mono {c : Nesting} {more : List Nesting} (h : CalledFrom w chain calls c)
    (hsub : calls ⊆ more) : CalledFrom w chain more c := by
  obtain ⟨outer, hgrows, hfrom⟩ := h
  refine ⟨outer, hgrows, hfrom.imp_right ?_⟩
  rintro ⟨d, hd, hdepth⟩
  exact ⟨d, hsub hd, hdepth⟩

/-- The expansions nested in a document are called from it, or from each other. -/
theorem CalledFrom.deeper {l : Location} {c : Nesting} (h : CalledFrom w (chain ++ [l]) calls c) :
    CalledFrom w chain (⟨1, chain ++ [l]⟩ :: calls.map Nesting.deeper) c.deeper := by
  obtain ⟨outer, hgrows, ⟨hdepth, rfl⟩ | ⟨d, hd, hdepth, hchain⟩⟩ := h
  · refine ⟨_, hgrows, Or.inr ⟨_, List.mem_cons_self, ?_, rfl⟩⟩
    exact congrArg (· + 1) hdepth.symm
  · refine ⟨outer, hgrows, Or.inr ⟨d.deeper, ?_, congrArg (· + 1) hdepth, hchain⟩⟩
    exact List.mem_cons_of_mem _ (List.mem_map_of_mem hd)

theorem calledFrom_document {l : Location} {source : Text} {inner : List Nesting} (hl : l ∉ chain)
    (hs : w.readAt l = .ok source)
    (hinner : ∀ c ∈ inner, CalledFrom w (chain ++ [l]) inner c) :
    ∀ c ∈ (⟨1, chain ++ [l]⟩ :: inner.map Nesting.deeper : List Nesting),
      CalledFrom w chain (⟨1, chain ++ [l]⟩ :: inner.map Nesting.deeper) c := by
  refine List.forall_mem_cons.2 ⟨?_, ?_⟩
  · exact ⟨chain, ⟨l, hl, ⟨source, hs⟩, rfl⟩, Or.inl ⟨rfl, rfl⟩⟩
  · rw [List.forall_mem_map]
    intro c hc
    exact (hinner c hc).deeper

/-- Every expansion nested in a run is called so. -/
theorem Runs.calledFrom (h : Runs r extension w base within chain ns out calls) :
    ∀ c ∈ calls, CalledFrom w chain calls c := by
  induction h with
  | nil => exact fun _ hc => absurd hc List.not_mem_nil
  | dropped _ _ ih => exact ih
  | kept _ _ ih => exact ih
  | stylesheet _ _ ih => exact ih
  | cycle => exact fun _ hc => absurd hc List.not_mem_nil
  | unreadable _ _ _ _ ih => exact ih
  | failed _ hl hs _ ih => exact calledFrom_document hl hs ih
  | document _ hl hs _ _ ihinner ih =>
    intro c hc
    rcases List.mem_append.1 hc with hc | hc
    · exact (calledFrom_document hl hs ihinner c hc).mono (List.subset_append_left _ _)
    · exact (ih c hc).mono (List.subset_append_right _ _)

/-- So the chain of a nested expansion has, after the first chain, one readable file for each
expansion that it runs within, and no file twice. -/
theorem exists_chain_eq (h : ∀ c ∈ calls, CalledFrom w chain calls c) :
    ∀ c ∈ calls, ∃ qs, c.chain = chain ++ qs ∧ qs.length = c.depth ∧ qs.Nodup ∧
      ∀ q ∈ qs, q ∈ unread w chain := by
  intro c hc
  -- the expansion that makes the call has one less around it
  induction hk : c.depth generalizing c with
  | zero =>
    obtain ⟨_, _, ⟨hdepth, _⟩ | ⟨d, _, hdepth, _⟩⟩ := h c hc <;> omega
  | succ k ih =>
    obtain ⟨outer, ⟨l, hl, hs, hchain⟩, ⟨hdepth, rfl⟩ | ⟨d, hd, hdepth, rfl⟩⟩ := h c hc
    · refine ⟨[l], hchain, hdepth.symm.trans hk, List.nodup_singleton l, ?_⟩
      exact List.forall_mem_singleton.2 (mem_unread_iff.2 ⟨hl, hs⟩)
    · obtain ⟨qs, hqs, hlength, hnodup, hunread⟩ := ih d hd (by omega)
      rw [hqs, List.mem_append, not_or] at hl
      refine ⟨qs ++ [l], ?_, ?_, ?_, ?_⟩
      · rw [hchain, hqs, List.append_assoc]
      · rw [List.length_append, hlength, List.length_singleton]
      · exact hnodup.append (List.nodup_singleton l) (List.disjoint_singleton.2 hl.2)
      · rw [List.forall_mem_append]
        exact ⟨hunread, List.forall_mem_singleton.2 (mem_unread_iff.2 ⟨hl.1, hs⟩)⟩

theorem Runs.nodup (h : Runs r extension w base within chain ns out calls) (hchain : chain.Nodup) :
    ∀ c ∈ calls, c.chain.Nodup := by
  intro c hc
  obtain ⟨qs, hqs, _, hnodup, hunread⟩ := exists_chain_eq h.calledFrom c hc
  have hdisjoint : List.Disjoint chain qs := fun q hq hmem =>
    (mem_unread_iff.1 (hunread q hmem)).1 hq
  rw [hqs]
  exact hchain.append hnodup hdisjoint

theorem Runs.depth_le (h : Runs r extension w base within chain ns out calls) :
    ∀ c ∈ calls, c.depth ≤ (unread w chain).card := by
  intro c hc
  obtain ⟨qs, _, hlength, hnodup, hunread⟩ := exists_chain_eq h.calledFrom c hc
  calc
    c.depth = qs.length := hlength.symm
    _ = qs.toFinset.card := (List.toFinset_card_of_nodup hnodup).symm
    _ ≤ (unread w chain).card :=
      Finset.card_le_card fun q hq => hunread q (List.mem_toFinset.1 hq)

/-- The expansion of any nodes, with any chain, comes to an end. Each expansion nested in it runs with
the chain of the one that it is called from and a readable file that was not on that chain; so where
the first chain has no file twice, none has, and there are no more of them within one another than
there are readable files that the first chain leaves. -/
theorem expand_terminates (r : Registry) (extension : Text) (w : Workspace) (base within : Path)
    (chain : List Location) (ns : List Node) :
    (∃ calls, Runs r extension w base within chain ns
      (expand r extension w base within chain ns).value calls) ∧
    ∀ out calls, Runs r extension w base within chain ns out calls →
      out = (expand r extension w base within chain ns).value ∧
      (∀ c ∈ calls, ∃ outer,
        (∃ l, l ∉ outer ∧ (∃ t, w.readAt l = .ok t) ∧ c.chain = outer ++ [l]) ∧
        ((c.depth = 1 ∧ outer = chain) ∨ ∃ d ∈ calls, d.depth + 1 = c.depth ∧ d.chain = outer)) ∧
      (chain.Nodup → ∀ c ∈ calls, c.chain.Nodup) ∧
      ∀ c ∈ calls, c.depth ≤ (unread w chain).card := by
  constructor
  · exact exists_runs r extension w base within chain ns
  · intro out calls h
    exact ⟨h.result, h.calledFrom, h.nodup, h.depth_le⟩

/-- A document that imports the other one, which has a stylesheet. -/
def styledPair : Workspace where
  tree := {
    entries := [(["a.sphst".toList], .file (.text "import b".toList)),
      (["b.sphst".toList], .file (.text "import b.css".toList))]
    nodup := by decide
    named := by decide
    closed := by decide }
  home := []

/-- The expansions of the two, the second one within the first. -/
def styledCalls : List Nesting :=
  [⟨1, [["a.sphst".toList]]⟩, ⟨2, [["a.sphst".toList], ["b.sphst".toList]]⟩]

theorem runs_styledPair :
    Runs Registry.builtin "sphst".toList styledPair ⟨['/']⟩ .empty []
      [.scalar Kind.importKind "a".toList] (.ok [.scalar Kind.importKind "b.css".toList])
      styledCalls := by
  have hroleA : role "sphst".toList styledPair ⟨['/']⟩ (.scalar Kind.importKind "a".toList) =
      .document ⟨"a.sphst".toList⟩ ["a.sphst".toList] :=
    role_eq_document_iff.2 ⟨rfl, by decide, by decide⟩
  have hroleB : role "sphst".toList styledPair (Workspace.pathOf ["a.sphst".toList].dropLast)
      (.scalar Kind.importKind "b".toList) = .document ⟨"b.sphst".toList⟩ ["b.sphst".toList] :=
    role_eq_document_iff.2 ⟨rfl, by decide, by decide⟩
  have hcss : role "sphst".toList styledPair (Workspace.pathOf ["b.sphst".toList].dropLast)
      (.scalar Kind.importKind "b.css".toList) = .stylesheet "b.css".toList :=
    role_of_isStylesheet (by decide)
  have hnodesA : (nodesOf Registry.builtin "import b".toList).value =
      [.scalar Kind.importKind "b".toList] :=
    nodesOf_importLine Registry.builtin (by decide) (by decide) (by decide)
  have hnodesB : (nodesOf Registry.builtin "import b.css".toList).value =
      [.scalar Kind.importKind "b.css".toList] :=
    nodesOf_importLine Registry.builtin (by decide) (by decide) (by decide)
  have hreadA : styledPair.readAt ["a.sphst".toList] = .ok "import b".toList := by decide
  have hreadB : styledPair.readAt ["b.sphst".toList] = .ok "import b.css".toList := by decide
  have hsame : rebase (nested (nested .empty ⟨"a.sphst".toList⟩) ⟨"b.sphst".toList⟩)
      "b.css".toList = "b.css".toList := by decide
  have hrunB : Runs Registry.builtin "sphst".toList styledPair
      (Workspace.pathOf ["b.sphst".toList].dropLast)
      (nested (nested .empty ⟨"a.sphst".toList⟩) ⟨"b.sphst".toList⟩)
      [["a.sphst".toList], ["b.sphst".toList]]
      (nodesOf Registry.builtin "import b.css".toList).value
      (.ok [.scalar Kind.importKind "b.css".toList]) [] := by
    rw [hnodesB]
    nth_rewrite 2 [← hsame]
    exact .stylesheet hcss .nil
  have hrunA : Runs Registry.builtin "sphst".toList styledPair
      (Workspace.pathOf ["a.sphst".toList].dropLast) (nested .empty ⟨"a.sphst".toList⟩)
      [["a.sphst".toList]] (nodesOf Registry.builtin "import b".toList).value
      (.ok [.scalar Kind.importKind "b.css".toList])
      [⟨1, [["a.sphst".toList], ["b.sphst".toList]]⟩] := by
    rw [hnodesA]
    have hfresh : ["b.sphst".toList] ∉ [["a.sphst".toList]] := by decide
    exact Runs.document hroleB hfresh hreadB hrunB .nil
  exact Runs.document hroleA List.not_mem_nil hreadA hrunA .nil

theorem expand_terminates_pair :
    Runs Registry.builtin "sphst".toList styledPair ⟨['/']⟩ .empty []
      [.scalar Kind.importKind "a".toList] (.ok [.scalar Kind.importKind "b.css".toList])
      styledCalls ∧
    (expand Registry.builtin "sphst".toList styledPair ⟨['/']⟩ .empty []
      [.scalar Kind.importKind "a".toList]).value = .ok [.scalar Kind.importKind "b.css".toList] ∧
    (∀ c ∈ styledCalls, c.chain.Nodup) ∧
    (∀ c ∈ styledCalls, c.depth ≤ (unread styledPair []).card) ∧
    (unread styledPair []).card = 2 := by
  obtain ⟨_, hall⟩ := expand_terminates Registry.builtin "sphst".toList styledPair ⟨['/']⟩ .empty []
    [.scalar Kind.importKind "a".toList]
  obtain ⟨hresult, _, hnodup, hdepth⟩ := hall _ _ runs_styledPair
  exact ⟨runs_styledPair, hresult.symm, hnodup List.nodup_nil, hdepth, by decide⟩

end Folio.Import
