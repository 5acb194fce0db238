import Folio.Proofs.Page.Appending
import Folio.Proofs.Page.Summary

/-! A page is made of two parts that do not look at each other: the summary of the document, and
what its other nodes show, one after another. What a node shows depends on the node and on the
summary, so that two documents with the same structural nodes and the same other nodes have one page,
wherever the structural nodes stand among the others. -/
namespace Folio

open Script

namespace Renderer

variable (r : Renderer) (s : Summary)

/-- What a node shows by itself. -/
def fragments (n : Node) : Buffers := (r.emit s .empty n).value

/-- Fragments one after another. -/
def joined (fs : List Buffers) : Buffers := ⟨fs.flatMap Buffers.head, fs.flatMap Buffers.body⟩

/-- The page of a summary and of the fragments of the nodes that show something. The links of the
summary come first in the head. -/
def assemble (fs : List Buffers) : Rendered :=
  let b := (Buffers.mk s.links []).append (joined fs)
  ⟨if s.hasFrame then r.frame s b else bodyText b, s.pageTitle?, s.frontmatter⟩

theorem joined_cons (f : Buffers) (fs : List Buffers) : joined (f :: fs) = f.append (joined fs) := rfl

theorem fragments_structural {n : Node} (h : n.isStructural) : r.fragments s n = .empty := by
  have hsilent : n.kind ∈ silentKinds := of_decide_eq_true h
  rw [fragments, emit, if_pos hsilent]
  rfl

/-- Structural nodes show nothing. -/
theorem joined_shown (ns : List Node) :
    joined (ns.map (r.fragments s)) = joined ((shown ns).map (r.fragments s)) := by
  induction ns with
  | nil => rfl
  | cons n ns ih =>
    by_cases h : n.isStructural
    · have hshown : shown (n :: ns) = shown ns := List.filter_cons_of_neg (by simp [h])
      rw [hshown, ← ih, List.map_cons, joined_cons, fragments_structural r s h]
      rfl
    · have hshown : shown (n :: ns) = n :: shown ns := List.filter_cons_of_pos (by simp [h])
      rw [hshown, List.map_cons, List.map_cons, joined_cons, joined_cons, ih]

variable {r}

/-- A node shows the same whatever stands before it. -/
theorem emit_append (hhost : r.host.Appends) (b : Buffers) (n : Node) :
    (r.emit s b n).value = b.append (r.fragments s n) := by
  have hpush (t : Text) : b.pushBody t = b.append (Buffers.empty.pushBody t) := by
    rw [Buffers.pushBody_eq]
    rfl
  unfold fragments emit
  split
  · exact b.append_empty.symm
  · split
    · -- a script that stops at a fault leaves what it has appended
      have hrun := hhost (r.view s) (n.text?.getD []) b .empty
      rw [Buffers.append_empty] at hrun
      unfold Logged.bind
      dsimp only
      rw [hrun]
      unfold Outcome.after
      dsimp only
      cases (r.host.run (r.view s) (n.text?.getD []) .empty).value.fault <;> rfl
    · split
      · exact hpush _
      · split
        · exact hpush _
        · exact b.append_empty.symm

theorem emitAll_append (hhost : r.host.Appends) (b : Buffers) (ns : List Node) :
    (r.emitAll s b ns).value = b.append (joined (ns.map (r.fragments s))) := by
  induction ns generalizing b with
  | nil => exact b.append_empty.symm
  | cons n ns ih =>
    calc (r.emitAll s b (n :: ns)).value
        = (r.emitAll s (r.emit s b n).value ns).value := rfl
      _ = (b.append (r.fragments s n)).append (joined (ns.map (r.fragments s))) := by
        rw [emit_append s hhost, ih]
      _ = b.append ((r.fragments s n).append (joined (ns.map (r.fragments s)))) :=
        Buffers.append_assoc _ _ _
      _ = b.append (joined ((n :: ns).map (r.fragments s))) := rfl

/-- The page is assembled from the summary and the fragments. -/
theorem render_eq (hhost : r.host.Appends) {ns : List Node} (hs : s.Describes ns) :
    (r.render ns).value = r.assemble s ((shown ns).map (r.fragments s)) := by
  obtain rfl : s = (Summary.ofNodes ns).value := hs.unique (Summary.describes_ofNodes ns)
  have hbuffers := emitAll_append (Summary.ofNodes ns).value hhost
    ⟨(Summary.ofNodes ns).value.links, []⟩ ns
  rw [joined_shown] at hbuffers
  unfold render Logged.bind
  dsimp only
  rw [hbuffers]
  rfl

theorem appends_of_host (h : r.host = caller ∨ r.host = idle) : r.host.Appends := by
  rcases h with h | h
  · exact h ▸ appends_caller
  · exact h ▸ appends_idle

/-- Rendering keeps what a document says about its page apart from what it shows. The page is put
together from the one summary that describes the nodes, and from what each of the other nodes shows
with that summary; so two documents with the same structural nodes and the same other nodes have the
same page. -/
theorem render_separates (hhost : r.host = caller ∨ r.host = idle) (ns : List Node) :
    (∃ s : Summary, (∀ t : Summary, t.Describes ns ↔ t = s) ∧
      (r.render ns).value = r.assemble s ((shown ns).map (r.fragments s))) ∧
    ∀ ms, structural ms = structural ns → shown ms = shown ns →
      (r.render ms).value = (r.render ns).value := by
  have happends := appends_of_host hhost
  have hdescribes := Summary.describes_ofNodes ns
  have hpage := render_eq _ happends hdescribes
  constructor
  · refine ⟨(Summary.ofNodes ns).value, fun t => ⟨fun ht => ht.unique hdescribes, ?_⟩, hpage⟩
    rintro rfl
    exact hdescribes
  · intro ms hstructural hshown
    -- one summary describes both documents
    have hms := hdescribes.interleave hstructural.symm hshown.symm
    rw [render_eq _ happends hms, hpage, hshown]

/-- A renderer that runs scripts, with no files to look at. -/
def lively : Renderer :=
  ⟨Registry.builtin, caller, .standard, ⟨.empty, []⟩, ⟨['/']⟩, "sphst".toList⟩

/-- A script that stops at its second line, and then all that it reads. -/
def scriptFirst : List Node :=
  [.scalar Kind.script "var(\"x\")\nstop()\nvar(\"x\")".toList, .scalar Kind.text "A".toList,
    .scalar Kind.frontmatter "\x7b\"title\": \"T\"\x7d".toList, Step.variableNode "x 0".toList,
    Step.variableNode "x 1".toList]

/-- The same with the script right before the text. -/
def scriptLast : List Node :=
  [.scalar Kind.frontmatter "\x7b\"title\": \"T\"\x7d".toList, Step.variableNode "x 0".toList,
    Step.variableNode "x 1".toList, .scalar Kind.script "var(\"x\")\nstop()\nvar(\"x\")".toList,
    .scalar Kind.text "A".toList]

theorem render_separates_late :
    (lively.host = caller ∨ lively.host = idle) ∧
    structural scriptFirst = structural scriptLast ∧ shown scriptFirst = shown scriptLast ∧
    (lively.render scriptFirst).value.html = "1\n<p>A</p>".toList ∧
    (∃ s : Summary, (∀ t : Summary, t.Describes scriptLast ↔ t = s) ∧
      (lively.render scriptLast).value =
        lively.assemble s ((shown scriptLast).map (lively.fragments s))) ∧
    (lively.render scriptFirst).value = (lively.render scriptLast).value := by
  have hhost : lively.host = caller ∨ lively.host = idle := Or.inl rfl
  have hstructural : structural scriptFirst = structural scriptLast := by decide
  have hshown : shown scriptFirst = shown scriptLast := by decide
  obtain ⟨hpage, hsame⟩ := render_separates hhost scriptLast
  exact ⟨hhost, hstructural, hshown, by decide +kernel, hpage, hsame _ hstructural hshown⟩

end Renderer
end Folio
