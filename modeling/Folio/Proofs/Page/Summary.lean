import Folio.Document.Page
import Folio.Proofs.Json.Members

namespace Folio

namespace Node

/-- The link to the stylesheet that a node imports. -/
def link? (n : Node) : Option Text :=
  if n.kind = Kind.importKind then (n.text?.filter Import.isStylesheet).map stylesheetLink else none

def title? (n : Node) : Option Text := if n.kind = Kind.title then n.text? else none

/-- The members of a node of metadata; text that is no object has none. -/
def metadata? (n : Node) : Option Frontmatter :=
  if n.kind = Kind.frontmatter then
    some ((Frontmatter.parse (n.text?.getD [])).toOption.getD [])
  else none

/-- The name and the value of a variable. -/
def definition? (n : Node) : Option (Text × Text) :=
  if n.kind = Kind.variableKind then
    (n.childText? Kind.variableName).map fun name =>
      (name, (n.childText? Kind.variableValue).getD [])
  else none

end Node

namespace Frontmatter

open Json

theorem sorted_parse {t : Text} {f : Frontmatter} (h : parse t = .ok f) : Sorted f := by
  unfold parse at h
  split at h
  · cases h
  · rw [← Except.ok.inj h]
    exact sorted_sortMembers _

end Frontmatter

/-- Of several objects, the last one that has a key decides. -/
theorem Frontmatter.lookup_unionAll {f : Frontmatter} {gs : List Frontmatter}
    (hgs : ∀ g ∈ gs, Json.Sorted g) (key : Text) :
    (gs.foldl union f).lookup key = (gs.reverse.findSome? fun g => g.lookup key).or (f.lookup key) := by
  induction gs generalizing f with
  | nil => rfl
  | cons g gs ih =>
    obtain ⟨hg, hrest⟩ := List.forall_mem_cons.1 hgs
    rw [List.foldl_cons, ih hrest, union, Json.lookup_insertAll, hg.lookup_reverse, List.reverse_cons,
      List.findSome?_append, Option.or_assoc]
    cases hl : g.lookup key <;> simp [hl]

theorem Frontmatter.sorted_unionAll {f : Frontmatter} (hf : Json.Sorted f) (gs : List Frontmatter) :
    Json.Sorted (gs.foldl union f) := by
  induction gs generalizing f with
  | nil => exact hf
  | cons g gs ih => exact ih (hf.insertAll g)

theorem Node.sorted_metadata {n : Node} {f : Frontmatter} (h : n.metadata? = some f) :
    Json.Sorted f := by
  unfold metadata? at h
  split at h
  · rw [← Option.some.inj h]
    cases hp : Frontmatter.parse (n.text?.getD []) with
    | error e => exact Json.sorted_nil
    | ok g => exact Frontmatter.sorted_parse hp
  · cases h

namespace Summary

/-- What one node adds. -/
theorem note_value (s : Summary) (n : Node) : (s.note n).value =
    { hasFrame := s.hasFrame || n.kind = Kind.html5
      hasMetatags := s.hasMetatags || n.kind = Kind.metatags
      title := s.title.or n.title?
      links := s.links ++ n.link?.toList
      frontmatter := n.metadata?.elim s.frontmatter s.frontmatter.union
      bindings := n.definition?.elim s.bindings fun d => Json.insertMember d.1 d.2 s.bindings } := by
  unfold note Node.link? Node.title? Node.metadata? Node.definition?
  -- a node has one kind, and says nothing of what is told by the others
  by_cases h1 : n.kind = Kind.html5
  · simp +decide [h1, Logged.pure]
  by_cases h2 : n.kind = Kind.metatags
  · simp +decide [h2, Logged.pure]
  by_cases h3 : n.kind = Kind.title
  · simp +decide [h3, Logged.pure]
  by_cases h4 : n.kind = Kind.importKind
  · cases n.text? with
    | none => simp +decide [h4, Logged.pure]
    | some href =>
      rw [Option.filter_some]
      by_cases hs : Import.isStylesheet href <;> simp +decide [h4, hs, Logged.pure]
  by_cases h5 : n.kind = Kind.frontmatter
  · cases Frontmatter.parse (n.text?.getD []) with
    | error e => simp +decide [h5, Logged.warn, Except.toOption, Frontmatter.union]
    | ok f => simp +decide [h5, Logged.pure, Except.toOption]
  by_cases h6 : n.kind = Kind.variableKind
  · cases n.childText? Kind.variableName <;> simp +decide [h6, Logged.pure]
  · simp +decide [h1, h2, h3, h4, h5, h6, Logged.pure]

/-- What all nodes add. -/
theorem noteAll_value (s : Summary) (ns : List Node) : (s.noteAll ns).value =
    { hasFrame := s.hasFrame || ns.any fun n => n.kind = Kind.html5
      hasMetatags := s.hasMetatags || ns.any fun n => n.kind = Kind.metatags
      title := s.title.or (ns.findSome? Node.title?)
      links := s.links ++ ns.filterMap Node.link?
      frontmatter := (ns.filterMap Node.metadata?).foldl Frontmatter.union s.frontmatter
      bindings := (ns.filterMap Node.definition?).foldl
        (fun f d => Json.insertMember d.1 d.2 f) s.bindings } := by
  induction ns generalizing s with
  | nil => simp [noteAll, Logged.pure]
  | cons n ns ih =>
    have hstep : (s.noteAll (n :: ns)).value = ((s.note n).value.noteAll ns).value := rfl
    rw [hstep, ih, note_value]
    -- the fields in their order
    rw [Summary.mk.injEq]
    refine ⟨?_, ?_, ?_, ?_, ?_, ?_⟩
    · rw [List.any_cons, Bool.or_assoc]
    · rw [List.any_cons, Bool.or_assoc]
    · rw [Option.or_assoc, List.findSome?_cons]
      cases n.title? <;> rfl
    · rw [List.append_assoc, List.filterMap_cons]
      cases n.link? <;> rfl
    · rw [List.filterMap_cons]
      cases n.metadata? <;> rfl
    · rw [List.filterMap_cons]
      cases n.definition? <;> rfl

/-- What the nodes of a document say about its page as a whole. The first title that is a text counts,
every stylesheet has its link, and of metadata and variables what is said last holds. -/
structure Describes (s : Summary) (ns : List Node) : Prop where
  frame : s.hasFrame ↔ ∃ n ∈ ns, n.kind = Kind.html5
  metatags : s.hasMetatags ↔ ∃ n ∈ ns, n.kind = Kind.metatags
  title : s.title = ns.findSome? Node.title?
  links : s.links = ns.filterMap Node.link?
  metadata : ∀ key, s.frontmatter.lookup key =
    (ns.filterMap Node.metadata?).reverse.findSome? fun f => f.lookup key
  metadata_sorted : Json.Sorted s.frontmatter
  bindings : ∀ name, s.bindings.lookup name = (ns.filterMap Node.definition?).reverse.lookup name
  bindings_sorted : Json.Sorted s.bindings

/-- No two summaries describe the same nodes. -/
theorem Describes.unique {s t : Summary} {ns : List Node} (hs : s.Describes ns)
    (ht : t.Describes ns) : s = t := by
  rw [Summary.mk.injEq]
  refine ⟨?_, ?_, hs.title.trans ht.title.symm, hs.links.trans ht.links.symm, ?_, ?_⟩
  · rw [Bool.eq_iff_iff, hs.frame, ht.frame]
  · rw [Bool.eq_iff_iff, hs.metatags, ht.metatags]
  · exact hs.metadata_sorted.ext ht.metadata_sorted fun key => by rw [hs.metadata, ht.metadata]
  · exact hs.bindings_sorted.ext ht.bindings_sorted fun name => by rw [hs.bindings, ht.bindings]

theorem describes_ofNodes (ns : List Node) : (ofNodes ns).value.Describes ns := by
  have hsorted : ∀ f ∈ ns.filterMap Node.metadata?, Json.Sorted f := by
    intro f hf
    obtain ⟨n, _, hn⟩ := List.mem_filterMap.1 hf
    exact Node.sorted_metadata hn
  have hvalue : (ofNodes ns).value = _ := noteAll_value empty ns
  rw [hvalue]
  refine ⟨by simp [empty], by simp [empty], rfl, rfl, fun key => ?_, ?_, fun name => ?_, ?_⟩
  · exact (Frontmatter.lookup_unionAll hsorted key).trans Option.or_none
  · exact Frontmatter.sorted_unionAll Json.sorted_nil _
  · exact (Json.lookup_insertAll _ _ name).trans Option.or_none
  · exact Json.sorted_nil.insertAll _

end Summary

/-- A node that says something about the page and shows nothing where it stands. -/
def Node.isStructural (n : Node) : Bool := n.kind ∈ Renderer.silentKinds

/-- The structural nodes, in order. -/
def structural (ns : List Node) : List Node := ns.filter Node.isStructural

/-- The other nodes, in order. -/
def shown (ns : List Node) : List Node := ns.filter fun n => !n.isStructural

theorem Node.not_isStructural_title {n : Node} (h : n.kind = Kind.title) : ¬ n.isStructural := by
  unfold isStructural
  rw [h]
  decide

namespace Summary

/-- Nodes that a reader takes nothing from can be left out. -/
theorem filterMap_filter_eq {p : Node → Bool} {f : Node → Option α} (hf : ∀ n, ¬ p n → f n = none)
    (ns : List Node) : (ns.filter p).filterMap f = ns.filterMap f := by
  have hboth : (fun n => if p n then f n else none) = f := by
    funext n
    split
    · rfl
    · rename_i h
      exact (hf n h).symm
  rw [List.filterMap_filter, hboth]

theorem exists_structural {k : Text} (hk : k ∈ Renderer.silentKinds) (ns : List Node) :
    (∃ n ∈ structural ns, n.kind = k) ↔ ∃ n ∈ ns, n.kind = k := by
  constructor
  · rintro ⟨n, hn, h⟩
    exact ⟨n, (List.mem_filter.1 hn).1, h⟩
  · rintro ⟨n, hn, rfl⟩
    exact ⟨n, List.mem_filter.2 ⟨hn, decide_eq_true hk⟩, rfl⟩

/-- The structural nodes and the other ones say the same however they are interleaved. -/
theorem Describes.interleave {s : Summary} {ms ns : List Node} (h : s.Describes ms)
    (hstructural : structural ms = structural ns) (hshown : shown ms = shown ns) :
    s.Describes ns := by
  have hflag {k : Text} (hk : k ∈ Renderer.silentKinds) :
      (∃ n ∈ ms, n.kind = k) ↔ ∃ n ∈ ns, n.kind = k := by
    rw [← exists_structural hk ms, ← exists_structural hk ns, hstructural]
  -- a reader of one structural kind
  have hsame {β : Type} {f : Node → Option β} {k : Text} (hk : k ∈ Renderer.silentKinds)
      (hf : ∀ n, n.kind ≠ k → f n = none) : ms.filterMap f = ns.filterMap f := by
    have hnone (n : Node) (hn : ¬ n.isStructural) : f n = none :=
      hf n fun hkind => hn (decide_eq_true (hkind ▸ hk))
    have hms : (structural ms).filterMap f = ms.filterMap f := filterMap_filter_eq hnone ms
    have hns : (structural ns).filterMap f = ns.filterMap f := filterMap_filter_eq hnone ns
    rw [← hms, ← hns, hstructural]
  have htitle : ms.findSome? Node.title? = ns.findSome? Node.title? := by
    have hnone (n : Node) (hn : ¬ (!n.isStructural) = true) : n.title? = none :=
      if_neg fun hkind => Node.not_isStructural_title hkind (by simpa using hn)
    have hms : (shown ms).filterMap Node.title? = ms.filterMap Node.title? :=
      filterMap_filter_eq hnone ms
    have hns : (shown ns).filterMap Node.title? = ns.filterMap Node.title? :=
      filterMap_filter_eq hnone ns
    rw [← List.head?_filterMap, ← List.head?_filterMap, ← hms, ← hns, hshown]
  have hlinks : ms.filterMap Node.link? = ns.filterMap Node.link? :=
    hsame (k := Kind.importKind) (by decide) fun n hn => if_neg hn
  have hmetadata : ms.filterMap Node.metadata? = ns.filterMap Node.metadata? :=
    hsame (k := Kind.frontmatter) (by decide) fun n hn => if_neg hn
  have hdefinitions : ms.filterMap Node.definition? = ns.filterMap Node.definition? :=
    hsame (k := Kind.variableKind) (by decide) fun n hn => if_neg hn
  exact {
    frame := h.frame.trans (hflag (by decide))
    metatags := h.metatags.trans (hflag (by decide))
    title := h.title.trans htitle
    links := h.links.trans hlinks
    metadata := hmetadata ▸ h.metadata
    metadata_sorted := h.metadata_sorted
    bindings := hdefinitions ▸ h.bindings
    bindings_sorted := h.bindings_sorted }

end Summary
end Folio
