import Folio.Proofs.Document.Advancing
import Folio.Proofs.Document.Body
import Folio.Proofs.Document.Lossless
import Folio.Proofs.Document.MetadataBlock
import Folio.Proofs.Import.Normal

namespace Folio

open Text

/-- A text within one line, without blanks around it. -/
structure Text.Inline (t : Text) : Prop where
  unbroken : '\n' ∉ t
  trimmed : Trimmed t

/-- Tokens with the argument of a keyword, or running text, for their value. -/
def Kind.inline : List Text :=
  [importKind, variableKind, date, image, text] ++
    (List.range 6).map fun n => Directive.headingKeyword (n + 1)

/-- What a token has for its value. -/
inductive Token.WellFormed : Token → Prop
  | flag {k : Text} : k ∈ Kind.flags → WellFormed ⟨k, "true".toList⟩
  | inline {k v : Text} : k ∈ Kind.inline → v ≠ [] → Inline v → WellFormed ⟨k, v⟩
  | alt {v : Text} : Inline v → WellFormed ⟨Kind.alt, v⟩
  | block {k v : Text} : k ∈ Kind.blocks → Lines.IsBody (splitOn '\n' v) → WellFormed ⟨k, v⟩
  | metadata {v : Text} : v.head? = some '\x7b' → v.getLast? = some '\x7d' →
      (∃ ms, Json.parse v = .ok (.object ms)) → WellFormed ⟨Kind.frontmatter, v⟩

/-- Only an alternative text can be empty. -/
theorem Token.WellFormed.value_ne_nil {t : Token} (h : t.WellFormed) (hk : t.kind ≠ Kind.alt) :
    t.value ≠ [] := by
  cases h with
  | flag _ => exact List.cons_ne_nil _ _
  | inline _ hne _ => exact hne
  | alt _ => exact absurd rfl hk
  | block _ hbody =>
    rintro rfl
    obtain ⟨_, hl, hne⟩ := hbody.closed
    exact hne (Option.some.inj hl).symm
  | metadata hhead _ _ =>
    rintro rfl
    cases hhead

namespace Lines

theorem inline_argument? {keyword line v : Text} (hline : '\n' ∉ line)
    (h : argument? keyword line = some v) : Inline v := by
  obtain ⟨rest, rfl, rfl⟩ := argument?_eq_some_iff.1 h
  exact ⟨fun hm => hline (by simp [mem_of_mem_trim hm]), trimmed_trim rest⟩

theorem inline_altLine? {next alt : Text} (hnext : '\n' ∉ next)
    (h : Directive.altLine? next = some alt) : Inline alt := by
  obtain ⟨content, hindent, halt⟩ := Option.bind_eq_some_iff.1 h
  obtain ⟨indent, _, rfl⟩ := stripIndent?_eq_some_iff.1 hindent
  exact inline_argument? (fun hm => hnext (List.mem_append_right indent hm)) halt

end Lines

section Stretches

open Segment Lines

variable {r : Registry} {lines : List Text} {i : Nat}

theorem Segment.newline_not_mem_lineAt (hlines : ∀ l ∈ lines, '\n' ∉ l) (i : Nat) :
    '\n' ∉ lineAt lines i := by
  intro hm
  have hm := mem_of_mem_trim hm
  cases hl : lines[i]? with
  | none =>
    rw [hl] at hm
    cases hm
  | some l =>
    rw [hl] at hm
    exact hlines l (List.mem_of_getElem? hl) hm

theorem Segment.ClaimForm.wellFormed (hr : r.Standard) (hlines : ∀ l ∈ lines, '\n' ∉ l) {c : Claim}
    (h : ClaimForm r lines i c) : ∀ t ∈ c.tokens, t.WellFormed := by
  have hline := newline_not_mem_lineAt hlines i
  have hargument {k keyword v : Text} (hk : k ∈ Kind.inline)
      (hv : argument? keyword (lineAt lines i) = some v) : Token.WellFormed ⟨k, v⟩ :=
    .inline hk (argument?_trimmed (trimmed_trim _) hv).1 (inline_argument? hline hv)
  cases h with
  | flag hk => exact List.forall_mem_singleton.2 (.flag hk)
  | importing hv => exact List.forall_mem_singleton.2 (hargument (by decide) hv)
  | definition hv => exact List.forall_mem_singleton.2 (hargument (by decide) hv)
  | metadata hcapture =>
    obtain ⟨_, _, _, _, hobject, _⟩ := Frontmatter.capture?_eq_some_iff.1 hcapture
    have hhead := hobject.head []
    rw [List.append_nil] at hhead
    exact List.forall_mem_singleton.2
      (.metadata hhead hobject.getLast (Frontmatter.exists_parse hobject))
  | block hk _ hbody =>
    have hrows : ∀ l ∈ lines.drop (i + 1), '\n' ∉ l := fun l hl => hlines l (List.mem_of_mem_drop hl)
    have hread := isBody_blockAfter hrows hbody
    refine List.forall_mem_singleton.2 (.block (Kind.mem_blocks hk) ?_)
    rw [joinWithBreaks, splitOn_joinWith hbody fun l hl => (hread.lines l hl).1]
    exact hread
  | directive hk hne hv =>
    -- of the keywords of directives, only that of markdown opens a block
    have hinline : ∀ k ∈ Registry.builtin.keywords, k ≠ Kind.markdown → k ∈ Kind.inline := by decide
    exact List.forall_mem_singleton.2 (hargument (hinline _ (hr.keyword_mem hk) hne) hv)
  | captioned _ hv hnext halt =>
    exact List.forall_mem_cons.2 ⟨hargument (by decide) hv, List.forall_mem_singleton.2
      (.alt (inline_altLine? (hlines _ (List.mem_of_getElem? hnext)) halt))⟩

/-- Lines of running text are joined to a text within one line. -/
theorem IsRunning.inline {n : Nat} (hlines : ∀ l ∈ lines, '\n' ∉ l) (hn : 0 < n)
    (hle : i + n ≤ lines.length) (h : ∀ j, i ≤ j → j < i + n → IsRunning r lines j) :
    joinWith [' '] (((lines.drop i).take n).map trim) ≠ [] ∧
      Inline (joinWith [' '] (((lines.drop i).take n).map trim)) := by
  have hpart : ∀ p ∈ ((lines.drop i).take n).map trim, '\n' ∉ p ∧ p ≠ [] ∧ Trimmed p := by
    intro p hp
    obtain ⟨l, hl, rfl⟩ := List.mem_map.1 hp
    refine ⟨fun hm => hlines l (List.mem_of_mem_drop (List.mem_of_mem_take hl)) (mem_of_mem_trim hm),
      ?_, trimmed_trim l⟩
    -- a running line is not blank, at its own index
    obtain ⟨j, hj, hget⟩ := List.getElem_of_mem hl
    rw [List.getElem_take, List.getElem_drop] at hget
    rw [List.length_take, List.length_drop] at hj
    have hrunning := (h (i + j) (by omega) (by omega)).1
    rwa [BlankAt, lineAt_eq (by omega), hget] at hrunning
  have hne : ((lines.drop i).take n).map trim ≠ [] := by
    rw [← List.length_pos_iff, List.length_map, List.length_take, List.length_drop]
    omega
  obtain ⟨hjoin, htrimmed⟩ := trimmed_joinWith [' '] hne fun p hp => (hpart p hp).2
  refine ⟨hjoin, fun hm => ?_, htrimmed⟩
  rcases mem_joinWith hm with hspace | ⟨p, hp, hm⟩
  · exact absurd hspace (by decide)
  · exact (hpart p hp).1 hm

theorem Stretch.Valid.wellFormed (hr : r.Standard) (hlines : ∀ l ∈ lines, '\n' ∉ l) {s : Stretch}
    (h : s.Valid r lines) : ∀ t ∈ s.tokens, t.WellFormed := by
  cases h with
  | blank _ _ => exact List.forall_mem_nil _
  | claimed _ _ hc => exact (claimForm_of_claimAt? hr (claimAt?_eq_some_iff.2 hc)).wellFormed hr hlines
  | run hn hle hrun _ =>
    obtain ⟨hne, hinline⟩ := IsRunning.inline hlines hn hle hrun
    exact List.forall_mem_singleton.2 (.inline (by decide) hne hinline)

theorem wellFormed_of_mem (hr : r.Standard) {source : Text} {t : Token}
    (ht : t ∈ (tokenize r source).value) : t.WellFormed := by
  obtain ⟨ss, htiles, htokens⟩ := exists_tiles_of_standard hr source
  rw [htokens] at ht
  obtain ⟨s, hs, ht⟩ := List.mem_flatMap.1 ht
  exact (htiles.valid s hs).wellFormed hr (fun _ hl => newline_not_mem_of_mem_lines hl) t ht

end Stretches

theorem exists_text_of_mem {r : Registry} (hr : r.Standard) {source : Text} {n : Node}
    (hn : n ∈ (nodesOf r source).value) (hk : n.kind = Kind.importKind ∨ n.kind = Kind.title) :
    ∃ v ∈ n.text?, v ≠ [] := by
  have hfree : ∀ k, k = Kind.importKind ∨ k = Kind.title →
      k ≠ Kind.image ∧ k ≠ Kind.variableKind ∧ k ≠ Kind.alt := by
    rintro k (rfl | rfl) <;> decide
  obtain ⟨himage, hvariable, halt⟩ := hfree _ hk
  obtain ⟨v, hv, ht⟩ := exists_scalar_of_mem hr hn himage hvariable
  refine ⟨v, ?_, (wellFormed_of_mem hr ht).value_ne_nil halt⟩
  rw [hv]
  rfl

section

variable {r : Registry} {extension : Text} {w : Workspace} {base : Path} {chain : List Location}
  {source : Text} {out : List Node}

/-- Titles of imported documents come from lines of these documents. -/
theorem Import.exists_text_of_resolve (hr : r.Standard)
    (h : (resolve r extension w base chain (nodesOf r source).value).value = .ok out) :
    ∀ n ∈ out, n.kind = Kind.title → ∃ v ∈ n.text?, v ≠ [] := by
  have hdocument (source : Text) : ∀ n ∈ (nodesOf r source).value,
      n.kind = Kind.title → ∃ v ∈ n.text?, v ≠ [] :=
    fun n hn hk => exists_text_of_mem hr hn (Or.inr hk)
  exact forall_expand (fun _ source _ => hdocument source) (fun _ _ hn _ => hn)
    (fun _ _ _ _ _ hk => absurd hk (by decide : Kind.importKind ≠ Kind.title)) (hdocument source) h

end

theorem Summary.title_ne_nil {ns : List Node}
    (h : ∀ n ∈ ns, n.kind = Kind.title → ∃ v ∈ n.text?, v ≠ []) :
    (ofNodes ns).value.title ≠ some [] := by
  rw [(describes_ofNodes ns).title]
  intro htitle
  obtain ⟨n, hn, htext⟩ := List.exists_of_findSome?_eq_some htitle
  unfold Node.title? at htext
  split at htext
  · rename_i hk
    obtain ⟨v, hv, hne⟩ := h n hn hk
    exact hne (Option.some.inj (hv.symm.trans htext))
  · cases htext

/-- All tokens of a document are well-formed. So the imports that the resolver sees have a reference,
and the titles that the renderer sees have a text. -/
theorem tokenize_wellFormed (source : Text) :
    (∀ t ∈ (tokenize Registry.builtin source).value, t.WellFormed) ∧
    (∀ n ∈ (nodesOf Registry.builtin source).value, n.kind = Kind.importKind →
      Import.reference n ≠ []) ∧
    ∀ (extension : Text) (w : Workspace) (base : Path) (chain : List Location) (out : List Node),
      (Import.resolve Registry.builtin extension w base chain
        (nodesOf Registry.builtin source).value).value = .ok out →
      (∀ n ∈ out, n.kind = Kind.title → ∃ v ∈ n.text?, v ≠ []) ∧
        (Summary.ofNodes out).value.title ≠ some [] := by
  have hr := Registry.builtin_standard
  refine ⟨fun t ht => wellFormed_of_mem hr ht, fun n hn hk => ?_, fun _ _ _ _ out h => ?_⟩
  · obtain ⟨v, hv, hne⟩ := exists_text_of_mem hr hn (Or.inl hk)
    rw [Import.reference, show n.text? = some v from hv]
    exact hne
  · have htitles := Import.exists_text_of_resolve hr h
    exact ⟨htitles, Summary.title_ne_nil htitles⟩

/-- The nodes of a title and a stylesheet, from lines with more blanks. -/
def titledNodes : List Node := [.scalar Kind.title ['A'], .scalar Kind.importKind "x.css".toList]

theorem tokenize_wellFormed_titled :
    (∀ t ∈ (tokenize Registry.builtin "title  A \r\nimport x.css".toList).value, t.WellFormed) ∧
    (nodesOf Registry.builtin "title  A \r\nimport x.css".toList).value = titledNodes ∧
    Import.reference (.scalar Kind.importKind "x.css".toList) ≠ [] ∧
    (Import.resolve Registry.builtin "sphst".toList ⟨.empty, []⟩ .empty [] titledNodes).value =
      .ok titledNodes ∧
    (Summary.ofNodes titledNodes).value.title ≠ some [] := by
  have hnodes : (nodesOf Registry.builtin "title  A \r\nimport x.css".toList).value = titledNodes := by
    decide +kernel
  have hresolve : (Import.resolve Registry.builtin "sphst".toList ⟨.empty, []⟩ .empty []
      titledNodes).value = .ok titledNodes := by
    refine Import.expand_resolved (List.forall_mem_cons.2 ⟨⟨by decide, fun hk => ?_⟩,
      List.forall_mem_singleton.2 (Import.isResolved_stylesheet (by decide))⟩)
    exact absurd hk (by decide)
  obtain ⟨htokens, himports, hresolved⟩ := tokenize_wellFormed "title  A \r\nimport x.css".toList
  rw [hnodes] at himports hresolved
  exact ⟨htokens, hnodes, himports _ (by simp [titledNodes]) rfl, hresolve,
    (hresolved _ _ _ _ _ hresolve).2⟩

end Folio
