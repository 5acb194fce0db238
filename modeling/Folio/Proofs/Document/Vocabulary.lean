import Mathlib.Data.List.Nodup
import Folio.Proofs.Document.Compilation
import Folio.Proofs.Text.Affix

/-! Registries with the same keywords. For a line at most one keyword can answer, the word with which
the line starts; for a token or a node it is the one that this has for a kind. So it does not matter in
which order directives are asked, or how often each of them is there. -/
namespace Folio

namespace Directive

/-- A directive that the documentation describes: one that comes with the library, or its example. -/
inductive Documented : Directive → Prop
  | standard {d : Directive} : d.Standard → Documented d
  | quote : Documented quote

/-- All directives that are documented, once each. -/
def vocabulary : List Directive := Registry.builtin ++ [quote]

/-- Levels that count as the same one give the same heading. -/
theorem heading_congr {m n : Nat} (h : clampLevel m = clampLevel n) : heading m = heading n := by
  have hkeyword : headingKeyword m = headingKeyword n := by
    unfold headingKeyword
    rw [h]
  have hmarkup : headingMarkup m = headingMarkup n := by
    funext t
    unfold headingMarkup
    rw [h]
  unfold heading
  rw [hkeyword, hmarkup]

theorem Standard.mem_builtin {d : Directive} (hd : d.Standard) : d ∈ Registry.builtin := by
  cases hd with
  | heading level =>
    -- the levels beyond one to six are counted as the nearest of them
    have hlevel : clampLevel level - 1 + 1 = clampLevel level := by
      unfold clampLevel
      omega
    have hsame : clampLevel (clampLevel level - 1 + 1) = clampLevel level := by
      rw [hlevel]
      unfold clampLevel
      omega
    apply List.mem_append_left
    refine List.mem_map.2 ⟨clampLevel level - 1, ?_, heading_congr hsame⟩
    rw [List.mem_range]
    unfold clampLevel
    omega
  | date => exact List.mem_append_right _ (by simp)
  | image => exact List.mem_append_right _ (by simp)
  | markdown => exact List.mem_append_right _ (by simp)

theorem Documented.mem_vocabulary {d : Directive} (hd : d.Documented) : d ∈ vocabulary := by
  cases hd with
  | standard h => exact List.mem_append_left _ h.mem_builtin
  | quote => exact List.mem_append_right _ (by simp)

theorem nodup_keywords : (vocabulary.map keyword).Nodup := by decide

theorem space_not_mem_keyword : ∀ d ∈ vocabulary, ' ' ∉ d.keyword := by
  have hall : ∀ k ∈ vocabulary.map keyword, ' ' ∉ k := by decide
  intro d hd
  exact hall _ (List.mem_map_of_mem hd)

/-- A keyword says which directive it is. -/
theorem Documented.eq_of_keyword {d e : Directive} (hd : d.Documented) (he : e.Documented)
    (h : d.keyword = e.keyword) : d = e :=
  List.inj_on_of_nodup_map nodup_keywords hd.mem_vocabulary he.mem_vocabulary h

/-- The word with which a line starts. -/
def leadingWord (line : Text) : Text := line.takeWhile (· ≠ ' ')

theorem leadingWord_of_argument? {keyword line v : Text} (hspace : ' ' ∉ keyword)
    (h : Lines.argument? keyword line = some v) : leadingWord line = keyword := by
  obtain ⟨rest, rfl, _⟩ := Lines.argument?_eq_some_iff.1 h
  -- the keyword has no space in it, and one follows
  have hkeyword : ∀ c ∈ keyword, decide (c ≠ ' ') := by
    intro c hc
    rw [decide_eq_true_eq]
    rintro rfl
    exact hspace hc
  rw [leadingWord, List.takeWhile_append_of_pos hkeyword, List.takeWhile_cons_of_neg (by simp),
    List.append_nil]

theorem leadingWord_self {keyword : Text} (hspace : ' ' ∉ keyword) :
    leadingWord keyword = keyword := by
  apply List.takeWhile_eq_self_iff.2
  intro c hc
  rw [decide_eq_true_eq]
  rintro rfl
  exact hspace hc

theorem leadingWord_of_claimLine {keyword line : Text} (hspace : ' ' ∉ keyword)
    (h : (claimLine keyword line).isMatch) : leadingWord line = keyword := by
  unfold claimLine at h
  cases hv : Lines.argument? keyword line with
  | none =>
    rw [hv] at h
    cases h
  | some v => exact leadingWord_of_argument? hspace hv

theorem leadingWord_of_claimBlock {keyword line : Text} {lines : List Text} {i : Nat}
    (hspace : ' ' ∉ keyword) (h : (claimBlock keyword line lines i).isMatch) :
    leadingWord line = keyword := by
  by_cases hline : line = keyword
  · rw [hline]
    exact leadingWord_self hspace
  · rw [claimBlock, if_neg hline] at h
    cases h

variable {d : Directive}

/-- A directive claims only lines that start with its keyword. -/
theorem Documented.leadingWord_of_claim (hd : d.Documented) {line : Text} {lines : List Text}
    {i : Nat} (h : (d.claim line lines i).isMatch) : leadingWord line = d.keyword := by
  have hspace := space_not_mem_keyword d hd.mem_vocabulary
  cases hd with
  | quote => exact leadingWord_of_claimLine hspace h
  | standard hd =>
    cases hd with
    | heading level => exact leadingWord_of_claimLine hspace h
    | date => exact leadingWord_of_claimLine hspace h
    | markdown => exact leadingWord_of_claimBlock hspace h
    | image =>
      -- whatever the next line is, the image needs its own argument
      cases hv : Lines.argument? Kind.image line with
      | none => simp [image, hv, Claim.none, Claim.isMatch] at h
      | some v => exact leadingWord_of_argument? hspace hv

/-- A directive parses only tokens of its own kind. -/
theorem Documented.kind_of_parse (hd : d.Documented) {t : Token} {c : TokenCursor}
    (h : (d.parse t c).isSome) : t.kind = d.keyword := by
  have hscalar {keyword : Text} (h : (parseScalar keyword t c).isSome) : t.kind = keyword := by
    unfold parseScalar at h
    split at h
    · assumption
    · cases h
  cases hd with
  | quote => exact hscalar h
  | standard hd =>
    cases hd with
    | heading level => exact hscalar h
    | date => exact hscalar h
    | markdown => exact hscalar h
    | image =>
      by_contra hk
      simp [image, show ¬ t.kind = Kind.image from hk] at h

/-- A directive renders only nodes of its own kind, be they text or composite. -/
theorem Documented.kind_of_render (hd : d.Documented) {n : Node} (h : (d.render n).isSome) :
    n.kind = d.keyword := by
  have hscalar {keyword : Text} {markup : Text → Text}
      (h : (renderScalar keyword markup n).isSome) : n.kind = keyword := by
    unfold renderScalar at h
    split at h
    · assumption
    · cases h
  cases hd with
  | quote => exact hscalar h
  | standard hd =>
    cases hd with
    | heading level => exact hscalar h
    | date => exact hscalar h
    | markdown => exact hscalar h
    | image =>
      by_contra hk
      simp [image, show ¬ n.kind = Kind.image from hk] at h

end Directive

open Directive

/-- Where at most one member of a list answers, the first answer depends on the members alone. -/
theorem findSome?_eq_of_unique {α β : Type} {as bs : List α} {f : α → Option β}
    (hmem : ∀ a, a ∈ as ↔ a ∈ bs)
    (hone : ∀ a ∈ as, ∀ b ∈ as, (f a).isSome → (f b).isSome → a = b) :
    as.findSome? f = bs.findSome? f := by
  cases has : as.findSome? f with
  | none =>
    symm
    apply List.findSome?_eq_none_iff.2
    intro b hb
    exact List.findSome?_eq_none_iff.1 has b ((hmem b).2 hb)
  | some x =>
    obtain ⟨a, ha, hx⟩ := List.exists_of_findSome?_eq_some has
    -- the other list finds an answer too, and it is that of the same member
    have hsome : (bs.findSome? f).isSome :=
      List.findSome?_isSome_iff.2 ⟨a, (hmem a).1 ha, by rw [hx]; rfl⟩
    obtain ⟨y, hbs⟩ := Option.isSome_iff_exists.1 hsome
    obtain ⟨b, hb, hy⟩ := List.exists_of_findSome?_eq_some hbs
    obtain rfl := hone a ha b ((hmem b).2 hb) (by rw [hx]; rfl) (by rw [hy]; rfl)
    rw [hbs, ← hx, hy]

namespace Registry

def Documented (r : Registry) : Prop := ∀ d ∈ r, d.Documented

variable {r r' : Registry}

theorem mem_of_keywords (hr : r.Documented) (hr' : r'.Documented)
    (h : ∀ k ∈ r.keywords, k ∈ r'.keywords) {d : Directive} (hd : d ∈ r) : d ∈ r' := by
  obtain ⟨e, he, hkeyword⟩ := List.mem_map.1 (h _ (List.mem_map_of_mem hd))
  rwa [← (hr' e he).eq_of_keyword (hr d hd) hkeyword]

theorem claim?_eq_findSome? (r : Registry) (line : Text) (lines : List Text) (i : Nat) :
    r.claim? line lines i =
      r.findSome? fun d => Option.guard Claim.isMatch (d.claim line lines i) := by
  rw [claim?, List.find?_eq_findSome?_guard, List.findSome?_map]
  rfl

/-- Registries that give the same answers, to lines, to tokens and to nodes. -/
structure Alike (r r' : Registry) : Prop where
  claim (line : Text) (lines : List Text) (i : Nat) : r.claim? line lines i = r'.claim? line lines i
  parse (c : TokenCursor) : r.parse? c = r'.parse? c
  render (n : Node) : r.render? n = r'.render? n

/-- Registries of documented directives with the same keywords give the same answers. -/
theorem alike_of_keywords (hr : r.Documented) (hr' : r'.Documented)
    (h : ∀ k, k ∈ r.keywords ↔ k ∈ r'.keywords) : r.Alike r' := by
  have hmem (d : Directive) : d ∈ r ↔ d ∈ r' :=
    ⟨mem_of_keywords hr hr' fun k => (h k).1, mem_of_keywords hr' hr fun k => (h k).2⟩
  -- whoever answers has the keyword that is asked for
  have hask {β : Type} (f : Directive → Option β) (k : Text)
      (hf : ∀ d, d.Documented → (f d).isSome → k = d.keyword) :
      r.findSome? f = r'.findSome? f := by
    apply findSome?_eq_of_unique hmem
    intro d hd e he hfd hfe
    exact (hr d hd).eq_of_keyword (hr e he) ((hf d (hr d hd) hfd).symm.trans (hf e (hr e he) hfe))
  constructor
  · intro line lines i
    rw [claim?_eq_findSome?, claim?_eq_findSome?]
    apply hask _ (leadingWord line)
    intro d hd hclaim
    exact hd.leadingWord_of_claim (by simpa using hclaim)
  · intro c
    unfold parse?
    cases c.peek? 0 with
    | none => rfl
    | some t => exact hask _ t.kind fun d hd => hd.kind_of_parse
  · intro n
    exact hask _ n.kind fun d hd => hd.kind_of_render

end Registry

namespace Registry.Alike

variable {r r' : Registry} (h : r.Alike r')
include h

theorem claimAt? (lines : List Text) (i : Nat) :
    Segment.claimAt? r lines i = Segment.claimAt? r' lines i := by
  unfold Segment.claimAt?
  rw [h.claim]

theorem endsRun (lines : List Text) (i : Nat) :
    Segment.endsRun r lines i = Segment.endsRun r' lines i := by
  unfold Segment.endsRun
  rw [h.claimAt?]

theorem runFrom (lines : List Text) (i : Nat) :
    Segment.runFrom r lines i = Segment.runFrom r' lines i := by
  fun_induction Segment.runFrom r lines i with
  | case1 i hi hends =>
    rw [Segment.runFrom, if_pos hi, ← h.endsRun, if_pos hends]
  | case2 i hi hends ih =>
    rw [Segment.runFrom.eq_def r', if_pos hi, ← h.endsRun, if_neg hends, ih]
  | case3 i hi => rw [Segment.runFrom, if_neg hi]

theorem startingAt (lines : List Text) (i : Nat) :
    Segment.startingAt r lines i = Segment.startingAt r' lines i := by
  fun_induction Segment.startingAt r lines i with
  | case1 i hi line hblank ih =>
    rw [Segment.startingAt.eq_def r', if_pos hi, if_pos hblank, ih]
  | case2 i hi line hblank c hc hfits ih =>
    rw [h.claimAt?] at hc
    rw [Segment.startingAt.eq_def r', if_pos hi, if_neg hblank, hc]
    dsimp only
    rw [if_pos hfits, ih]
  | case3 i hi line hblank c hc hfits =>
    rw [h.claimAt?] at hc
    rw [Segment.startingAt.eq_def r', if_pos hi, if_neg hblank, hc]
    dsimp only
    rw [if_neg hfits]
  | case4 i hi line hblank hc more ih =>
    rw [h.claimAt?] at hc
    have hmore : more = Segment.runFrom r' lines (i + 1) := h.runFrom lines (i + 1)
    rw [Segment.startingAt.eq_def r', if_pos hi, if_neg hblank, hc, ih, hmore]
  | case5 i hi => rw [Segment.startingAt, if_neg hi]

theorem tokenize (source : Text) : Folio.tokenize r source = Folio.tokenize r' source := by
  unfold Folio.tokenize segments
  rw [h.startingAt]

theorem step (c : TokenCursor) : Step.at? r c = Step.at? r' c := by
  unfold Step.at?
  rw [h.parse]

theorem parseFrom (ts : List Token) (i : Nat) :
    (Folio.parseFrom r ts i).value = (Folio.parseFrom r' ts i).value := by
  -- on the number of tokens left
  induction hk : ts.length - i using Nat.strongRecOn generalizing i with
  | _ k ih =>
    by_cases hlt : i < ts.length
    · obtain ⟨s, hs⟩ := at?_isSome (r := r) hlt
      have hs' : Step.at? r' ⟨ts, i⟩ = some s := (h.step _).symm.trans hs
      have hpos := Step.taken_pos hs
      rw [parseFrom_at? hs, parseFrom_at? hs', ih _ (by omega) _ rfl]
    · rw [parseFrom_end (Nat.le_of_not_lt hlt), parseFrom_end (Nat.le_of_not_lt hlt)]

theorem parseTokens (ts : List Token) :
    (Folio.parseTokens r ts).value = (Folio.parseTokens r' ts).value := h.parseFrom ts 0

theorem nodesOf (source : Text) :
    (Folio.nodesOf r source).value = (Folio.nodesOf r' source).value := by
  unfold Folio.nodesOf Logged.bind
  rw [h.tokenize]
  exact h.parseTokens _

variable {extension : Text} {w : Workspace} {base within : Path} {chain : List Location}
  {ns : List Node}

theorem expand : (Import.expand r extension w base within chain ns).value =
    (Import.expand r' extension w base within chain ns).value := by
  apply Import.expand_induction r extension w (motive := fun base within chain ns =>
    (Import.expand r extension w base within chain ns).value =
      (Import.expand r' extension w base within chain ns).value)
  · intro base within chain
    rw [Import.expand_nil, Import.expand_nil]
  · intro base within chain n ns ihdoc ihrest
    -- the text of an imported document is read by the registry again
    have hpiece : Import.piece r extension w base within chain n =
        Import.piece r' extension w base within chain n := by
      cases hrole : Import.role extension w base n with
      | dropped log => rw [Import.piece_dropped hrole, Import.piece_dropped hrole]
      | kept => rw [Import.piece_kept hrole, Import.piece_kept hrole]
      | stylesheet t => rw [Import.piece_stylesheet hrole, Import.piece_stylesheet hrole]
      | document path l =>
        by_cases hl : l ∈ chain
        · rw [Import.piece_cycle hrole hl, Import.piece_cycle hrole hl]
        · cases hs : w.readAt l with
          | error fault => rw [Import.piece_unreadable hrole hl hs, Import.piece_unreadable hrole hl hs]
          | ok source =>
            rw [Import.piece_document hrole hl hs, Import.piece_document hrole hl hs, ← h.nodesOf]
            exact ihdoc path l source hrole hl hs
    rw [Import.expand_cons, Import.expand_cons, hpiece, ihrest]

theorem emit (x : Renderer) (s : Summary) (b : Script.Buffers) (n : Node) :
    { x with registry := r }.emit s b n = { x with registry := r' }.emit s b n := by
  unfold Renderer.emit
  rw [h.render]
  rfl

theorem emitAll (x : Renderer) (s : Summary) (b : Script.Buffers) (ns : List Node) :
    { x with registry := r }.emitAll s b ns = { x with registry := r' }.emitAll s b ns := by
  induction ns generalizing b with
  | nil => rfl
  | cons n ns ih =>
    unfold Renderer.emitAll
    rw [h.emit, funext ih]

theorem rendered (x : Renderer) (ns : List Node) :
    { x with registry := r }.render ns = { x with registry := r' }.render ns := by
  unfold Renderer.render
  simp only [h.emitAll x]
  rfl

theorem compile (c : Compiler) (source : Text) :
    (Compiler.compile { c with registry := r } w base source).value =
      (Compiler.compile { c with registry := r' } w base source).value := by
  have hpage (nodes resolved : List Node) :
      Compiler.pageOf { c with registry := r } w base nodes resolved =
        Compiler.pageOf { c with registry := r' } w base nodes resolved := by
    unfold Compiler.pageOf
    exact congrArg (fun done : Logged Rendered => Page.mk done.value.html done.value.title
      (nodes.any fun n => n.kind = Kind.importable) done.value.frontmatter)
      (h.rendered ⟨r, c.host, c.page, w, base, c.extension⟩ resolved)
  unfold Compiler.compile
  rw [Compiler.compileWithin_value, Compiler.compileWithin_value]
  dsimp only
  rw [h.nodesOf, h.expand, funext (hpage _)]

end Registry.Alike

/-- What is read in a document, and the page that it makes, depends on the keywords of the registry as a
set: not on the order in which the directives are asked, nor on how often each of them is there. -/
theorem Registry.keywords_decide {r r' : Registry} (hr : r.Documented) (hr' : r'.Documented)
    (h : ∀ k, k ∈ r.keywords ↔ k ∈ r'.keywords) :
    (∀ source, tokenize r source = tokenize r' source) ∧
    (∀ ts, (parseTokens r ts).value = (parseTokens r' ts).value) ∧
    ∀ host page extension w base source,
      (Compiler.compile ⟨r, host, page, extension⟩ w base source).value =
        (Compiler.compile ⟨r', host, page, extension⟩ w base source).value := by
  have halike := alike_of_keywords hr hr' h
  refine ⟨halike.tokenize, halike.parseTokens, ?_⟩
  intro host page extension w base source
  exact halike.compile ⟨r, host, page, extension⟩ source

namespace Registry

def inOrder : Registry := [.heading 1, .heading 2, .image, .quote]

/-- The same keywords from the last to the first, with two of them given again. -/
def reversed : Registry := [.quote, .image, .heading 2, .heading 0, .quote, .heading 1]

theorem documented_inOrder : inOrder.Documented := by
  intro d hd
  simp only [inOrder, List.mem_cons, List.not_mem_nil, or_false] at hd
  rcases hd with rfl | rfl | rfl | rfl
  · exact .standard (.heading 1)
  · exact .standard (.heading 2)
  · exact .standard .image
  · exact .quote

theorem documented_reversed : reversed.Documented := by
  intro d hd
  simp only [reversed, List.mem_cons, List.not_mem_nil, or_false] at hd
  rcases hd with rfl | rfl | rfl | rfl | rfl | rfl
  · exact .quote
  · exact .standard .image
  · exact .standard (.heading 2)
  · exact .standard (.heading 0)
  · exact .quote
  · exact .standard (.heading 1)

theorem keywords_decide_reversed :
    inOrder.Documented ∧ reversed.Documented ∧
    (∀ k, k ∈ inOrder.keywords ↔ k ∈ reversed.keywords) ∧
    tokenize inOrder "title2 A\nquote B\n\nimage c\n\talt D".toList =
      tokenize reversed "title2 A\nquote B\n\nimage c\n\talt D".toList ∧
    (Compiler.compile ⟨inOrder, Script.idle, .standard, "sphst".toList⟩ ⟨.empty, []⟩ ⟨['.']⟩
        "title2 A\nquote B & C".toList).value =
      (Compiler.compile ⟨reversed, Script.idle, .standard, "sphst".toList⟩ ⟨.empty, []⟩ ⟨['.']⟩
        "title2 A\nquote B & C".toList).value := by
  have hkeywords (k : Text) : k ∈ inOrder.keywords ↔ k ∈ reversed.keywords := by
    have hsub : ∀ k ∈ inOrder.keywords, k ∈ reversed.keywords := by decide
    have hsup : ∀ k ∈ reversed.keywords, k ∈ inOrder.keywords := by decide
    exact ⟨hsub k, hsup k⟩
  obtain ⟨htokens, -, hcompile⟩ :=
    keywords_decide documented_inOrder documented_reversed hkeywords
  exact ⟨documented_inOrder, documented_reversed, hkeywords, htokens _, hcompile _ _ _ _ _ _⟩

end Registry
end Folio
