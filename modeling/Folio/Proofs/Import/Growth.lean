import Folio.Proofs.Document.Compilation
import Folio.Proofs.Files.Direct

namespace Folio

/-- A host whose scripts do not look at files. -/
def Script.Host.Blind (h : Script.Host) : Prop :=
  ∀ (v : Script.View) (w : Workspace) (code : Text) (b : Script.Buffers),
    (h.run { v with workspace := w } code b).value = (h.run v code b).value

theorem Script.blind_idle : Script.idle.Blind := fun _ _ _ _ => rfl

namespace Import

open Folio.Path Workspace

/-- The imports among nodes go up before they go down. -/
def Direct (extension : Text) (ns : List Node) : Prop :=
  ∀ n ∈ ns, n.kind = Kind.importKind →
    ∀ path, classify (reference n) extension = .document path → path.Direct

/-- The imports of all documents go up before they go down. -/
def AllDirect (r : Registry) (extension : Text) (w : Workspace) : Prop :=
  ∀ l source, w.readAt l = .ok source → Direct extension (nodesOf r source).value

variable {r : Registry} {extension : Text} {w w' : Workspace} {base within path : Path}
  {chain : List Location} {n : Node} {ns : List Node} {t : Text}

/-- An imported document has the extension of documents. -/
theorem suffix_of_classify (hslash : '/' ∉ extension) (hc : classify t extension = .document path)
    {before : List Text} {m : Text} (hp : path.segments = before ++ [m]) (hm : ¬ isFiller m)
    (hdots : m ≠ ['.', '.']) : '.' :: extension <:+ m := by
  unfold classify at hc
  split at hc
  · rename_i e he
    split at hc
    · cases hc
    · split at hc
      · rename_i heq
        obtain rfl := Reference.document.inj hc
        have hhas : (Path.mk t).hasExtension extension := by
          rw [hasExtension, he, heq]
          simp
        obtain ⟨stem, hsplit⟩ := (hasExtension_iff hp hm hdots).1 hhas
        exact ⟨stem, (splitExtension_eq_iff.1 hsplit).1.symm⟩
      · cases hc
  · obtain rfl := Reference.document.inj hc
    have hwhole : '/' ∉ '.' :: extension := by
      rw [List.mem_cons, not_or]
      exact ⟨by decide, hslash⟩
    obtain ⟨init, last, first, more, _, hfirst, hall⟩ := Text.splitOn_append t ('.' :: extension)
    rw [Text.splitOn_of_not_mem hwhole] at hfirst
    obtain ⟨rfl, rfl⟩ := List.cons.inj hfirst
    have hlast := (List.append_inj' (hall.symm.trans hp) rfl).2
    rw [← List.singleton_inj.1 hlast]
    exact List.suffix_append _ _

/-- What an imported document gives depends on the file that its path leads to. -/
theorem piece_of_document (hk : n.kind = Kind.importKind)
    (hc : classify (reference n) extension = .document path)
    (hchain : ∀ q ∈ chain, ∃ t, w.readAt q = .ok t) :
    piece r extension w base within chain n = match w.open? (base.join path) with
      | none => .ok []
      | some (l, source) =>
        if l ∈ chain then .error (.importCycle (chain ++ [l]))
        else (expand r extension w (pathOf l.dropLast) (nested within path) (chain ++ [l])
          (nodesOf r source).value).value := by
  have hkinds : Kind.importKind ≠ Kind.importable := by decide
  unfold open?
  cases hl : w.resolve (base.join path) with
  | error fault =>
    have hrole : role extension w base n = .dropped [.importNotFound (base.join path) fault] := by
      unfold role
      rw [if_neg (by rw [hk]; exact hkinds), if_pos hk, hc]
      dsimp only
      rw [hl]
    exact piece_dropped hrole
  | ok l =>
    have hrole := role_eq_document_iff.2 ⟨hk, hc, hl⟩
    dsimp only
    cases hs : w.readAt l with
    | error fault =>
      refine piece_unreadable hrole (fun hmem => ?_) hs
      obtain ⟨t, ht⟩ := hchain l hmem
      cases hs.symm.trans ht
    | ok source =>
      dsimp only
      by_cases hmem : l ∈ chain
      · rw [if_pos hmem, piece_cycle hrole hmem]
      · rw [if_neg hmem, piece_document hrole hmem hs]

/-- A node that imports no document gives the same whatever files there are. -/
theorem piece_of_not_document (h : n.kind = Kind.importKind →
      ∀ path, classify (reference n) extension ≠ .document path) :
    piece r extension w' base within chain n = piece r extension w base within chain n := by
  have hnot (path : Path) (l : Location) : role extension w base n ≠ .document path l := by
    intro hr
    obtain ⟨hk, hc, _⟩ := role_eq_document_iff.1 hr
    exact h hk path hc
  exact piece_congr (role_congr fun hk path hc => absurd hc (h hk path))
    (fun path l hr => absurd hr (hnot path l)) fun path l _ hr => absurd hr (hnot path l)

section Grown

variable {pages : Location → Prop} (hslash : '/' ∉ extension) (h : Grown pages w w')
  (hpages : ∀ init m, '.' :: extension <:+ m → ¬ pages (init ++ [m]))
include hslash h hpages

/-- A node gives the same, if the document that it imports is expanded to the same nodes. -/
theorem piece_grown {b : Location} (hb : w.tree.lookup b = some .directory)
    (hn : n.kind = Kind.importKind →
      ∀ path, classify (reference n) extension = .document path → path.Direct)
    (hchain : ∀ q ∈ chain, ¬ pages q ∧ ∃ t, w.readAt q = .ok t)
    (hinner : ∀ path l source, role extension w (pathOf b) n = .document path l → l ∉ chain →
      w.readAt l = .ok source → ¬ pages l →
      (expand r extension w' (pathOf l.dropLast) (nested within path) (chain ++ [l])
        (nodesOf r source).value).value =
        (expand r extension w (pathOf l.dropLast) (nested within path) (chain ++ [l])
          (nodesOf r source).value).value) :
    piece r extension w' (pathOf b) within chain n =
      piece r extension w (pathOf b) within chain n := by
  by_cases himport : n.kind = Kind.importKind ∧
      ∃ path, classify (reference n) extension = .document path
  · -- a document that is imported has the extension of documents, so that it is no page
    obtain ⟨hk, path, hc⟩ := himport
    have hnot {before : List Text} {m : Text} (init : Location) (hm : path.segments = before ++ [m])
        (hfiller : ¬ isFiller m) (hdots : m ≠ ['.', '.']) : ¬ pages (init ++ [m]) :=
      hpages init m (suffix_of_classify hslash hc hm hfiller hdots)
    have hread (q : Location) (hq : q ∈ chain) : ∃ t, w'.readAt q = .ok t := by
      obtain ⟨hpage, t, ht⟩ := hchain q hq
      rw [readAt_eq_ok_iff] at ht
      exact ⟨t, readAt_eq_ok_iff.2 ((h.same q _ hpage).2 ht)⟩
    rw [piece_of_document hk hc hread, piece_of_document hk hc fun q hq => (hchain q hq).2,
      h.open?_eq hb (hn hk path hc) fun _ _ init => hnot init]
    cases hl : w.open? ((pathOf b).join path) with
    | none => rfl
    | some found =>
      obtain ⟨l, source⟩ := found
      obtain ⟨hresolve, hsource⟩ := open?_eq_some_iff.1 hl
      dsimp only
      by_cases hmem : l ∈ chain
      · rw [if_pos hmem, if_pos hmem]
      · rw [if_neg hmem, if_neg hmem]
        refine hinner path l source (role_eq_document_iff.2 ⟨hk, hc, hresolve⟩) hmem hsource ?_
        obtain ⟨before, m, init, hm, hfiller, hdots, rfl⟩ :=
          exists_last_of_join hresolve (lookup_of_readAt hsource)
        exact hnot init hm hfiller hdots
  · exact piece_of_not_document fun hk path hc => himport ⟨hk, path, hc⟩

/-- The same imports are expanded. -/
theorem expand_grown (hall : AllDirect r extension w) {b : Location}
    (hb : w.tree.lookup b = some .directory) (hns : Direct extension ns)
    (hchain : ∀ q ∈ chain, ¬ pages q ∧ ∃ t, w.readAt q = .ok t) :
    (expand r extension w' (pathOf b) within chain ns).value =
      (expand r extension w (pathOf b) within chain ns).value := by
  -- the induction is on paths of directories, since each document brings its own
  suffices hmain : ∀ base within chain ns, ∀ b, base = pathOf b →
      w.tree.lookup b = some .directory → Direct extension ns →
      (∀ q ∈ chain, ¬ pages q ∧ ∃ t, w.readAt q = .ok t) →
      (expand r extension w' base within chain ns).value =
        (expand r extension w base within chain ns).value from
    hmain _ within chain ns b rfl hb hns hchain
  refine expand_induction r extension w ?_ ?_
  · intro base within chain b _ _ _ _
    rw [expand_nil, expand_nil]
  · rintro _ within chain n ns ihdoc ihrest b rfl hb hns hchain
    obtain ⟨hn, hrest⟩ := List.forall_mem_cons.1 hns
    have hpiece : piece r extension w' (pathOf b) within chain n =
        piece r extension w (pathOf b) within chain n := by
      refine piece_grown hslash h hpages hb hn hchain fun path l source hrole hmem hsource hl => ?_
      have hdir := FileTree.lookup_dropLast (lookup_of_readAt hsource)
      refine ihdoc path l source hrole hmem hsource _ rfl hdir (hall l source hsource) ?_
      intro q hq
      rcases List.mem_append.1 hq with hq | hq
      · exact hchain q hq
      · exact List.mem_singleton.1 hq ▸ ⟨hl, source, hsource⟩
    rw [expand_cons, expand_cons, hpiece, ihrest b rfl hb hrest hchain]

end Grown
end Import

namespace Renderer

variable {r : Renderer} {w : Workspace} {ns : List Node}
  (hrun : ∀ n ∈ ns, n.kind = Kind.script → ∀ s b,
    (r.host.run { r.view s with workspace := w } (n.text?.getD []) b).value =
      (r.host.run (r.view s) (n.text?.getD []) b).value)
include hrun

/-- A page shows of the files what its scripts leave. -/
theorem emitAll_congr (s : Summary) (b : Script.Buffers) :
    (emitAll { r with workspace := w } s b ns).value = (emitAll r s b ns).value := by
  induction ns generalizing b with
  | nil => rfl
  | cons n ns ih =>
    obtain ⟨hn, hns⟩ := List.forall_mem_cons.1 hrun
    have hone : (emit { r with workspace := w } s b n).value = (emit r s b n).value := by
      unfold emit
      split
      · rfl
      · split
        · rename_i hscript
          have hsame := hn hscript s b
          unfold Logged.bind
          dsimp only
          rw [show Renderer.view { r with workspace := w } s = { r.view s with workspace := w } from rfl,
            hsame]
        · rfl
    unfold emitAll Logged.bind
    dsimp only
    rw [hone, ih hns]

theorem render_congr : (render { r with workspace := w } ns).value = (render r ns).value := by
  unfold render Logged.bind
  dsimp only
  rw [emitAll_congr hrun]
  rfl

end Renderer

namespace Compiler

open Folio.Path Workspace

variable {c : Compiler} {w w' : Workspace} {p : Path} {l : Location} {content : Content}

/-- A page is the same in two workspaces if its scripts do the same in both. -/
theorem pageOf_congr {base : Path} {resolved : List Node}
    (hrun : ∀ n ∈ resolved, n.kind = Kind.script → ∀ f vars b,
      (c.host.run ⟨w', base, c.extension, f, vars⟩ (n.text?.getD []) b).value =
        (c.host.run ⟨w, base, c.extension, f, vars⟩ (n.text?.getD []) b).value) (nodes : List Node) :
    c.pageOf w' base nodes resolved = c.pageOf w base nodes resolved := by
  have hrender := Renderer.render_congr (w := w')
    (r := ⟨c.registry, c.host, c.page, w, base, c.extension⟩)
    fun n hn hk s => hrun n hn hk s.frontmatter s.bindings
  unfold pageOf
  dsimp only at hrender ⊢
  rw [hrender]

theorem pageOf_blind (hhost : c.host.Blind) (base : Path) (nodes resolved : List Node) :
    c.pageOf w' base nodes resolved = c.pageOf w base nodes resolved :=
  pageOf_congr (fun n _ _ f vars => hhost ⟨w, base, c.extension, f, vars⟩ w' (n.text?.getD [])) nodes

/-- The document at a location has nodes, and its imports are expanded to others. -/
def Expands (c : Compiler) (w : Workspace) (l : Location) (nodes resolved : List Node) : Prop :=
  ∃ source, w.readAt l = .ok source ∧ nodes = (nodesOf c.registry source).value ∧
    (Import.expand c.registry c.extension w (pathOf l.dropLast) .empty [l] nodes).value = .ok resolved

/-- A document that was there before compiles as before, if its page shows the same. -/
theorem compileFile_grown {pages : Location → Prop} (hslash : '/' ∉ c.extension)
    (h : Grown pages w w') (hpages : ∀ init m, '.' :: c.extension <:+ m → ¬ pages (init ++ [m]))
    (hall : Import.AllDirect c.registry c.extension w) (hp : w.resolve p = .ok l)
    (hfile : w.tree.lookup l = some (.file content)) (hl : ¬ pages l)
    (hpage : ∀ nodes resolved, c.Expands w l nodes resolved →
      c.pageOf w' (pathOf l.dropLast) nodes resolved =
        c.pageOf w (pathOf l.dropLast) nodes resolved) :
    (c.compileFile w' p).value = (c.compileFile w p).value := by
  have hfile' := (h.same l content hl).2 hfile
  have hread : w'.readAt l = w.readAt l := by
    unfold readAt
    rw [hfile', hfile]
  -- the file can be read in both workspaces or in neither
  cases hs : w.readAt l with
  | error fault =>
    have hfault {v : Workspace} (hv : v.resolve p = .ok l) (hvs : v.readAt l = .error fault) :
        v.read p = .error fault := by
      rw [Workspace.read, hv]
      exact hvs
    rw [compileFile_unreadable (hfault (h.resolve hp) (hread.trans hs)),
      compileFile_unreadable (hfault hp hs)]
  | ok source =>
    rw [compileFile_readable (h.resolve hp) (hread.trans hs), compileFile_readable hp hs,
      Import.expand_grown hslash h hpages hall (FileTree.lookup_dropLast hfile) (hall l source hs)
        fun q hq => List.mem_singleton.1 hq ▸ ⟨hl, source, hs⟩]
    cases hx : (Import.expand c.registry c.extension w (pathOf l.dropLast) .empty [l]
        (nodesOf c.registry source).value).value with
    | error fault => rfl
    | ok resolved => exact congrArg Except.ok (hpage _ _ ⟨source, hs, rfl, hx⟩)

end Compiler
end Folio
