import Folio.Proofs.Files.Agreement
import Folio.Proofs.Page.Appending

/-! Scripts see nothing but what lies below the directory of their document. All that a script reads
of the files are listings, and a path that could lead out of the directory is refused before anything
is read; so a script does the same in all workspaces that hold the same below the directory. -/
namespace Folio

open Folio.Path Workspace

namespace Listing

variable {w w' : Workspace} {directory : Path} {l : Location} {extension n : Text}

section Child

variable {d : Location} (hn : n ∈ w.tree.children d)
include hn

theorem isName_of_child : IsName n := by
  obtain ⟨e, he⟩ := FileTree.mem_children_iff.1 hn
  exact FileTree.isName_of_lookup he n (by simp)

theorem segments_child (directory : Path) :
    ∃ before, (directory.join ⟨n⟩).segments = before ++ [n] := by
  have hsegment := isSegment_of_isName (isName_of_child hn)
  obtain ⟨before, hbefore, _⟩ := segments_join (p := directory) (not_isAbsolute_single hsegment)
  exact ⟨before, by rw [hbefore, segments_single hsegment]⟩

end Child

/-- The entry of a name depends on what kind of thing has that name, and for a document on its text. -/
theorem entryAt_congr (hkind : w'.tree.kindAt (l ++ [n]) = w.tree.kindAt (l ++ [n]))
    (hread : (directory.join ⟨n⟩).hasExtension extension →
      w'.readAt (l ++ [n]) = w.readAt (l ++ [n])) :
    entryAt w' directory l extension n = entryAt w directory l extension n := by
  unfold entryAt
  rw [FileTree.isDirectory_congr hkind]
  dsimp only
  split
  · rename_i hdocument
    have hextension : (directory.join ⟨n⟩).hasExtension extension :=
      (Bool.and_eq_true_iff.1 hdocument).2
    rw [hread hextension]
  · rfl

/-- A listing depends on where its path leads, on the names there, and on the texts of the documents
among them. -/
theorem list_congr (hresolve : w'.resolve directory = w.resolve directory)
    (hentries : ∀ l, w.resolve directory = .ok l →
      (∀ n, w'.tree.kindAt (l ++ [n]) = w.tree.kindAt (l ++ [n])) ∧
        ∀ n ∈ w.tree.children l, (directory.join ⟨n⟩).hasExtension extension →
          w'.readAt (l ++ [n]) = w.readAt (l ++ [n])) :
    list w' directory extension = list w directory extension := by
  unfold list
  rw [hresolve]
  cases hl : w.resolve directory with
  | error fault => rfl
  | ok l =>
    obtain ⟨hkind, hread⟩ := hentries l hl
    have hmap : (w'.tree.children l).map (entryAt w' directory l extension) =
        (w.tree.children l).map (entryAt w directory l extension) := by
      rw [FileTree.children_congr hkind]
      exact List.map_congr_left fun n hn => entryAt_congr (hkind n) (hread n hn)
    dsimp only
    rw [hmap]

end Listing

namespace Script

/-- The line with a number is a call: no comment, and it can be read. -/
def IsCall (number : Nat) (line : Text) (c : Call) : Prop :=
  ¬ isIdle line ∧ parseCall number (Text.trim line) = .ok c

/-- One of the lines lists the directory at a path. -/
def Lists (ls : List Text) (a : Text) : Prop :=
  ∃ l ∈ ls, ∃ number argument, IsCall number l ⟨"list".toList, argument⟩ ∧ a = argument.getD ['.']

section Congruence

variable {v : View} {w' : Workspace}

/-- Of the files, a call reads listings only. -/
theorem perform_congr {c : Call} (hlist : c.name = "list".toList →
      ({ v with workspace := w' } : View).list (c.argument.getD ['.']) =
        v.list (c.argument.getD ['.'])) (line : Nat) (b : Buffers) :
    perform { v with workspace := w' } line c b = perform v line c b := by
  unfold perform
  dsimp only
  by_cases hname : c.name = "list".toList
  · rw [hlist hname]
    rfl
  · simp only [if_neg hname]
    rfl

theorem runLines_congr {ls : List Text}
    (hlist : ∀ a, Lists ls a → ({ v with workspace := w' } : View).list a = v.list a)
    (line : Nat) (b : Buffers) :
    runLines { v with workspace := w' } line b ls = runLines v line b ls := by
  induction ls generalizing line b with
  | nil => rfl
  | cons l ls ih =>
    have hrest := ih fun a ⟨m, hm, hcall⟩ => hlist a ⟨m, List.mem_cons_of_mem l hm, hcall⟩
    have hsame : runLine { v with workspace := w' } line b l = runLine v line b l := by
      unfold runLine
      by_cases hidle : isIdle l
      · rw [if_pos hidle, if_pos hidle]
      · rw [if_neg hidle, if_neg hidle]
        cases hparse : parseCall line (Text.trim l) with
        | error fault => rfl
        | ok c =>
          obtain ⟨name, argument⟩ := c
          refine perform_congr (fun hname => hlist _ ?_) line b
          obtain rfl : name = "list".toList := hname
          exact ⟨l, List.mem_cons_self, line, argument, ⟨hidle, hparse⟩, rfl⟩
    cases hx : (runLine v line b l).value with
    | error fault => rw [runLines_stop hx, runLines_stop (hsame ▸ hx), hsame]
    | ok done => rw [runLines_go hx, runLines_go (hsame ▸ hx), hsame, hrest]

theorem run_congr {code : Text}
    (hlist : ∀ a, Lists (Text.lines code) a →
      ({ v with workspace := w' } : View).list a = v.list a) (b : Buffers) :
    caller.run { v with workspace := w' } code b = caller.run v code b :=
  runLines_congr hlist 1 b

end Congruence

theorem perform_list (v : View) (line : Nat) (a : Option Text) (b : Buffers) :
    perform v line ⟨"list".toList, a⟩ b =
      ⟨(v.list (a.getD ['.'])).value.map fun entries =>
        b.pushBody (listingMarkup (a.getD ['.']) entries v.extension),
        (v.list (a.getD ['.'])).log⟩ := by
  rfl

/-- A path that stays within a directory goes down by names only. -/
theorem View.names_of_isWithin {p : Path} (h : isWithin p) :
    ¬ p.isAbsolute ∧ ∀ s ∈ p.steps, ¬ isFiller s ∧ s ≠ ['.', '.'] := by
  have hall : ∀ c ∈ p.plain, c ≠ .root ∧ c ≠ .parent := by
    intro c hc
    have hwithin := List.all_eq_true.1 h c (List.mem_filter.1 hc).1
    constructor <;>
      rintro rfl <;>
      exact Bool.false_ne_true hwithin
  rw [plain_eq] at hall
  constructor
  · intro habsolute
    exact (hall .root (by simp [habsolute])).1 rfl
  · intro s hs
    refine ⟨by simpa using (List.mem_filter.1 hs).2, ?_⟩
    rintro rfl
    exact (hall .parent (List.mem_append_right _ (List.mem_map.2 ⟨_, hs, rfl⟩))).2 rfl

theorem View.dots_not_mem_of_isWithin {p : Path} (h : isWithin p) :
    ∀ s ∈ p.segments, s ≠ ['.', '.'] := by
  rintro s hs rfl
  have hsteps : ['.', '.'] ∈ p.steps := List.mem_filter.2 ⟨hs, by decide⟩
  exact ((names_of_isWithin h).2 _ hsteps).2 rfl

theorem View.not_isWithin {p : Path}
    (h : Component.root ∈ p.components ∨ Component.parent ∈ p.components) : ¬ isWithin p := by
  intro hwithin
  rcases h with h | h <;> exact Bool.false_ne_true (List.all_eq_true.1 hwithin _ h)

theorem View.list_outside (v : View) {a : Text} (h : ¬ isWithin ⟨a⟩) :
    v.list a = .pure (.error (.outsideDocument a)) := if_neg h

/-- A script lists the same if a path that stays within its directory leads to the same place, and the
same things lie there. -/
theorem View.list_congr {v : View} {w' : Workspace} {a : Text} (h : isWithin ⟨a⟩ →
      w'.resolve (v.base.join ⟨a⟩) = v.workspace.resolve (v.base.join ⟨a⟩) ∧
        ∀ l, v.workspace.resolve (v.base.join ⟨a⟩) = .ok l →
          ∀ n, w'.tree.lookup (l ++ [n]) = v.workspace.tree.lookup (l ++ [n])) :
    ({ v with workspace := w' } : View).list a = v.list a := by
  unfold View.list
  by_cases hwithin : isWithin ⟨a⟩
  · rw [if_pos hwithin, if_pos hwithin]
    obtain ⟨hresolve, hlookup⟩ := h hwithin
    have hsame : Listing.list w' (v.base.join ⟨a⟩) v.extension =
        Listing.list v.workspace (v.base.join ⟨a⟩) v.extension := by
      refine Listing.list_congr hresolve fun l hl => ⟨fun n => ?_, fun n _ _ => ?_⟩
      · unfold FileTree.kindAt
        rw [hlookup l hl n]
      · exact readAt_congr (hlookup l hl n)
    dsimp only
    rw [hsame]
  · rw [if_neg hwithin, if_neg hwithin]

section Base

variable {v : View} {w' : Workspace} {d b : Location} (hbase : v.base = pathOf d)
  (hdir : v.workspace.tree.lookup d = some .directory)
include hbase hdir

/-- A listing shows what lies below the directory. -/
theorem View.list_below (h : AgreeBelow d v.workspace w') (a : Text) :
    ({ v with workspace := w' } : View).list a = v.list a := by
  refine list_congr fun hwithin => ?_
  obtain ⟨hresolve, hbelow⟩ :=
    h.resolve hdir (names_of_isWithin hwithin).1 (dots_not_mem_of_isWithin hwithin)
  rw [hbase]
  exact ⟨hresolve, fun l hl n => h _ ((hbelow l hl).trans (List.prefix_append l [n]))⟩

/-- A listing shows nothing of what lies below a location that its path does not lead into. -/
theorem View.list_apart (h : AgreeOutside b v.workspace w') {a : Text}
    (hb : ¬ b <+: follow d (Path.mk a).segments) :
    ({ v with workspace := w' } : View).list a = v.list a := by
  refine list_congr fun hwithin => ?_
  obtain ⟨hresolve, hout⟩ :=
    h.resolve hdir (names_of_isWithin hwithin).1 (dots_not_mem_of_isWithin hwithin) hb
  rw [hbase]
  refine ⟨hresolve, fun l hl n => h _ ?_⟩
  rw [List.dropLast_concat]
  exact hout l hl

end Base

/-- A script whose lines up to a listing outside of the directory run to their end leaves what these
lines leave. -/
theorem run_outside {v : View} {code a line : Text} {before after : List Text} {b b' : Buffers}
    (ha : ¬ View.isWithin ⟨a⟩) (hcode : Text.lines code = before ++ line :: after)
    (hcall : IsCall (before.length + 1) line ⟨"list".toList, some a⟩)
    (hbefore : (runLines v 1 b before).value = ⟨b', none⟩) :
    caller.run v code b = ⟨⟨b', some (.outsideDocument a)⟩, (runLines v 1 b before).log⟩ := by
  have hperform : perform v (before.length + 1) ⟨"list".toList, some a⟩ b' =
      .pure (.error (.outsideDocument a)) := by
    rw [perform_list, Option.getD_some, v.list_outside ha]
    rfl
  have hline : runLines v (before.length + 1) b' (line :: after) =
      ⟨⟨b', some (.outsideDocument a)⟩, []⟩ := by
    rw [runLines_failed hcall.1 hcall.2 (congrArg Logged.value hperform), hperform]
    rfl
  change runLines v 1 b (Text.lines code) = _
  rw [hcode, runLines_concat hbefore, Nat.add_comm 1, hline, List.append_nil]

/-- A script does the same in all workspaces that hold the same below the directory of its document,
with the same warnings. A listing of a directory by a path that has a root or a parent in it is refused,
and adds nothing to what the lines before it have left. -/
theorem run_confined {w w' : Workspace} {d : Location} (hdir : w.tree.lookup d = some .directory)
    (h : AgreeBelow d w w') (extension : Text) (f : Frontmatter) (vars : Variables) :
    (∀ code b, caller.run ⟨w', pathOf d, extension, f, vars⟩ code b =
      caller.run ⟨w, pathOf d, extension, f, vars⟩ code b) ∧
    ∀ (v : View) (a : Text),
      Component.root ∈ (Path.mk a).components ∨ Component.parent ∈ (Path.mk a).components →
      v.list a = .pure (.error (.outsideDocument a)) ∧
      ∀ code before line after b b', Text.lines code = before ++ line :: after →
        IsCall (before.length + 1) line ⟨"list".toList, some a⟩ →
        (runLines v 1 b before).value = ⟨b', none⟩ →
        caller.run v code b = ⟨⟨b', some (.outsideDocument a)⟩, (runLines v 1 b before).log⟩ := by
  constructor
  · intro code b
    have hlist := View.list_below (v := ⟨w, pathOf d, extension, f, vars⟩) rfl hdir h
    exact run_congr (fun a _ => hlist a) b
  · intro v a ha
    have hout := View.not_isWithin ha
    exact ⟨v.list_outside hout, fun code before line after b b' hcode hcall hbefore =>
      run_outside hout hcode hcall hbefore⟩

/-- A directory with a document, and a document beside it. -/
def besideSecret : Workspace where
  tree := {
    entries := [(["docs".toList, "a.sphst".toList], .file (.text "title A".toList)),
      (["docs".toList], .directory), (["secret.sphst".toList], .file (.text "title B".toList))]
    nodup := by decide
    named := by decide
    closed := by decide }
  home := []

/-- The same directory alone. -/
def besideNothing : Workspace where
  tree := {
    entries := [(["docs".toList, "a.sphst".toList], .file (.text "title A".toList)),
      (["docs".toList], .directory)]
    nodup := by decide
    named := by decide
    closed := by decide }
  home := ["docs".toList]

theorem agreeBelow_besideSecret : AgreeBelow ["docs".toList] besideSecret besideNothing := by
  rintro _ ⟨l, rfl⟩
  -- the first name already tells the location from that of the other document
  rfl

/-- A script that lists its own directory, and one that tries to list the directory above it. -/
theorem run_confined_docs :
    besideSecret.tree.lookup ["docs".toList] = some .directory ∧
    besideNothing.tree.lookup ["secret.sphst".toList] ≠
      besideSecret.tree.lookup ["secret.sphst".toList] ∧
    (caller.run ⟨besideSecret, pathOf ["docs".toList], "sphst".toList, [], []⟩
      "list(\"./\")".toList .empty).value.buffers =
        ⟨[], ["<ul class=\"listing\"><li><a href=\"a.html\">a</a></li></ul>".toList]⟩ ∧
    caller.run ⟨besideNothing, pathOf ["docs".toList], "sphst".toList, [], []⟩
        "list(\"./\")".toList .empty =
      caller.run ⟨besideSecret, pathOf ["docs".toList], "sphst".toList, [], []⟩
        "list(\"./\")".toList .empty ∧
    (caller.run ⟨besideSecret, pathOf ["docs".toList], "sphst".toList, [], []⟩
        "html(\"a\")\n\nlist(\"b/../\")\nhtml(\"c\")".toList .empty).value =
      ⟨⟨[], [['a']]⟩, some (.outsideDocument "b/../".toList)⟩ := by
  have hdir : besideSecret.tree.lookup ["docs".toList] = some .directory := by decide
  obtain ⟨hsame, houtside⟩ :=
    run_confined hdir agreeBelow_besideSecret "sphst".toList [] []
  obtain ⟨-, hrefused⟩ := houtside
    ⟨besideSecret, pathOf ["docs".toList], "sphst".toList, [], []⟩ "b/../".toList
    (Or.inr (by decide))
  have hcode : Text.lines "html(\"a\")\n\nlist(\"b/../\")\nhtml(\"c\")".toList =
      ["html(\"a\")".toList, []] ++ "list(\"b/../\")".toList :: ["html(\"c\")".toList] := by decide
  have hcall : IsCall 3 "list(\"b/../\")".toList ⟨"list".toList, some "b/../".toList⟩ :=
    ⟨by decide, by decide +kernel⟩
  have hbefore : (runLines ⟨besideSecret, pathOf ["docs".toList], "sphst".toList, [], []⟩ 1 .empty
      ["html(\"a\")".toList, []]).value = ⟨⟨[], [['a']]⟩, none⟩ := by
    have hidle : isIdle [] := by decide
    have hline : ¬ isIdle "html(\"a\")".toList := by decide
    have hparse : parseCall 1 (Text.trim "html(\"a\")".toList) = .ok ⟨"html".toList, some ['a']⟩ := by
      decide +kernel
    rw [runLines_done hline hparse rfl, runLines_idle hidle]
    rfl
  refine ⟨hdir, by decide, by decide +kernel, hsame _ _, ?_⟩
  rw [hrefused _ _ _ _ _ _ hcode hcall hbefore]

end Script
end Folio
