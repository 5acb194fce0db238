import Folio.Files.Workspace
import Folio.Proofs.Text.Split

/-! Following paths by their spelling alone. The tree has no links, so that a path which leads
somewhere leads where its spelling says; and joining a path, or taking its parent, is a matter of
its spelling. -/
namespace Folio

namespace IsName

variable {n : Text} (h : IsName n)
include h

theorem ne_dots : n ≠ ['.', '.'] := h.2.2.1

theorem slash_not_mem : '/' ∉ n := h.2.2.2.1

theorem nul_not_mem : Char.ofNat 0 ∉ n := h.2.2.2.2.1

theorem size_le : Text.byteSize n ≤ maxNameSize := h.2.2.2.2.2

end IsName

namespace FileTree

variable {t : FileTree} {l : Location} {e : Entry}

theorem lookup_dropLast (h : t.lookup l = some e) : t.lookup l.dropLast = some .directory := by
  by_cases hl : l = []
  · subst hl
    rfl
  · rcases t.closed _ (mem_of_lookup h hl) with hd | hd
    · rw [hd]
      rfl
    · exact lookup_of_mem hd

theorem isName_of_lookup (h : t.lookup l = some e) : ∀ n ∈ l, IsName n := by
  by_cases hl : l = []
  · subst hl
    simp
  · exact (t.named _ (mem_of_lookup h hl)).2

end FileTree

namespace Path

/-- One step along a path: a filler stays, two dots go up, and a name goes down. -/
def step (l : Location) (s : Text) : Location :=
  if isFiller s then l else if s = ['.', '.'] then l.dropLast else l ++ [s]

/-- Where the segments of a path lead from a location by their spelling alone. -/
def follow (l : Location) (ss : List Text) : Location := ss.foldl step l

@[simp] theorem follow_nil (l : Location) : follow l [] = l := rfl

@[simp] theorem follow_cons (l : Location) (s : Text) (ss : List Text) :
    follow l (s :: ss) = follow (step l s) ss := rfl

@[simp] theorem follow_append (l : Location) (ss ts : List Text) :
    follow l (ss ++ ts) = follow (follow l ss) ts := List.foldl_append

theorem step_filler {s : Text} (h : isFiller s) (l : Location) : step l s = l := if_pos h

theorem not_isFiller {n : Text} (h : IsName n) : ¬ isFiller n := by
  rw [isFiller, Bool.or_eq_true, List.isEmpty_iff, decide_eq_true_eq]
  exact not_or.2 ⟨h.1, h.2.1⟩

theorem step_name {n : Text} (h : IsName n) (l : Location) : step l n = l ++ [n] := by
  rw [step, if_neg (not_isFiller h), if_neg h.ne_dots]

theorem follow_names {ns : List Text} (h : ∀ n ∈ ns, IsName n) (l : Location) :
    follow l ns = l ++ ns := by
  induction ns generalizing l with
  | nil => simp
  | cons n ns ih =>
    rw [follow_cons, step_name (h n List.mem_cons_self),
      ih fun m hm => h m (List.mem_cons_of_mem n hm), List.append_assoc]
    rfl

/-- Fillers lead nowhere. -/
theorem follow_filter (l : Location) (ss : List Text) :
    follow l (ss.filter fun s => !isFiller s) = follow l ss := by
  induction ss generalizing l with
  | nil => rfl
  | cons s ss ih =>
    by_cases hs : isFiller s
    · rw [List.filter_cons_of_neg (by simp [hs]), ih, follow_cons, step_filler hs]
    · rw [List.filter_cons_of_pos (by simp [hs]), follow_cons, follow_cons, ih]

theorem follow_dropFillersEnd (l : Location) (ss : List Text) :
    follow l (dropFillersEnd ss) = follow l ss := by
  have hsplit : ss = dropFillersEnd ss ++ (ss.reverse.takeWhile isFiller).reverse := by
    rw [dropFillersEnd, ← List.reverse_append, List.takeWhile_append_dropWhile,
      List.reverse_reverse]
  have hfillers : ∀ s ∈ (ss.reverse.takeWhile isFiller).reverse, isFiller s := by
    intro s hs
    exact List.all_eq_true.1 List.all_takeWhile s (List.mem_reverse.1 hs)
  have hnil : (ss.reverse.takeWhile isFiller).reverse.filter (fun s => !isFiller s) = [] :=
    List.filter_eq_nil_iff.2 fun s hs => by simp [hfillers s hs]
  have hstay (m : Location) : follow m (ss.reverse.takeWhile isFiller).reverse = m := by
    rw [← follow_filter, hnil, follow_nil]
  calc follow l (dropFillersEnd ss)
      = follow l (dropFillersEnd ss ++ (ss.reverse.takeWhile isFiller).reverse) := by
        rw [follow_append, hstay]
    _ = follow l ss := by rw [← hsplit]

theorem isAbsolute_join {p q : Path} (h : ¬ q.isAbsolute) : (p.join q).isAbsolute = p.isAbsolute := by
  unfold join
  rw [if_neg h]
  obtain ⟨t⟩ := p
  cases t with
  | nil => simpa [isEmpty, isAbsolute] using h
  | cons c cs =>
    split <;> simp [isAbsolute]

/-- The segments of a relative path that is joined to another come last, after segments that lead
where those of the other do. -/
theorem segments_join {p q : Path} (h : ¬ q.isAbsolute) :
    ∃ before, (p.join q).segments = before ++ q.segments ∧
      ∀ l, follow l before = follow l p.segments := by
  unfold join segments
  rw [if_neg h]
  split
  · rename_i hend
    rw [Bool.or_eq_true] at hend
    rcases hend with he | hslash
    · have hp : p.text = [] := List.isEmpty_iff.1 he
      rw [hp]
      exact ⟨[], rfl, fun l => rfl⟩
    · obtain ⟨t, ht⟩ := List.getLast?_eq_some_iff.1 (by simpa using hslash)
      rw [ht, List.append_assoc, List.singleton_append, Text.splitOn_append_cons,
        Text.splitOn_append_cons]
      exact ⟨_, rfl, fun l => (follow_append l _ [[]]).symm⟩
  · rw [Text.splitOn_append_cons]
    exact ⟨_, rfl, fun l => rfl⟩

/-- A relative path that is joined to another is followed from where that one leads. -/
theorem follow_segments_join {p q : Path} (h : ¬ q.isAbsolute) (l : Location) :
    follow l (p.join q).segments = follow (follow l p.segments) q.segments := by
  obtain ⟨before, hsegments, hbefore⟩ := segments_join (p := p) h
  rw [hsegments, follow_append, hbefore]

theorem dropFillersEnd_concat {ns : List Text} {n : Text} (hn : ¬ isFiller n) :
    dropFillersEnd (ns ++ [n]) = ns ++ [n] := by
  rw [dropFillersEnd, List.reverse_append, List.reverse_singleton, List.singleton_append,
    List.dropWhile_cons_of_neg hn, List.reverse_cons, List.reverse_reverse]

section Parent

variable {p : Path} {first n : Text} {rest : List Text} (hp : p.segments = first :: (rest ++ [n]))
include hp

/-- The parent of a path to a name has what is before that name. -/
theorem parent?_of_segments (hn : ¬ isFiller n) :
    p.parent? = if (dropFillersEnd rest).isEmpty && first.isEmpty then some ⟨['/']⟩
      else some ⟨Text.joinWith ['/'] (first :: dropFillersEnd rest)⟩ := by
  unfold parent?
  rw [hp]
  simp only [dropFillersEnd_concat hn, List.reverse_append, List.reverse_singleton,
    List.singleton_append, List.reverse_reverse]

theorem mem_segments_of_kept : ∀ s ∈ first :: dropFillersEnd rest, s ∈ p.segments := by
  intro s hs
  obtain ⟨fillers, hfillers⟩ := dropFillersEnd_append rest
  rw [hp, hfillers]
  rcases List.mem_cons.1 hs with rfl | hs
  · simp
  · simp [hs]

theorem segments_kept : (Path.mk (Text.joinWith ['/'] (first :: dropFillersEnd rest))).segments =
    first :: dropFillersEnd rest :=
  Text.splitOn_joinWith (by simp) fun s hs => Text.not_mem_of_mem_splitOn (mem_segments_of_kept hp s hs)

end Parent

/-- The parent of a relative path to a name is followed as the segments before that name are. -/
theorem parent?_follow {p : Path} (hrel : ¬ p.isAbsolute) {before : List Text} {n : Text}
    (hp : p.segments = before ++ [n]) (hn : ¬ isFiller n) :
    ∃ q, p.parent? = some q ∧ ¬ q.isAbsolute ∧ ∀ l, follow l q.segments = follow l before := by
  cases before with
  | nil =>
    have hn' : n.isEmpty = false := by
      rw [isFiller, Bool.or_eq_true, not_or] at hn
      exact Bool.eq_false_iff.2 hn.1
    unfold parent?
    rw [hp]
    refine ⟨empty, ?_, by simp [empty, isAbsolute], fun l => rfl⟩
    simp [dropFillersEnd, hn']
  | cons first rest =>
    have hfirst : first ≠ [] := by
      rintro rfl
      apply hrel
      have htext := p.joinWith_segments
      rw [hp, List.cons_append, Text.joinWith_cons (by simp)] at htext
      rw [isAbsolute, ← htext]
      rfl
    refine ⟨⟨Text.joinWith ['/'] (first :: dropFillersEnd rest)⟩, ?_, ?_, ?_⟩
    · rw [parent?_of_segments hp hn, if_neg (by simp [hfirst])]
    · have hslash : '/' ∉ first :=
        Text.not_mem_of_mem_splitOn (mem_segments_of_kept hp first List.mem_cons_self)
      rw [isAbsolute, Text.head?_of_splitOn (segments_kept hp) hfirst, decide_eq_true_eq]
      exact fun hhead => hslash (List.mem_of_mem_head? hhead)
    · intro l
      rw [segments_kept hp, follow_cons, follow_cons, follow_dropFillersEnd]

end Path

namespace Workspace

open Folio.Path

variable {w : Workspace} {l m : Location} {ss ts : List Text}

/-- Where a path leads by its spelling alone. -/
def lexical (w : Workspace) (p : Path) : Location := follow (w.start p) p.segments

/-- Why a walk does not go on from a location with a segment, if it does not. -/
def stop? (w : Workspace) (l : Location) (s : Text) : Option FileFault :=
  if w.tree.lookup l ≠ some .directory then some .notDirectory
  else if isFiller s ∨ s = ['.', '.'] then none
  else if maxNameSize < Text.byteSize s then some .nameTooLong
  else if w.tree.lookup (l ++ [s]) = none then some .notFound
  else none

theorem stop?_eq_none_iff {s : Text} :
    w.stop? l s = none ↔ w.tree.lookup l = some .directory ∧
      (isFiller s ∨ s = ['.', '.'] ∨
        (Text.byteSize s ≤ maxNameSize ∧ w.tree.lookup (l ++ [s]) ≠ none)) := by
  unfold stop?
  by_cases hdir : w.tree.lookup l = some .directory
  · by_cases hs : isFiller s ∨ s = ['.', '.']
    · simp [hdir, hs, ← or_assoc]
    · rw [if_neg (Decidable.not_not.2 hdir), if_neg hs, ← or_assoc, or_iff_right hs,
        and_iff_right hdir]
      by_cases hsize : maxNameSize < Text.byteSize s
      · simp [hsize, Nat.not_le_of_lt hsize]
      · simp [hsize, Nat.le_of_not_lt hsize]
  · simp [hdir]

/-- A walk goes on to where the next segment leads by its spelling. -/
theorem walk_cons (w : Workspace) (l : Location) (s : Text) (ss : List Text) :
    w.walk l (s :: ss) = match w.stop? l s with
      | some fault => .error fault
      | none => w.walk (step l s) ss := by
  rw [walk]
  unfold stop? step
  by_cases hdir : w.tree.lookup l = some .directory
  · rw [if_neg (Decidable.not_not.2 hdir), if_neg (Decidable.not_not.2 hdir)]
    by_cases hs : isFiller s
    · rw [if_pos hs, if_pos (Or.inl hs), if_pos hs]
    · rw [if_neg hs, if_neg hs]
      by_cases hdots : s = ['.', '.']
      · rw [if_pos hdots, if_pos (Or.inr hdots), if_pos hdots]
      · rw [if_neg hdots, if_neg (not_or.2 ⟨hs, hdots⟩), if_neg hdots]
        -- a name that is too long or not there leads nowhere
        by_cases hsize : maxNameSize < Text.byteSize s
        · rw [if_pos hsize, if_pos hsize]
        · rw [if_neg hsize, if_neg hsize]
          cases w.tree.lookup (l ++ [s]) <;> rfl
  · rw [if_pos hdir, if_pos hdir]

theorem walk_step {s : Text} (h : w.stop? l s = none) :
    w.walk l (s :: ss) = w.walk (step l s) ss := by
  rw [walk_cons, h]

/-- A walk goes on to what has the next name. -/
theorem walk_name {n : Text} (hdir : w.tree.lookup l = some .directory) (hn : ¬ isFiller n)
    (hdots : n ≠ ['.', '.']) (hsize : Text.byteSize n ≤ maxNameSize)
    (hthere : w.tree.lookup (l ++ [n]) ≠ none) : w.walk l (n :: ss) = w.walk (l ++ [n]) ss := by
  have hgo : w.stop? l n = none := stop?_eq_none_iff.2 ⟨hdir, Or.inr (Or.inr ⟨hsize, hthere⟩)⟩
  rw [walk_step hgo, step, if_neg hn, if_neg hdots]

theorem walk_append :
    w.walk l (ss ++ ts) = (w.walk l ss).bind fun m => w.walk m ts := by
  induction ss generalizing l with
  | nil => rfl
  | cons s ss ih =>
    rw [List.cons_append, walk_cons, walk_cons]
    cases w.stop? l s with
    | some fault => rfl
    | none => exact ih

theorem walk_cons_eq_ok_iff {s : Text} :
    w.walk l (s :: ss) = .ok m ↔ w.stop? l s = none ∧ w.walk (step l s) ss = .ok m := by
  rw [walk_cons]
  cases w.stop? l s <;> simp

theorem walk_cons_eq_ok {s : Text} (h : w.walk l (s :: ss) = .ok m) :
    w.tree.lookup l = some .directory ∧ w.walk (step l s) ss = .ok m := by
  obtain ⟨hgo, hrest⟩ := walk_cons_eq_ok_iff.1 h
  exact ⟨(stop?_eq_none_iff.1 hgo).1, hrest⟩

/-- A walk ends where the spelling of its segments says. -/
theorem walk_eq_follow (h : w.walk l ss = .ok m) : m = follow l ss := by
  induction ss generalizing l with
  | nil => exact (Except.ok.inj h).symm
  | cons s ss ih => exact ih (walk_cons_eq_ok h).2

theorem resolve_eq_ok {p : Path} (h : w.resolve p = .ok l) :
    w.walk (w.start p) p.segments = .ok l := by
  unfold resolve at h
  split at h
  · cases h
  · split at h
    · cases h
    · exact h

/-- A path leads where its spelling says if it leads anywhere. -/
theorem resolve_eq_lexical {p : Path} (h : w.resolve p = .ok l) : l = w.lexical p :=
  walk_eq_follow (resolve_eq_ok h)

/-- Something is there where a walk ends. -/
theorem exists_of_walk (h : w.walk l ss = .ok m) (hne : ss ≠ []) : ∃ e, w.tree.lookup m = some e := by
  induction ss generalizing l with
  | nil => exact absurd rfl hne
  | cons s ss ih =>
    obtain ⟨hgo, hrest⟩ := walk_cons_eq_ok_iff.1 h
    by_cases hss : ss = []
    · subst hss
      obtain rfl : step l s = m := Except.ok.inj hrest
      obtain ⟨hdir, hname⟩ := stop?_eq_none_iff.1 hgo
      unfold step
      split
      · exact ⟨_, hdir⟩
      · rename_i hs
        split
        · exact ⟨_, FileTree.lookup_dropLast hdir⟩
        · rename_i hdots
          obtain ⟨-, hthere⟩ := (hname.resolve_left hs).resolve_left hdots
          exact Option.ne_none_iff_exists'.1 hthere
    · exact ih hrest hss

theorem exists_of_resolve {p : Path} (h : w.resolve p = .ok l) : ∃ e, w.tree.lookup l = some e :=
  exists_of_walk (resolve_eq_ok h) (Text.splitOn_ne_nil '/' p.text)

theorem lookup_of_readAt {source : Text} (h : w.readAt l = .ok source) :
    w.tree.lookup l = some (.file (.text source)) := by
  unfold readAt at h
  split at h <;> grind

theorem read_eq_ok {p : Path} {source : Text} (h : w.read p = .ok source) :
    ∃ l, w.resolve p = .ok l ∧ w.readAt l = .ok source := by
  unfold Workspace.read at h
  cases hl : w.resolve p with
  | error fault =>
    rw [hl] at h
    cases h
  | ok l =>
    rw [hl] at h
    exact ⟨l, rfl, h⟩

theorem isFile_of_read {p : Path} {source : Text} (h : w.read p = .ok source) : w.isFile p := by
  obtain ⟨l, hl, hs⟩ := read_eq_ok h
  unfold isFile entry?
  rw [hl]
  dsimp only
  rw [lookup_of_readAt hs]
  rfl

/-- A walk that ends at a file ends with the name of that file. -/
theorem walk_file {c : Content} (h : w.walk l ss = .ok m) (hfile : w.tree.lookup m = some (.file c))
    (hne : ss ≠ []) :
    ∃ before n, ss = before ++ [n] ∧ ¬ isFiller n ∧ m = follow l before ++ [n] := by
  obtain ⟨before, n, rfl⟩ : ∃ before n, ss = before ++ [n] :=
    ⟨_, _, (List.dropLast_concat_getLast hne).symm⟩
  rw [walk_append] at h
  cases hk : w.walk l before with
  | error fault =>
    rw [hk] at h
    cases h
  | ok k =>
    rw [hk] at h
    obtain ⟨hdir, hlast⟩ := walk_cons_eq_ok (show w.walk k [n] = .ok m from h)
    obtain rfl : step k n = m := Except.ok.inj hlast
    -- a filler and two dots lead to a directory, so that the last segment is a name
    have hn : ¬ isFiller n := by
      intro hn
      rw [step_filler hn, hdir] at hfile
      cases hfile
    have hdots : n ≠ ['.', '.'] := by
      intro hd
      rw [step, if_neg hn, if_pos hd, FileTree.lookup_dropLast hdir] at hfile
      cases hfile
    refine ⟨before, n, rfl, hn, ?_⟩
    rw [step, if_neg hn, if_neg hdots, walk_eq_follow hk]

theorem start_join {p q : Path} (h : ¬ q.isAbsolute) : w.start (p.join q) = w.start p := by
  unfold start
  rw [isAbsolute_join h]

theorem lexical_join {p q : Path} (h : ¬ q.isAbsolute) :
    w.lexical (p.join q) = follow (w.lexical p) q.segments := by
  unfold lexical
  rw [start_join h, follow_segments_join h]

/-- A relative reference to a file: its last segment is the name of the file, and the segments
before it lead to the directory of the file. -/
theorem resolve_join_file {p q : Path} {source : Text} (h : ¬ q.isAbsolute)
    (hl : w.resolve (p.join q) = .ok l) (hs : w.readAt l = .ok source) :
    ∃ before n, q.segments = before ++ [n] ∧ ¬ isFiller n ∧
      l.dropLast = follow (w.lexical p) before := by
  have hne : q.segments ≠ [] := Text.splitOn_ne_nil '/' q.text
  obtain ⟨start, hjoin, hstart⟩ := segments_join (p := p) h
  have hwalk := resolve_eq_ok hl
  rw [start_join h] at hwalk
  obtain ⟨all, n, hall, hn, rfl⟩ := walk_file hwalk (lookup_of_readAt hs) (by rw [hjoin]; simp [hne])
  -- the segments of the reference come last, and so does the name of the file
  obtain ⟨before, m, hq⟩ : ∃ before m, q.segments = before ++ [m] :=
    ⟨_, _, (List.dropLast_concat_getLast hne).symm⟩
  rw [hall, hq, ← List.append_assoc] at hjoin
  obtain ⟨rfl, hm⟩ := List.append_inj' hjoin rfl
  obtain rfl : n = m := List.singleton_inj.1 hm
  refine ⟨before, n, hq, hn, ?_⟩
  rw [List.dropLast_concat, follow_append, hstart]
  rfl

/-- A file has the name that the path to it ends with. -/
theorem exists_last_of_join {p q : Path} {c : Content} (hl : w.resolve (p.join q) = .ok l)
    (hfile : w.tree.lookup l = some (.file c)) :
    ∃ before n init, q.segments = before ++ [n] ∧ ¬ isFiller n ∧ n ≠ ['.', '.'] ∧ l = init ++ [n] := by
  obtain ⟨start, hsegments⟩ : ∃ start, (p.join q).segments = start ++ q.segments := by
    by_cases hq : q.isAbsolute
    · exact ⟨[], by rw [join, if_pos hq, List.nil_append]⟩
    · obtain ⟨start, hstart, _⟩ := segments_join (p := p) hq
      exact ⟨start, hstart⟩
  have hne : q.segments ≠ [] := Text.splitOn_ne_nil '/' q.text
  obtain ⟨before, n, hq⟩ : ∃ before n, q.segments = before ++ [n] :=
    ⟨_, _, (List.dropLast_concat_getLast hne).symm⟩
  have hwalk := resolve_eq_ok hl
  rw [hsegments, hq, ← List.append_assoc] at hwalk
  obtain ⟨init, m, hsplit, hm, rfl⟩ := walk_file hwalk hfile (by simp)
  obtain rfl := List.singleton_inj.1 (List.append_inj' hsplit rfl).2
  have hname : IsName n := FileTree.isName_of_lookup hfile n (by simp)
  exact ⟨before, n, _, hq, hm, hname.ne_dots, rfl⟩

theorem segments_pathOf (h : ∀ n ∈ l, IsName n) :
    (pathOf l).segments = if l = [] then [[], []] else [] :: l := by
  unfold pathOf Path.segments
  rw [Text.splitOn, if_pos rfl]
  by_cases hl : l = []
  · subst hl
    rfl
  · rw [if_neg hl, Text.splitOn_joinWith hl fun n hn => (h n hn).slash_not_mem]

/-- The path of a location leads there. -/
theorem lexical_pathOf (h : ∀ n ∈ l, IsName n) : w.lexical (pathOf l) = l := by
  have hstart : w.start (pathOf l) = [] := rfl
  unfold lexical
  rw [hstart, segments_pathOf h]
  split
  · rename_i hl
    rw [hl]
    rfl
  · rw [follow_cons, step_filler rfl, follow_names h, List.nil_append]

end Workspace
end Folio
