import Folio.Proofs.Files.Growth
import Folio.Proofs.Files.Names
import Folio.Site.Scan

namespace Folio.Scan

open Folio.Path Workspace

theorem locationLe_cons_iff {a b : Text} {as bs : Location} :
    locationLe (a :: as) (b :: bs) ↔ (a = b ∧ locationLe as bs) ∨ (a ≠ b ∧ Text.le a b) := by
  rw [locationLe]
  split <;> simp [*]

theorem locationLe_total (a b : Location) : locationLe a b ∨ locationLe b a := by
  induction a generalizing b with
  | nil => exact Or.inl rfl
  | cons x xs ih =>
    cases b with
    | nil => exact Or.inr rfl
    | cons y ys =>
      rw [locationLe_cons_iff, locationLe_cons_iff]
      by_cases hxy : x = y
      · exact (ih ys).imp (fun h => Or.inl ⟨hxy, h⟩) fun h => Or.inl ⟨hxy.symm, h⟩
      · exact (Text.le_total x y).imp (fun h => Or.inr ⟨hxy, h⟩) fun h => Or.inr ⟨Ne.symm hxy, h⟩

theorem locationLe_trans {a b c : Location} (hab : locationLe a b) (hbc : locationLe b c) :
    locationLe a c := by
  induction a generalizing b c with
  | nil => rfl
  | cons x xs ih =>
    cases b with
    | nil => cases hab
    | cons y ys =>
      cases c with
      | nil => cases hbc
      | cons z zs =>
        rw [locationLe_cons_iff] at hab hbc ⊢
        rcases hab with ⟨rfl, hxy⟩ | ⟨hne, hxy⟩ <;> rcases hbc with ⟨rfl, hyz⟩ | ⟨hne', hyz⟩
        · exact Or.inl ⟨rfl, ih hxy hyz⟩
        · exact Or.inr ⟨hne', hyz⟩
        · exact Or.inr ⟨hne, hxy⟩
        · refine Or.inr ⟨?_, Text.le_trans hxy hyz⟩
          rintro rfl
          exact hne (Text.le_antisymm hxy hyz)

theorem locationLe_antisymm {a b : Location} (hab : locationLe a b) (hba : locationLe b a) :
    a = b := by
  induction a generalizing b with
  | nil =>
    cases b with
    | nil => rfl
    | cons _ _ => cases hba
  | cons x xs ih =>
    cases b with
    | nil => cases hab
    | cons y ys =>
      rw [locationLe_cons_iff] at hab hba
      rcases hab with ⟨rfl, hxy⟩ | ⟨hne, hxy⟩
      · rcases hba with ⟨_, hyx⟩ | ⟨hne, _⟩
        · rw [ih hxy hyx]
        · exact absurd rfl hne
      · rcases hba with ⟨rfl, _⟩ | ⟨_, hyx⟩
        · exact absurd rfl hne
        · exact absurd (Text.le_antisymm hxy hyx) hne

theorem sorted_mergeSort (as : List Location) :
    (as.mergeSort locationLe).Pairwise fun a b => locationLe a b :=
  @List.pairwise_mergeSort _ locationLe (fun _ _ _ => locationLe_trans)
    (fun a b => by rw [Bool.or_eq_true]; exact locationLe_total a b) as

/-- Sorting forgets the order in which locations were found. -/
theorem mergeSort_eq_of_perm {as bs : List Location} (h : as.Perm bs) :
    as.mergeSort locationLe = bs.mergeSort locationLe :=
  List.Perm.eq_of_pairwise (fun _ _ _ _ => locationLe_antisymm) (sorted_mergeSort as)
    (sorted_mergeSort bs) (((List.mergeSort_perm as _).trans h).trans (List.mergeSort_perm bs _).symm)

/-- Locations that differ are in lexicographic order, name by name. -/
theorem lt_of_locationLe {a b : Location} (h : locationLe a b) (hne : a ≠ b) : a < b := by
  induction a generalizing b with
  | nil =>
    obtain ⟨n, ns, rfl⟩ := List.exists_cons_of_ne_nil (Ne.symm hne)
    exact List.nil_lt_cons n ns
  | cons x xs ih =>
    cases b with
    | nil => cases h
    | cons y ys =>
      rw [List.cons_lt_cons_iff]
      rcases locationLe_cons_iff.1 h with ⟨rfl, hle⟩ | ⟨hxy, hle⟩
      · exact Or.inr ⟨rfl, ih hle fun heq => hne (congrArg (x :: ·) heq)⟩
      · exact Or.inl (Text.lt_of_le hle hxy)

variable {t : FileTree} {isSkipped : Text → Bool} {l names : Location} {k : Nat}

/-- A file below a directory, and not within one that is skipped. -/
def FileBelow (t : FileTree) (isSkipped : Text → Bool) (l names : Location) : Prop :=
  names ≠ [] ∧ (∃ c, t.lookup (l ++ names) = some (.file c)) ∧ ∀ m ∈ names.dropLast, ¬ isSkipped m

theorem mem_filesBelow_iff :
    names ∈ filesBelow t isSkipped k l ↔ FileBelow t isSkipped l names ∧ names.length ≤ k := by
  -- on the number of levels that may still be looked at
  induction k generalizing l names with
  | zero =>
    cases names with
    | nil => simp [filesBelow, FileBelow]
    | cons n ns => simp [filesBelow]
  | succ k ih =>
    rw [filesBelow, List.mem_flatMap]
    constructor
    · rintro ⟨n, hn, hnames⟩
      split at hnames
      · rename_i hdir
        split at hnames
        · cases hnames
        · rename_i hskip
          obtain ⟨ns, hns, rfl⟩ := List.mem_map.1 hnames
          obtain ⟨⟨hne, ⟨c, hc⟩, hskips⟩, hlength⟩ := ih.1 hns
          rw [List.append_assoc] at hc
          refine ⟨⟨List.cons_ne_nil n ns, ⟨c, hc⟩, ?_⟩, Nat.succ_le_succ hlength⟩
          intro m hm
          rw [List.dropLast_cons_of_ne_nil hne] at hm
          rcases List.mem_cons.1 hm with rfl | hm
          · exact hskip
          · exact hskips m hm
      · rename_i c hfile
        rw [List.mem_singleton.1 hnames]
        exact ⟨⟨by simp, ⟨c, hfile⟩, by simp⟩, by simp⟩
      · cases hnames
    · rintro ⟨⟨hne, ⟨c, hc⟩, hskips⟩, hlength⟩
      obtain ⟨n, ns, rfl⟩ := List.exists_cons_of_ne_nil hne
      by_cases hns : ns = []
      · subst hns
        refine ⟨n, FileTree.mem_children_iff.2 ⟨_, hc⟩, ?_⟩
        rw [hc]
        simp
      · -- the first name is that of a directory, in which the other names lead to the file
        rw [List.append_cons] at hc
        have hdir : t.lookup (l ++ [n]) = some .directory :=
          @lookup_of_append ⟨t, []⟩ (l ++ [n]) _ ns hc hns
        rw [List.dropLast_cons_of_ne_nil hns] at hskips
        refine ⟨n, FileTree.mem_children_iff.2 ⟨_, hdir⟩, ?_⟩
        rw [hdir]
        dsimp only
        rw [if_neg (hskips n List.mem_cons_self)]
        refine List.mem_map.2 ⟨ns, ih.2 ⟨⟨hns, ⟨c, hc⟩, ?_⟩, Nat.le_of_succ_le_succ hlength⟩, rfl⟩
        exact fun m hm => hskips m (List.mem_cons_of_mem n hm)

theorem nodup_filesBelow : (filesBelow t isSkipped k l).Nodup := by
  -- what is found under two names differs by the first of the names
  have hdisjoint {f : Text → List Location} (hf : ∀ n, ∀ names ∈ f n, names.head? = some n)
      (l : Location) : (t.children l).Pairwise (Function.onFun List.Disjoint f) := by
    refine FileTree.nodup_children.imp ?_
    intro n m hnm names hn hm
    exact hnm (Option.some.inj ((hf n names hn).symm.trans (hf m names hm)))
  induction k generalizing l with
  | zero => exact List.nodup_nil
  | succ k ih =>
    rw [filesBelow, List.nodup_flatMap]
    constructor
    · intro n _
      split
      · split
        · exact List.nodup_nil
        · exact ih.map fun _ _ h => (List.cons.inj h).2
      · exact List.nodup_singleton _
      · exact List.nodup_nil
    · refine hdisjoint (fun n names h => ?_) l
      split at h
      · split at h
        · cases h
        · obtain ⟨ns, _, rfl⟩ := List.mem_map.1 h
          rfl
      · rw [List.mem_singleton.1 h]
        rfl
      · cases h

/-- A document below a directory: a file with the extension, and not within a skipped directory. -/
def DocumentBelow (w : Workspace) (extension : Text) (skipped : List Text) (l names : Location) :
    Prop :=
  FileBelow w.tree (fun n => skipped.contains n) l names ∧ (ofNames names).hasExtension extension

variable {w w' : Workspace} {input : Path} {extension : Text} {skipped : List Text}

/-- The names of the documents below a directory, in order. -/
def namesBelow (w : Workspace) (extension : Text) (skipped : List Text) (l : Location) :
    List Location :=
  ((filesBelow w.tree (fun n => skipped.contains n) (w.tree.depth + 1) l).filter fun names =>
    (ofNames names).hasExtension extension).mergeSort locationLe

theorem mem_namesBelow_iff :
    names ∈ namesBelow w extension skipped l ↔ DocumentBelow w extension skipped l names := by
  unfold namesBelow DocumentBelow
  rw [List.mem_mergeSort, List.mem_filter, mem_filesBelow_iff]
  refine and_congr_left fun _ => and_iff_left_of_imp ?_
  -- the bound on the depth is no bound: no location has more names than the tree is deep
  rintro ⟨_, ⟨c, hc⟩, _⟩
  have hdepth := FileTree.length_le_depth hc
  rw [List.length_append] at hdepth
  omega

theorem nodup_namesBelow : (namesBelow w extension skipped l).Nodup :=
  (List.mergeSort_perm _ _).nodup_iff.2 (nodup_filesBelow.filter _)

theorem sorted_namesBelow : (namesBelow w extension skipped l).Pairwise (· < ·) :=
  ((sorted_mergeSort _).and nodup_namesBelow).imp fun h => lt_of_locationLe h.1 h.2

theorem namesBelow_congr
    (h : ∀ names, DocumentBelow w' extension skipped l names ↔
      DocumentBelow w extension skipped l names) :
    namesBelow w' extension skipped l = namesBelow w extension skipped l := by
  refine mergeSort_eq_of_perm ((List.perm_ext_iff_of_nodup (nodup_filesBelow.filter _)
    (nodup_filesBelow.filter _)).2 fun names => ?_)
  have hmem := h names
  rw [← mem_namesBelow_iff, ← mem_namesBelow_iff] at hmem
  unfold namesBelow at hmem
  rwa [List.mem_mergeSort, List.mem_mergeSort] at hmem

/-- A document is found under names that all are names of files, the last with the extension. -/
theorem DocumentBelow.exists_name (h : DocumentBelow w extension skipped l names) :
    ∃ init n stem, names = init ++ [n] ∧ (∀ m ∈ names, IsName m) ∧
      splitExtension n = (stem, some extension) := by
  obtain ⟨⟨hne, ⟨c, hc⟩, _⟩, hextension⟩ := h
  have hnames : ∀ m ∈ names, IsName m := fun m hm =>
    FileTree.isName_of_lookup hc m (List.mem_append_right l hm)
  obtain ⟨init, n, rfl⟩ : ∃ init n, names = init ++ [n] :=
    ⟨_, _, (List.dropLast_concat_getLast hne).symm⟩
  obtain ⟨stem, hstem⟩ := (hasExtension_iff
    (segments_ofNames (by simp) fun m hm => isSegment_of_isName (hnames m hm))
    (not_isFiller (hnames n (by simp))) (hnames n (by simp)).ne_dots).1 hextension
  exact ⟨init, n, stem, rfl, hnames, hstem⟩

/-- The paths of documents tell their names apart. -/
theorem document_injective {names' : Location} (hne : names ≠ []) (hne' : names' ≠ [])
    (h : ∀ n ∈ names, IsName n) (h' : ∀ n ∈ names', IsName n)
    (heq : document input names = document input names') : names = names' := by
  have hrelative : ofNames names = ofNames names' := congrArg SourceDocument.relative heq
  rw [← segments_ofNames hne fun n hn => isSegment_of_isName (h n hn), hrelative,
    segments_ofNames hne' fun n hn => isSegment_of_isName (h' n hn)]

theorem nodup_documents :
    ((namesBelow w extension skipped l).map (document input)).Nodup := by
  refine List.Nodup.map_on ?_ nodup_namesBelow
  intro names hm names' hm' heq
  have hb : DocumentBelow w extension skipped l names := mem_namesBelow_iff.1 hm
  have hb' : DocumentBelow w extension skipped l names' := mem_namesBelow_iff.1 hm'
  obtain ⟨_, _, _, _, hnames, _⟩ := hb.exists_name
  obtain ⟨_, _, _, _, hnames', _⟩ := hb'.exists_name
  exact document_injective hb.1.1 hb'.1.1 hnames hnames' heq

/-- No document is found twice. -/
theorem nodup_run {scan : Scan} (h : run w input extension skipped = .ok scan) :
    scan.documents.Nodup := by
  unfold run at h
  split at h
  · cases h
  · split at h
    · obtain rfl := Except.ok.inj h
      exact nodup_documents
    · split at h
      · cases h
      · obtain rfl := Except.ok.inj h
        exact List.nodup_singleton _

/-- The documents below a directory are found with their names. -/
theorem run_directory (h : w.isDirectory input) :
    ∃ l, w.resolve input = .ok l ∧ w.tree.lookup l = some .directory ∧
      run w input extension skipped =
        .ok ⟨input, (namesBelow w extension skipped l).map (document input)⟩ := by
  unfold Workspace.isDirectory entry? at h
  cases hr : w.resolve input with
  | error e => simp [hr] at h
  | ok l =>
    have hdir : w.tree.lookup l = some .directory := by
      rw [hr] at h
      dsimp only at h
      cases he : w.tree.lookup l with
      | none => simp [he] at h
      | some e =>
        cases e with
        | directory => rfl
        | file c => simp [he, Entry.isDirectory] at h
    refine ⟨l, rfl, hdir, ?_⟩
    rw [run, hr]
    simp only [FileTree.isDirectory, hdir, decide_true, if_true]
    rfl

/-- A scan finds the same again, if no document is among the files that have changed. -/
theorem run_grown {pages : Location → Prop} (h : Grown pages w w') (hdir : w.isDirectory input)
    (hpages : ∀ l names, (∀ n ∈ names, IsName n) → pages (l ++ names) →
      ¬ (ofNames names).hasExtension extension) :
    run w' input extension skipped = run w input extension skipped := by
  obtain ⟨l, hl, _, hrun⟩ := @run_directory w input extension skipped hdir
  obtain ⟨l', hl', _, hrun'⟩ := @run_directory w' input extension skipped (h.isDirectory hdir)
  obtain rfl : l = l' := Except.ok.inj ((h.resolve hl).symm.trans hl')
  rw [hrun, hrun', namesBelow_congr fun names => ?_]
  refine and_congr_left fun hextension => ?_
  have hsame : (∃ c, w'.tree.lookup (l ++ names) = some (.file c)) ↔
      ∃ c, w.tree.lookup (l ++ names) = some (.file c) := by
    by_cases hnames : ∀ n ∈ names, IsName n
    · exact exists_congr fun c => h.same _ c fun hp => hpages l names hnames hp hextension
    · -- nothing has a name that is none
      have hnone {v : Workspace} : ¬ ∃ c, v.tree.lookup (l ++ names) = some (.file c) := by
        rintro ⟨c, hc⟩
        exact hnames fun n hn => FileTree.isName_of_lookup hc n (List.mem_append_right l hn)
      exact iff_of_false hnone hnone
  unfold FileBelow
  rw [hsame]

end Folio.Scan
