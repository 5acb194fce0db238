import Folio.Text.Basic

/-! A finite tree of directories and files. The root always exists; every other entry lies in a
directory of the tree, has a name that a path can reach, and is there once.

Names are Unicode text. There are no symbolic or hard links, so that each file lies at one location,
and no special files such as sockets or pipes; everything may be read and written, and only a single
name, not a whole path, can be too long. -/
namespace Folio

/-- The names from the root down. -/
abbrev Location := List Text

instance Location.lawfulBEq : LawfulBEq Location := inferInstance

/-- What a file holds: text, or bytes that are no text. -/
inductive Content
  | text (t : Text)
  | bytes (b : List UInt8)
deriving DecidableEq, Repr

/-- Bytes are text if they are well-formed UTF-8. -/
def Content.ofBytes (b : List UInt8) : Content :=
  match String.fromUTF8? ⟨b.toArray⟩ with
  | some s => .text s.toList
  | none => .bytes b

inductive Entry
  | directory
  | file (content : Content)
deriving DecidableEq, Repr

def Entry.isDirectory : Entry → Bool
  | directory => true
  | file _ => false

def Entry.isFile : Entry → Bool
  | directory => false
  | file _ => true

/-- The longest name in bytes. -/
def maxNameSize : Nat := 255

/-- What an entry can be called. -/
def IsName (n : Text) : Prop :=
  n ≠ [] ∧ n ≠ ['.'] ∧ n ≠ ['.', '.'] ∧ '/' ∉ n ∧ Char.ofNat 0 ∉ n ∧ Text.byteSize n ≤ maxNameSize

instance (n : Text) : Decidable (IsName n) := by unfold IsName; infer_instance

structure FileTree where
  entries : List (Location × Entry)
  nodup : (entries.map Prod.fst).Nodup
  named : ∀ e ∈ entries, e.1 ≠ [] ∧ ∀ n ∈ e.1, IsName n
  closed : ∀ e ∈ entries, e.1.dropLast = [] ∨ (e.1.dropLast, Entry.directory) ∈ entries

namespace FileTree

def empty : FileTree := ⟨[], by simp, by simp, by simp⟩

instance : Inhabited FileTree := ⟨empty⟩

def lookup (t : FileTree) (l : Location) : Option Entry :=
  if l = [] then some .directory else (t.entries.find? fun e => e.1 = l).map Prod.snd

def isDirectory (t : FileTree) (l : Location) : Bool := t.lookup l = some .directory

theorem mem_of_lookup {t : FileTree} {l : Location} {e : Entry} (h : t.lookup l = some e)
    (hl : l ≠ []) : (l, e) ∈ t.entries := by
  unfold lookup at h
  rw [if_neg hl] at h
  obtain ⟨p, hp, rfl⟩ := Option.map_eq_some_iff.1 h
  have h1 := List.mem_of_find?_eq_some hp
  have h2 : p.1 = l := by simpa using List.find?_some hp
  subst h2
  exact h1

theorem snd_eq_of_nodup {es : List (Location × Entry)} (h : (es.map Prod.fst).Nodup)
    {l : Location} {e f : Entry} (he : (l, e) ∈ es) (hf : (l, f) ∈ es) : e = f := by
  induction es with
  | nil => cases he
  | cons p ps ih =>
    rw [List.map_cons, List.nodup_cons] at h
    have absent : ∀ g, (l, g) ∈ ps → l ∈ ps.map Prod.fst :=
      fun g hg => List.mem_map.2 ⟨_, hg, rfl⟩
    rcases List.mem_cons.1 he with h1 | h1 <;> rcases List.mem_cons.1 hf with h2 | h2
    · exact (Prod.mk.inj (h1.trans h2.symm)).2
    · exact absurd (absent f h2) (by rw [← h1] at h; exact h.1)
    · exact absurd (absent e h1) (by rw [← h2] at h; exact h.1)
    · exact ih h.2 h1 h2

theorem eq_of_mem {t : FileTree} {l : Location} {e f : Entry} (he : (l, e) ∈ t.entries)
    (hf : (l, f) ∈ t.entries) : e = f := snd_eq_of_nodup t.nodup he hf

theorem lookup_of_mem {t : FileTree} {l : Location} {e : Entry} (h : (l, e) ∈ t.entries) :
    t.lookup l = some e := by
  have hl : l ≠ [] := (t.named _ h).1
  unfold lookup
  rw [if_neg hl]
  cases hf : t.entries.find? (fun p => p.1 = l) with
  | none => simpa using List.find?_eq_none.1 hf _ h
  | some p =>
    have h1 := List.mem_of_find?_eq_some hf
    have h2 : p.1 = l := by simpa using List.find?_some hf
    subst h2
    simp [eq_of_mem h h1]

/-- An entry can be put at a location if its parent is a directory, and if it takes the place of
nothing, or a file that of a file. -/
def Admits (t : FileTree) (l : Location) (e : Entry) : Prop :=
  l ≠ [] ∧ (∀ n ∈ l, IsName n) ∧ t.lookup l.dropLast = some .directory
    ∧ (t.lookup l = none ∨ ((t.lookup l).any Entry.isFile ∧ e.isFile))

instance (t : FileTree) (l : Location) (e : Entry) : Decidable (t.Admits l e) := by
  unfold Admits; infer_instance

/-- The tree with an entry that it admits. -/
def put (t : FileTree) (l : Location) (e : Entry) (h : t.Admits l e) : FileTree where
  entries := (l, e) :: t.entries.filter fun p => p.1 ≠ l
  nodup := by
    simp only [List.map_cons, List.nodup_cons]
    refine ⟨by simp, ?_⟩
    exact t.nodup.sublist (List.filter_sublist.map Prod.fst)
  named := by
    intro p hp
    rcases List.mem_cons.1 hp with rfl | hp
    · exact ⟨h.1, h.2.1⟩
    · exact t.named p (List.mem_filter.1 hp).1
  closed := by
    have keep : ∀ d, d ≠ l → (d, Entry.directory) ∈ t.entries →
        (d, Entry.directory) ∈ (l, e) :: t.entries.filter fun p => p.1 ≠ l := by
      intro d hd hm
      exact List.mem_cons_of_mem _ (List.mem_filter.2 ⟨hm, by simpa using hd⟩)
    intro p hp
    rcases List.mem_cons.1 hp with rfl | hp
    · by_cases hr : l.dropLast = []
      · exact Or.inl hr
      · refine Or.inr (keep _ ?_ (mem_of_lookup h.2.2.1 hr))
        intro hc
        have h1 : l.length - 1 = l.length := by
          rw [← List.length_dropLast]; exact congrArg List.length hc
        have := List.length_pos_iff.2 h.1
        omega
    · obtain ⟨hm, hne⟩ := List.mem_filter.1 hp
      rcases t.closed p hm with hr | hd
      · exact Or.inl hr
      · by_cases hl : p.1.dropLast = l
        · rw [hl] at hd
          have hlook := lookup_of_mem hd
          rcases h.2.2.2 with h1 | ⟨h1, _⟩
          · rw [hlook] at h1; cases h1
          · rw [hlook] at h1; simp [Entry.isFile] at h1
        · exact Or.inr (keep _ hl hd)

/-- The tree without an entry and all that lies below it. -/
def erase (t : FileTree) (l : Location) : FileTree where
  entries := t.entries.filter fun p => !l.isPrefixOf p.1
  nodup := t.nodup.sublist (List.filter_sublist.map Prod.fst)
  named := fun p hp => t.named p (List.mem_filter.1 hp).1
  closed := by
    intro p hp
    obtain ⟨hm, hn⟩ := List.mem_filter.1 hp
    rcases t.closed p hm with hr | hd
    · exact Or.inl hr
    · refine Or.inr (List.mem_filter.2 ⟨hd, ?_⟩)
      simp only [Bool.not_eq_true', ← Bool.not_eq_true, List.isPrefixOf_iff_prefix] at hn ⊢
      exact fun hc => hn (hc.trans (List.dropLast_prefix _))

/-- The names of what lies right in a directory, in increasing order. -/
def children (t : FileTree) (l : Location) : List Text :=
  ((t.entries.filter fun p => p.1.dropLast = l).filterMap fun p => p.1.getLast?).mergeSort Text.le

/-- The greatest number of names in a location of the tree. -/
def depth (t : FileTree) : Nat := (t.entries.map fun p => p.1.length).foldl max 0

end FileTree
end Folio
