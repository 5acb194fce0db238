import Folio.Text.Basic

/-! Paths as they are written. A path keeps its spelling; two spellings are compared by their
components. Repeated and trailing slashes and dots other than a leading one are no components. -/
namespace Folio

structure Path where
  text : Text
deriving DecidableEq, Repr, Inhabited

namespace Path

inductive Component
  | root
  | current
  | parent
  | name (n : Text)
deriving DecidableEq, Repr

def ofString (s : String) : Path := ⟨s.toList⟩

def empty : Path := ⟨[]⟩

def isEmpty (p : Path) : Bool := p.text.isEmpty

def isAbsolute (p : Path) : Bool := p.text.head? = some '/'

/-- What stands between the slashes. -/
def segments (p : Path) : List Text := Text.splitOn '/' p.text

theorem joinWith_segments (p : Path) : Text.joinWith ['/'] p.segments = p.text :=
  Text.joinWith_splitOn '/' p.text

/-- A segment that names nothing unless it comes first. -/
def isFiller (s : Text) : Bool := s.isEmpty || s = ['.']

def dropFillersEnd (segments : List Text) : List Text :=
  (segments.reverse.dropWhile isFiller).reverse

theorem dropFillersEnd_append (segments : List Text) :
    ∃ fillers, segments = dropFillersEnd segments ++ fillers :=
  ⟨(segments.reverse.takeWhile isFiller).reverse, by
    rw [dropFillersEnd, ← List.reverse_append, List.takeWhile_append_dropWhile,
      List.reverse_reverse]⟩

def componentOf (s : Text) : Component := if s = ['.', '.'] then .parent else .name s

def components (p : Path) : List Component :=
  match p.segments with
  | [] => []
  | first :: rest =>
    (if first.isEmpty then if p.isAbsolute then [.root] else []
      else if first = ['.'] then [.current] else [componentOf first])
      ++ (rest.filter fun s => !isFiller s).map componentOf

/-- The spelling up to and with the last component. -/
def trimmed (p : Path) : Text :=
  match p.segments with
  | [] => []
  | first :: rest => Text.joinWith ['/'] (first :: dropFillersEnd rest)

/-- The last component if it is a name. -/
def fileName? (p : Path) : Option Text :=
  match p.components.getLast? with
  | some (.name n) => some n
  | _ => none

/-- A file name before and after its last dot; a name that only starts with one has no extension. -/
def splitExtension (name : Text) : Text × Option Text :=
  match Text.splitFirst? (· = '.') name.reverse with
  | some (after, before) =>
    if before.isEmpty then (name, none) else (before.reverse, some after.reverse)
  | none => (name, none)

def stem? (p : Path) : Option Text := p.fileName?.map fun n => (splitExtension n).1

def extension? (p : Path) : Option Text := p.fileName?.bind fun n => (splitExtension n).2

def hasExtension (p : Path) (extension : Text) : Bool := p.extension? = some extension

/-- The path without its last component; a root and an empty path have none. -/
def parent? (p : Path) : Option Path :=
  match p.segments with
  | [] => none
  | first :: rest =>
    match (dropFillersEnd rest).reverse with
    | [] => if first.isEmpty then none else some empty
    | _ :: before =>
      let kept := dropFillersEnd before.reverse
      if kept.isEmpty && first.isEmpty then some ⟨['/']⟩
      else some ⟨Text.joinWith ['/'] (first :: kept)⟩

theorem parent?_length {p q : Path} (h : p.parent? = some q) : q.text.length < p.text.length := by
  have hp := p.joinWith_segments
  unfold parent? at h
  split at h
  · cases h
  · rename_i first rest hs
    rw [hs] at hp
    split at h
    · split at h
      · cases h
      · rename_i hf
        cases h
        have hne : first ≠ [] := by simpa using hf
        have := List.length_pos_iff.2 hne
        rw [← hp]
        cases rest with
        | nil => exact this
        | cons r rs =>
          rw [Text.joinWith_cons (by simp)]
          simp only [empty, List.length_append, List.length_cons, List.length_nil]
          omega
    · rename_i x before hr
      obtain ⟨fillers, hf⟩ := dropFillersEnd_append rest
      obtain ⟨more, hm⟩ := dropFillersEnd_append before.reverse
      have hd : dropFillersEnd rest = before.reverse ++ [x] := by
        rw [← List.reverse_reverse (dropFillersEnd rest), hr, List.reverse_cons]
      have hx : x ≠ [] := by
        unfold dropFillersEnd at hr
        rw [List.reverse_reverse] at hr
        rintro rfl
        have := List.head?_dropWhile_not isFiller rest.reverse
        simp [hr, isFiller] at this
      have hj : p.text = Text.joinWith ['/'] (first :: dropFillersEnd before.reverse) ++ ['/']
          ++ Text.joinWith ['/'] (more ++ x :: fillers) := by
        rw [← hp, ← Text.joinWith_append (by simp) (by simp)]
        congr 1
        rw [hf, hd, List.cons_append]
        conv => lhs; rw [hm]
        simp
      dsimp only at h
      split at h
      · cases h
        rw [hj]
        have : 0 < (Text.joinWith ['/'] (more ++ x :: fillers)).length := by
          cases more with
          | nil =>
            have := List.length_pos_iff.2 hx
            cases fillers with
            | nil => exact this
            | cons f fs =>
              rw [List.nil_append, Text.joinWith_cons (by simp)]
              simp only [List.length_append]
              omega
          | cons m ms =>
            rw [List.cons_append, Text.joinWith_cons (by simp)]
            simp only [List.length_append, List.length_cons, List.length_nil]
            omega
        simp only [List.length_append, List.length_cons, List.length_nil]
        omega
      · cases h
        rw [hj]
        simp only [List.length_append, List.length_cons, List.length_nil]
        omega

/-- A path read from another; an absolute one stands for itself. -/
def join (p q : Path) : Path :=
  if q.isAbsolute then q
  else if p.isEmpty || p.text.getLast? = some '/' then ⟨p.text ++ q.text⟩
  else ⟨p.text ++ '/' :: q.text⟩

/-- The path with another extension, or one, after the stem of its file name. -/
def setExtension (p : Path) (extension : Text) : Path :=
  match p.fileName? with
  | none => p
  | some n =>
    let start := p.trimmed.take (p.trimmed.length - n.length)
    let stem := (splitExtension n).1
    ⟨start ++ stem ++ (if extension.isEmpty then [] else '.' :: extension)⟩

/-- The path with another extension on its file name. It is set on the path without the old one, and
where that ends in two dots there is no file name left to set it on. -/
def withExtension (p : Path) (extension : Text) : Path :=
  let old := p.extension?.getD []
  setExtension ⟨p.text.take (p.text.length - old.length)⟩ extension

/-- A path of names from where it is read. -/
def ofNames (names : List Text) : Path := ⟨Text.joinWith ['/'] names⟩

end Path
end Folio
