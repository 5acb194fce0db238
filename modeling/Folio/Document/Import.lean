import Folio.Document.Outline

/-! Imports. A document takes the place of the node that imports it, a stylesheet stays with its
reference read from the first document, and what cannot be imported leaves a warning. The locations
of the documents that are being expanded form a chain; one that comes up again is a cycle. -/
namespace Folio

inductive Reference
  | document (path : Path)
  | stylesheet
  | unsupported
deriving DecidableEq, Repr

namespace Import

def isStylesheetExtension (e : Text) : Bool := Text.eqIgnoreAsciiCase e "css".toList

def isStylesheet (reference : Text) : Bool :=
  (Path.mk reference).extension?.any isStylesheetExtension

/-- What a reference leads to; one without extension is a document. -/
def classify (reference extension : Text) : Reference :=
  match (Path.mk reference).extension? with
  | some e =>
    if isStylesheetExtension e then .stylesheet
    else if e = extension then .document ⟨reference⟩
    else .unsupported
  | none => .document ⟨reference ++ '.' :: extension⟩

/-- A reference with a scheme, or from the root. -/
def isFixed (reference : Text) : Bool :=
  reference.head? = some '/' || CommonMark.contains "://".toList reference

def plainComponent? : Path.Component → Option Text
  | .name n => some n
  | .parent => some ['.', '.']
  | .root => none
  | .current => none

/-- A stylesheet reference of a document in the directory `within`, read from where `within` is
read. -/
def rebase (within : Path) (reference : Text) : Text :=
  if isFixed reference || within.isEmpty then reference
  else Text.joinWith ['/'] (within.components.filterMap plainComponent? ++ [reference])

/-- The directory of a document that is imported into one in the directory `within`. -/
def nested (within : Path) (document : Path) : Path :=
  within.join (document.parent?.getD .empty)

/-- How many entries of the tree are not on the chain. -/
def unvisited (w : Workspace) (chain : List Location) : Nat :=
  (w.tree.entries.filter fun e => e.1 ∉ chain).length

theorem mem_of_readAt {w : Workspace} {l : Location} {t : Text} (h : w.readAt l = .ok t) :
    (l, Entry.file (.text t)) ∈ w.tree.entries := by
  unfold Workspace.readAt at h
  split at h <;> try cases h
  rename_i hl
  refine FileTree.mem_of_lookup hl ?_
  rintro rfl
  simp [FileTree.lookup] at hl

theorem length_filter_lt {es : List α} {p q : α → Bool} (hpq : ∀ x ∈ es, p x → q x)
    {y : α} (hy : y ∈ es) (hq : q y) (hp : ¬ p y) : (es.filter p).length < (es.filter q).length := by
  induction es with
  | nil => cases hy
  | cons x xs ih =>
    have hle : (xs.filter p).length ≤ (xs.filter q).length := by
      rw [← List.countP_eq_length_filter, ← List.countP_eq_length_filter]
      exact List.countP_mono_left fun z hz => hpq z (List.mem_cons_of_mem _ hz)
    rcases List.mem_cons.1 hy with rfl | hy
    · rw [List.filter_cons_of_pos hq, List.filter_cons_of_neg hp]
      exact Nat.lt_succ_of_le hle
    · have := ih (fun z hz => hpq z (List.mem_cons_of_mem _ hz)) hy
      have hx := hpq x List.mem_cons_self
      by_cases hpx : p x
      · rw [List.filter_cons_of_pos hpx, List.filter_cons_of_pos (hx hpx)]
        exact Nat.succ_lt_succ this
      · rw [List.filter_cons_of_neg hpx]
        by_cases hqx : q x
        · rw [List.filter_cons_of_pos hqx]
          exact Nat.lt_succ_of_lt this
        · rw [List.filter_cons_of_neg hqx]
          exact this

theorem unvisited_append_lt {w : Workspace} {l : Location} {t : Text} {chain : List Location}
    (h : w.readAt l = .ok t) (hl : l ∉ chain) :
    unvisited w (chain ++ [l]) < unvisited w chain := by
  refine length_filter_lt (fun e _ => ?_) (mem_of_readAt h) (by simpa using hl) (by simp)
  simp only [List.mem_append, List.mem_singleton, decide_eq_true_eq]
  exact fun hn hc => hn (Or.inl hc)

/-- Expand the imports among nodes of a document. References are read from `base`; `within` is the
directory of the document as the first document refers to it. -/
def expand (r : Registry) (extension : Text) (w : Workspace) (base within : Path)
    (chain : List Location) : List Node → Logged (Except CompileFault (List Node))
  | [] => ⟨.ok [], []⟩
  | n :: ns =>
    let rest := fun (first : List Node) (log : List Warning) =>
      let after := expand r extension w base within chain ns
      (⟨after.value.map (first ++ ·), log ++ after.log⟩ : Logged (Except CompileFault (List Node)))
    if n.kind = Kind.importable then rest [] []
    else if n.kind = Kind.importKind then
      let reference := n.text?.getD []
      match classify reference extension with
      | .stylesheet => rest [.scalar Kind.importKind (rebase within reference)] []
      | .unsupported => rest [] [.unsupportedImport reference]
      | .document path =>
        match w.resolve (base.join path) with
        | .error fault => rest [] [.importNotFound (base.join path) fault]
        | .ok l =>
          if _hl : l ∈ chain then ⟨.error (.importCycle (chain ++ [l])), []⟩
          else match _hr : w.readAt l with
            | .error fault => rest [] [.importUnreadable (Workspace.pathOf l) fault]
            | .ok source =>
              let nodes := nodesOf r source
              let inner := expand r extension w (Workspace.pathOf l.dropLast) (nested within path)
                (chain ++ [l]) nodes.value
              match inner.value with
              | .error fault => ⟨.error fault, nodes.log ++ inner.log⟩
              | .ok expanded => rest expanded (nodes.log ++ inner.log)
    else rest [n] []
termination_by ns => (unvisited w chain, ns.length)
decreasing_by
  all_goals first
    | exact Prod.Lex.left _ _ (unvisited_append_lt _hr _hl)
    | exact Prod.Lex.right _ (by simp)

/-- Expand all imports in the nodes of a document in a directory. -/
def resolve (r : Registry) (extension : Text) (w : Workspace) (base : Path) (chain : List Location)
    (nodes : List Node) : Logged (Except CompileFault (List Node)) :=
  expand r extension w base .empty chain nodes

end Import
end Folio
