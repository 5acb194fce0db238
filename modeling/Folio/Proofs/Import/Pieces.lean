import Folio.Document.Import

namespace Folio.Import

/-- What a node is for the expansion, before the chain and the text of a file are looked at. -/
inductive Role
  | dropped (log : List Warning)
  | kept
  | stylesheet (reference : Text)
  | document (path : Path) (location : Location)

/-- The text of an import; an import of any other form has the empty reference. -/
def reference (n : Node) : Text := n.text?.getD []

def role (extension : Text) (w : Workspace) (base : Path) (n : Node) : Role :=
  if n.kind = Kind.importable then .dropped []
  else if n.kind = Kind.importKind then
    match classify (reference n) extension with
    | .stylesheet => .stylesheet (reference n)
    | .unsupported => .dropped [.unsupportedImport (reference n)]
    | .document path =>
      match w.resolve (base.join path) with
      | .error fault => .dropped [.importNotFound (base.join path) fault]
      | .ok l => .document path l
  else .kept

theorem role_eq_document_iff {extension : Text} {w : Workspace} {base path : Path} {n : Node}
    {l : Location} :
    role extension w base n = .document path l ↔
      n.kind = Kind.importKind ∧ classify (reference n) extension = .document path ∧
        w.resolve (base.join path) = .ok l := by
  have hkinds : Kind.importKind ≠ Kind.importable := by decide
  unfold role
  by_cases hi : n.kind = Kind.importKind
  · rw [if_neg (by rw [hi]; exact hkinds), if_pos hi]
    cases hc : classify (reference n) extension with
    | stylesheet => simp
    | unsupported => simp
    | document p => cases hr : w.resolve (base.join p) <;> grind
  · simp only [hi, if_false, false_and, iff_false]
    split <;> simp

/-- The role of a node depends on where the document that it imports is found. -/
theorem role_congr {extension : Text} {w w' : Workspace} {base : Path} {n : Node}
    (h : n.kind = Kind.importKind → ∀ path, classify (reference n) extension = .document path →
      w'.resolve (base.join path) = w.resolve (base.join path)) :
    role extension w' base n = role extension w base n := by
  unfold role
  split
  · rfl
  · split
    · rename_i hk
      cases hc : classify (reference n) extension with
      | stylesheet => rfl
      | unsupported => rfl
      | document path =>
        dsimp only
        rw [h hk path hc]
    · rfl

variable (r : Registry) (extension : Text) (w : Workspace)

/-- The piece that one node gives. -/
def piece (base within : Path) (chain : List Location) (n : Node) :
    Except CompileFault (List Node) :=
  match role extension w base n with
  | .dropped _ => .ok []
  | .kept => .ok [n]
  | .stylesheet reference => .ok [.scalar Kind.importKind (rebase within reference)]
  | .document path l =>
    if l ∈ chain then .error (.importCycle (chain ++ [l]))
    else match w.readAt l with
      | .error _ => .ok []
      | .ok source =>
        (expand r extension w (Workspace.pathOf l.dropLast) (nested within path) (chain ++ [l])
          (nodesOf r source).value).value

theorem expand_nil (base within : Path) (chain : List Location) :
    (expand r extension w base within chain []).value = .ok [] := by
  rw [expand]

/-- The warnings that one node gives. -/
def pieceLog (base within : Path) (chain : List Location) (n : Node) : List Warning :=
  match role extension w base n with
  | .dropped log => log
  | .kept => []
  | .stylesheet _ => []
  | .document path l =>
    if l ∈ chain then []
    else match w.readAt l with
      | .error fault => [.importUnreadable (Workspace.pathOf l) fault]
      | .ok source => (nodesOf r source).log ++
        (expand r extension w (Workspace.pathOf l.dropLast) (nested within path) (chain ++ [l])
          (nodesOf r source).value).log

/-- The piece and the warnings of the first node come before those of the others; a piece that fails
is the end. -/
theorem expand_cons_logged (base within : Path) (chain : List Location) (n : Node) (ns : List Node) :
    expand r extension w base within chain (n :: ns) =
      match piece r extension w base within chain n with
      | .error fault => ⟨.error fault, pieceLog r extension w base within chain n⟩
      | .ok xs => ⟨(expand r extension w base within chain ns).value.map (xs ++ ·),
        pieceLog r extension w base within chain n ++
          (expand r extension w base within chain ns).log⟩ := by
  rw [expand]
  unfold piece pieceLog role reference
  by_cases hf : n.kind = Kind.importable
  · simp only [hf, if_true]
  · rw [if_neg hf, if_neg hf]
    by_cases hi : n.kind = Kind.importKind
    · rw [if_pos hi, if_pos hi]
      cases hc : classify (n.text?.getD []) extension with
      | stylesheet => simp only [hc]
      | unsupported => simp only [hc]
      | document path =>
        simp only [hc]
        cases hl : w.resolve (base.join path) with
        | error fault => rfl
        | ok l =>
          by_cases hm : l ∈ chain
          · simp only [hm, dite_true, if_true]
          · simp only [hm, dite_false, if_false]
            -- the reading is matched with its equation, which the termination needs
            split
            · simp only [*]
            · rename_i source hs
              cases hinner : (expand r extension w (Workspace.pathOf l.dropLast) (nested within path)
                (chain ++ [l]) (nodesOf r source).value).value with
              | error fault => simp only [hs, hinner]
              | ok expanded => simp only [hs, hinner]
    · rw [if_neg hi, if_neg hi]

theorem expand_cons (base within : Path) (chain : List Location) (n : Node) (ns : List Node) :
    (expand r extension w base within chain (n :: ns)).value =
      (piece r extension w base within chain n).bind fun xs =>
        (expand r extension w base within chain ns).value.map (xs ++ ·) := by
  rw [expand_cons_logged]
  cases piece r extension w base within chain n <;> rfl

variable {r extension w} {base within : Path} {chain : List Location} {n : Node} {ns : List Node}

theorem expand_cons_of_ok {xs : List Node} (h : piece r extension w base within chain n = .ok xs) :
    (expand r extension w base within chain (n :: ns)).value =
      (expand r extension w base within chain ns).value.map (xs ++ ·) := by
  rw [expand_cons, h]
  rfl

theorem expand_cons_of_error {fault : CompileFault}
    (h : piece r extension w base within chain n = .error fault) :
    (expand r extension w base within chain (n :: ns)).value = .error fault := by
  rw [expand_cons, h]
  rfl

theorem expand_cons_ok_iff {zs : List Node} :
    (expand r extension w base within chain (n :: ns)).value = .ok zs ↔
      ∃ xs ys, piece r extension w base within chain n = .ok xs ∧
        (expand r extension w base within chain ns).value = .ok ys ∧ zs = xs ++ ys := by
  cases hp : piece r extension w base within chain n with
  | error fault => simp [expand_cons_of_error hp]
  | ok xs =>
    rw [expand_cons_of_ok hp]
    cases (expand r extension w base within chain ns).value with
    | error fault => simp [Except.map]
    | ok ys => simp [Except.map, eq_comm]

theorem expand_cons_error {fault : CompileFault}
    (h : (expand r extension w base within chain (n :: ns)).value = .error fault) :
    piece r extension w base within chain n = .error fault ∨
      (expand r extension w base within chain ns).value = .error fault := by
  cases hp : piece r extension w base within chain n with
  | error f =>
    rw [expand_cons_of_error hp] at h
    exact Or.inl h
  | ok xs =>
    rw [expand_cons_of_ok hp] at h
    cases hn : (expand r extension w base within chain ns).value with
    | error f =>
      rw [hn] at h
      exact Or.inr h
    | ok ys =>
      rw [hn] at h
      cases h

/-- The nodes of two parts are expanded apart. -/
theorem expand_append (ms : List Node) :
    (expand r extension w base within chain (ns ++ ms)).value =
      (expand r extension w base within chain ns).value.bind fun xs =>
        (expand r extension w base within chain ms).value.map (xs ++ ·) := by
  induction ns with
  | nil =>
    rw [expand_nil, List.nil_append]
    cases (expand r extension w base within chain ms).value <;> rfl
  | cons n ns ih =>
    rw [List.cons_append, expand_cons, expand_cons, ih]
    cases piece r extension w base within chain n with
    | error fault => rfl
    | ok xs =>
      cases (expand r extension w base within chain ns).value with
      | error fault => rfl
      | ok ys =>
        cases (expand r extension w base within chain ms).value with
        | error fault => rfl
        | ok zs =>
          change Except.ok (xs ++ (ys ++ zs)) = Except.ok (xs ++ ys ++ zs)
          rw [List.append_assoc]

theorem piece_dropped {log : List Warning} (hr : role extension w base n = .dropped log) :
    piece r extension w base within chain n = .ok [] := by
  unfold piece
  simp only [hr]

theorem piece_kept (hr : role extension w base n = .kept) :
    piece r extension w base within chain n = .ok [n] := by
  unfold piece
  simp only [hr]

theorem piece_stylesheet {t : Text} (hr : role extension w base n = .stylesheet t) :
    piece r extension w base within chain n =
      .ok [.scalar Kind.importKind (rebase within t)] := by
  unfold piece
  simp only [hr]

section Document

variable {path : Path} {l : Location}

theorem piece_cycle (hr : role extension w base n = .document path l) (hl : l ∈ chain) :
    piece r extension w base within chain n = .error (.importCycle (chain ++ [l])) := by
  unfold piece
  simp only [hr, hl, if_true]

theorem piece_unreadable {fault : FileFault} (hr : role extension w base n = .document path l)
    (hl : l ∉ chain) (hs : w.readAt l = .error fault) :
    piece r extension w base within chain n = .ok [] := by
  unfold piece
  simp only [hr, hl, if_false, hs]

theorem piece_document {source : Text} (hr : role extension w base n = .document path l)
    (hl : l ∉ chain) (hs : w.readAt l = .ok source) :
    piece r extension w base within chain n =
      (expand r extension w (Workspace.pathOf l.dropLast) (nested within path) (chain ++ [l])
        (nodesOf r source).value).value := by
  unfold piece
  simp only [hr, hl, if_false, hs]

/-- A node gives the same in two workspaces if it has the same role in both, and the document that it
imports the same text and the same expansion. -/
theorem piece_congr {w' : Workspace} (hrole : role extension w' base n = role extension w base n)
    (hread : ∀ path l, role extension w base n = .document path l → w'.readAt l = w.readAt l)
    (hinner : ∀ path l source, role extension w base n = .document path l → l ∉ chain →
      w.readAt l = .ok source →
      (expand r extension w' (Workspace.pathOf l.dropLast) (nested within path) (chain ++ [l])
        (nodesOf r source).value).value =
        (expand r extension w (Workspace.pathOf l.dropLast) (nested within path) (chain ++ [l])
          (nodesOf r source).value).value) :
    piece r extension w' base within chain n = piece r extension w base within chain n := by
  unfold piece
  rw [hrole]
  cases hr : role extension w base n with
  | dropped log => rfl
  | kept => rfl
  | stylesheet t => rfl
  | document path l =>
    dsimp only
    split
    · rfl
    · rename_i hl
      rw [hread path l hr]
      cases hs : w.readAt l with
      | error fault => rfl
      | ok source => exact hinner path l source hr hl hs

/-- Only an imported document can make a piece fail: it is on the chain, or its own nodes fail. -/
theorem piece_error {fault : CompileFault}
    (h : piece r extension w base within chain n = .error fault) :
    ∃ path l, role extension w base n = .document path l ∧
      ((l ∈ chain ∧ fault = .importCycle (chain ++ [l])) ∨
        (l ∉ chain ∧ ∃ source, w.readAt l = .ok source ∧
          (expand r extension w (Workspace.pathOf l.dropLast) (nested within path) (chain ++ [l])
            (nodesOf r source).value).value = .error fault)) := by
  cases hr : role extension w base n with
  | dropped log => cases (piece_dropped hr).symm.trans h
  | kept => cases (piece_kept hr).symm.trans h
  | stylesheet t => cases (piece_stylesheet hr).symm.trans h
  | document path l =>
    refine ⟨path, l, rfl, ?_⟩
    -- a location on the chain is reported before the file is read
    by_cases hl : l ∈ chain
    · rw [piece_cycle hr hl] at h
      exact Or.inl ⟨hl, (Except.error.inj h).symm⟩
    · cases hs : w.readAt l with
      | error f =>
        rw [piece_unreadable hr hl hs] at h
        cases h
      | ok source =>
        rw [piece_document hr hl hs] at h
        exact Or.inr ⟨hl, source, rfl, h⟩

end Document

variable (r extension w) in
/-- Induction along the expansion: on the nodes after the first, and on the nodes of the document
that the first one imports, with that document on the chain. -/
theorem expand_induction {motive : Path → Path → List Location → List Node → Prop}
    (nil : ∀ base within chain, motive base within chain [])
    (cons : ∀ base within chain n ns,
      (∀ path l source, role extension w base n = .document path l → l ∉ chain →
        w.readAt l = .ok source →
        motive (Workspace.pathOf l.dropLast) (nested within path) (chain ++ [l])
          (nodesOf r source).value) →
      motive base within chain ns → motive base within chain (n :: ns))
    (base within : Path) (chain : List Location) (ns : List Node) :
    motive base within chain ns := by
  -- on the files that are not on the chain, and for one chain on the nodes
  induction hk : unvisited w chain using Nat.strongRecOn generalizing base within chain ns with
  | _ k ih =>
    induction ns with
    | nil => exact nil base within chain
    | cons n ns ihns =>
      refine cons base within chain n ns ?_ ihns
      intro path l source _ hl hs
      exact ih _ (by rw [← hk]; exact unvisited_append_lt hs hl) _ _ _ _ rfl

/-- What is in an expansion was kept, of the nodes of some document, or is an import of a stylesheet. -/
theorem forall_expand {P Q : Node → Prop}
    (hdocument : ∀ l source, w.readAt l = .ok source → ∀ n ∈ (nodesOf r source).value, Q n)
    (hkept : ∀ base n, Q n → role extension w base n = .kept → P n)
    (hstylesheet : ∀ base within n t, role extension w base n = .stylesheet t →
      P (.scalar Kind.importKind (rebase within t)))
    (hns : ∀ n ∈ ns, Q n) {out : List Node}
    (h : (expand r extension w base within chain ns).value = .ok out) : ∀ n ∈ out, P n := by
  refine expand_induction r extension w (motive := fun base within chain ns => (∀ n ∈ ns, Q n) →
    ∀ out, (expand r extension w base within chain ns).value = .ok out → ∀ n ∈ out, P n)
    ?_ ?_ base within chain ns hns out h
  · intro base within chain _ out h
    rw [expand_nil] at h
    cases h
    simp
  · intro base within chain n ns ihdoc ihrest hns out h
    obtain ⟨hn, hns⟩ := List.forall_mem_cons.1 hns
    obtain ⟨xs, ys, hx, hy, rfl⟩ := expand_cons_ok_iff.1 h
    refine List.forall_mem_append.2 ⟨?_, ihrest hns ys hy⟩
    cases hr : role extension w base n with
    | dropped log =>
      cases (piece_dropped hr).symm.trans hx
      simp
    | kept =>
      cases (piece_kept hr).symm.trans hx
      exact List.forall_mem_singleton.2 (hkept base n hn hr)
    | stylesheet t =>
      cases (piece_stylesheet hr).symm.trans hx
      exact List.forall_mem_singleton.2 (hstylesheet base within n t hr)
    | document path l =>
      by_cases hl : l ∈ chain
      · cases (piece_cycle hr hl).symm.trans hx
      · cases hs : w.readAt l with
        | error fault =>
          cases (piece_unreadable hr hl hs).symm.trans hx
          simp
        | ok source =>
          rw [piece_document hr hl hs] at hx
          exact ihdoc path l source hr hl hs (hdocument l source hs) xs hx

end Folio.Import
