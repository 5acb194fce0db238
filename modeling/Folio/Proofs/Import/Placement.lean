import Folio.Proofs.Import.Pieces

namespace Folio.Import

/-- A node with the references of the imports that lead to the document it was written in, and the
directory of that document. -/
structure Placed where
  route : List Path
  directory : Path
  node : Node

/-- The directory of the document at the end of a route, as the first document refers to it. -/
def within (route : List Path) : Path := route.foldl nested .empty

theorem within_append (route : List Path) (path : Path) :
    within (route ++ [path]) = nested (within route) path := List.foldl_append

/-- What the expansion has for a node: the node itself, but for the reference of a stylesheet. -/
def Placed.left (p : Placed) : Node :=
  if p.node.kind = Kind.importKind then
    .scalar Kind.importKind (rebase (within p.route) (reference p.node))
  else p.node

/-- The nodes of a document, at the end of a route and in a directory, come to placed nodes: those
that are kept and those of the documents that they import. -/
inductive Unfolds (r : Registry) (extension : Text) (w : Workspace) :
    Path → List Path → List Node → List Placed → Prop
  | nil {base : Path} {route : List Path} : Unfolds r extension w base route [] []
  | dropped {base : Path} {route : List Path} {n : Node} {ns : List Node} {ps : List Placed}
      {log : List Warning} : role extension w base n = .dropped log →
      Unfolds r extension w base route ns ps → Unfolds r extension w base route (n :: ns) ps
  | kept {base : Path} {route : List Path} {n : Node} {ns : List Node} {ps : List Placed} :
      role extension w base n = .kept →
      Unfolds r extension w base route ns ps →
      Unfolds r extension w base route (n :: ns) (⟨route, base, n⟩ :: ps)
  | stylesheet {base : Path} {route : List Path} {n : Node} {ns : List Node} {ps : List Placed}
      {reference : Text} : role extension w base n = .stylesheet reference →
      Unfolds r extension w base route ns ps →
      Unfolds r extension w base route (n :: ns) (⟨route, base, n⟩ :: ps)
  | unreadable {base path : Path} {route : List Path} {n : Node} {ns : List Node}
      {ps : List Placed} {l : Location} {fault : FileFault} :
      role extension w base n = .document path l → w.readAt l = .error fault →
      Unfolds r extension w base route ns ps → Unfolds r extension w base route (n :: ns) ps
  | document {base path : Path} {route : List Path} {n : Node} {ns : List Node}
      {ps qs : List Placed} {l : Location} {source : Text} :
      role extension w base n = .document path l → w.readAt l = .ok source →
      Unfolds r extension w (Workspace.pathOf l.dropLast) (route ++ [path])
        (nodesOf r source).value qs →
      Unfolds r extension w base route ns ps → Unfolds r extension w base route (n :: ns) (qs ++ ps)

variable {r : Registry} {extension : Text} {w : Workspace} {base : Path} {route : List Path}
  {chain : List Location} {n : Node} {ns : List Node}

theorem kind_of_kept (h : role extension w base n = .kept) : n.kind ≠ Kind.importKind := by
  intro hk
  unfold role at h
  rw [if_neg (by rw [hk]; decide), if_pos hk] at h
  split at h
  · cases h
  · cases h
  · split at h <;> cases h

theorem stylesheet_of_role {t : Text} (h : role extension w base n = .stylesheet t) :
    n.kind = Kind.importKind ∧ t = reference n := by
  unfold role at h
  split at h
  · cases h
  · split at h
    · rename_i hk
      split at h
      · exact ⟨hk, (Role.stylesheet.inj h).symm⟩
      · cases h
      · split at h <;> cases h
    · cases h

variable (route) in
/-- A successful expansion is what the placed nodes leave. -/
theorem expand_placed {out : List Node}
    (h : (expand r extension w base (within route) chain ns).value = .ok out) :
    ∃ ps, Unfolds r extension w base route ns ps ∧ out = ps.map Placed.left := by
  suffices hall : ∀ base inside chain ns, ∀ route, inside = within route → ∀ out,
      (expand r extension w base inside chain ns).value = .ok out →
        ∃ ps, Unfolds r extension w base route ns ps ∧ out = ps.map Placed.left from
    hall base (within route) chain ns route rfl out h
  -- the route grows with every import, and the chain is arbitrary
  refine expand_induction r extension w ?_ ?_
  · intro base inside chain route _ out h
    rw [expand_nil] at h
    exact ⟨[], .nil, (Except.ok.inj h).symm⟩
  · intro base inside chain n ns ihdoc ihrest route hroute out h
    obtain ⟨xs, ys, hpiece, hrest, rfl⟩ := expand_cons_ok_iff.1 h
    obtain ⟨ps, hps, rfl⟩ := ihrest route hroute ys hrest
    cases hr : role extension w base n with
    | dropped log =>
      obtain rfl : [] = xs := Except.ok.inj ((piece_dropped hr).symm.trans hpiece)
      exact ⟨ps, .dropped hr hps, rfl⟩
    | kept =>
      obtain rfl : [n] = xs := Except.ok.inj ((piece_kept hr).symm.trans hpiece)
      refine ⟨_, .kept hr hps, ?_⟩
      rw [List.map_cons, Placed.left, if_neg (kind_of_kept hr)]
      rfl
    | stylesheet t =>
      obtain ⟨hk, rfl⟩ := stylesheet_of_role hr
      obtain rfl : [.scalar Kind.importKind (rebase inside (reference n))] = xs :=
        Except.ok.inj ((piece_stylesheet hr).symm.trans hpiece)
      refine ⟨_, .stylesheet hr hps, ?_⟩
      rw [List.map_cons, Placed.left, if_pos hk, hroute]
      rfl
    | document path l =>
      by_cases hl : l ∈ chain
      · rw [piece_cycle hr hl] at hpiece
        cases hpiece
      · cases hs : w.readAt l with
        | error fault =>
          rw [piece_unreadable hr hl hs] at hpiece
          obtain rfl : [] = xs := Except.ok.inj hpiece
          exact ⟨ps, .unreadable hr hs hps, rfl⟩
        | ok source =>
          rw [piece_document hr hl hs] at hpiece
          obtain ⟨qs, hqs, rfl⟩ := ihdoc path l source hr hl hs (route ++ [path])
            (by rw [within_append, hroute]) xs hpiece
          exact ⟨qs ++ ps, .document hr hs hqs hps, by rw [List.map_append]⟩

/-- What holds of the first route and directory, and after one more import, holds of all. -/
theorem Unfolds.forall_placed {P : List Path → Path → Prop} {ps : List Placed}
    (h : Unfolds r extension w base route ns ps) (hbase : P route base)
    (himport : ∀ route directory path l source, P route directory →
      w.resolve (directory.join path) = .ok l → w.readAt l = .ok source →
      P (route ++ [path]) (Workspace.pathOf l.dropLast)) : ∀ p ∈ ps, P p.route p.directory := by
  induction h with
  | nil => simp
  | dropped _ _ ih => exact ih hbase
  | kept _ _ ih => exact List.forall_mem_cons.2 ⟨hbase, ih hbase⟩
  | stylesheet _ _ ih => exact List.forall_mem_cons.2 ⟨hbase, ih hbase⟩
  | unreadable _ _ _ ih => exact ih hbase
  | document hr hs _ _ ihdoc ih =>
    obtain ⟨_, _, hl⟩ := role_eq_document_iff.1 hr
    exact List.forall_mem_append.2 ⟨ihdoc (himport _ _ _ _ _ hbase hl hs), ih hbase⟩

/-- Nodes unfold in one way. -/
theorem Unfolds.unique {ps qs : List Placed} (hp : Unfolds r extension w base route ns ps)
    (hq : Unfolds r extension w base route ns qs) : ps = qs := by
  induction hp generalizing qs with
  | nil =>
    cases hq
    rfl
  | dropped hr _ ih => cases hq <;> grind
  | kept hr _ ih => cases hq <;> grind
  | stylesheet hr _ ih => cases hq <;> grind
  | unreadable hr hs _ ih => cases hq <;> grind
  | document hr hs _ _ ihdoc ih => cases hq <;> grind

variable (route) in
/-- Two expansions of the same nodes that both succeed agree, with whatever chains. -/
theorem expand_chain {chain' : List Location} {xs ys : List Node}
    (hx : (expand r extension w base (within route) chain ns).value = .ok xs)
    (hy : (expand r extension w base (within route) chain' ns).value = .ok ys) : xs = ys := by
  obtain ⟨ps, hps, rfl⟩ := expand_placed route hx
  obtain ⟨qs, hqs, rfl⟩ := expand_placed route hy
  rw [hps.unique hqs]

end Folio.Import
