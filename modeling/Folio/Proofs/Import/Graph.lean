import Mathlib.Data.List.Chain
import Mathlib.Logic.Relation
import Folio.Document.Compiler
import Folio.Proofs.Import.Pieces

/-! The documents of a workspace form a graph by their imports. Expanding the imports of a document
follows the walks of that graph from it, and fails exactly if one of them comes back to a document
on the chain or on the walk itself. So a compilation fails exactly for a document that cannot be
read and for a cycle of imports that can be reached. -/
namespace Folio.Import

variable (r : Registry) (extension : Text) (w : Workspace)

/-- Nodes, with references read from a directory, lead to a readable file. -/
def Leads (base : Path) (ns : List Node) (q : Location) : Prop :=
  ∃ n ∈ ns, n.kind = Kind.importKind ∧
    ∃ path, classify (reference n) extension = .document path ∧
      w.resolve (base.join path) = .ok q ∧ ∃ text, w.readAt q = .ok text

/-- A readable document has an import that leads to a readable file. -/
def Imports (p q : Location) : Prop :=
  ∃ source, w.readAt p = .ok source ∧
    Leads extension w (Workspace.pathOf p.dropLast) (nodesOf r source).value q

/-- The documents along a way into the graph that starts at one of the nodes. -/
def Walk (base : Path) (ns : List Node) : List Location → Prop
  | [] => True
  | q :: qs => Leads extension w base ns q ∧ (q :: qs).IsChain (Imports r extension w)

/-- A cycle of imports can be reached from a document. -/
def ReachesCycle (p : Location) : Prop :=
  ∃ q, Relation.ReflTransGen (Imports r extension w) p q ∧
    Relation.TransGen (Imports r extension w) q q

/-- What is reported for a document: a way along imports that ends where it has been before, and
nowhere earlier. -/
structure IsCycleReport (p : Location) (chain : List Location) : Prop where
  starts : chain.head? = some p
  imports : chain.IsChain (Imports r extension w)
  distinct : chain.dropLast.Nodup
  returns : ∃ q, chain.getLast? = some q ∧ q ∈ chain.dropLast

variable {r extension w} {base within : Path} {chain : List Location} {n : Node} {ns : List Node}

theorem leads_cons_iff {q : Location} :
    Leads extension w base (n :: ns) q ↔
      (∃ path text, role extension w base n = .document path q ∧ w.readAt q = .ok text) ∨
        Leads extension w base ns q := by
  simp only [role_eq_document_iff]
  constructor
  · rintro ⟨m, hm, hk, path, hc, hq, text, ht⟩
    rcases List.mem_cons.1 hm with rfl | hm
    · exact Or.inl ⟨path, text, ⟨hk, hc, hq⟩, ht⟩
    · exact Or.inr ⟨m, hm, hk, path, hc, hq, text, ht⟩
  · rintro (⟨path, text, ⟨hk, hc, hq⟩, ht⟩ | ⟨m, hm, hlead⟩)
    · exact ⟨n, List.mem_cons_self, hk, path, hc, hq, text, ht⟩
    · exact ⟨m, List.mem_cons_of_mem n hm, hlead⟩

theorem Walk.cons_node {qs : List Location} (h : Walk r extension w base ns qs) :
    Walk r extension w base (n :: ns) qs := by
  cases qs with
  | nil => trivial
  | cons q qs => exact ⟨leads_cons_iff.2 (Or.inr h.1), h.2⟩

/-- A way on from a document is a way into the graph from its nodes. -/
theorem walk_nodes_iff {p : Location} {source : Text} {qs : List Location}
    (hp : w.readAt p = .ok source) :
    Walk r extension w (Workspace.pathOf p.dropLast) (nodesOf r source).value qs ↔
      (p :: qs).IsChain (Imports r extension w) := by
  cases qs with
  | nil => exact ⟨fun _ => List.isChain_singleton p, fun _ => trivial⟩
  | cons q qs =>
    rw [List.isChain_cons_cons]
    apply and_congr_left
    intro _
    constructor
    · exact fun h => ⟨source, hp, h⟩
    · rintro ⟨t, ht, h⟩
      obtain rfl : t = source := Except.ok.inj (ht.symm.trans hp)
      exact h

/-- Where the expansion succeeds, no walk comes to a document twice or to one on the chain. -/
theorem expand_ok_walk {xs : List Node} (h : (expand r extension w base within chain ns).value = .ok xs)
    {qs : List Location} (hw : Walk r extension w base ns qs) :
    qs.Nodup ∧ ∀ q ∈ qs, q ∉ chain := by
  revert xs qs
  refine expand_induction r extension w
    (motive := fun base within chain ns => ∀ {xs : List Node},
      (expand r extension w base within chain ns).value = .ok xs →
        ∀ {qs : List Location}, Walk r extension w base ns qs → qs.Nodup ∧ ∀ q ∈ qs, q ∉ chain)
    ?_ ?_ base within chain ns
  · intro base within chain xs _ qs hw
    cases qs with
    | nil => simp
    | cons q qs =>
      obtain ⟨⟨n, hn, _⟩, _⟩ := hw
      cases hn
  · intro base within chain n ns ihdoc ihrest xs h qs hw
    cases qs with
    | nil => simp
    | cons q qs =>
      obtain ⟨ys, zs, hpiece, hrest, _⟩ := expand_cons_ok_iff.1 h
      -- the walk goes through the first node, or starts at a later one
      rcases leads_cons_iff.1 hw.1 with ⟨path, text, hrole, htext⟩ | hlead
      · by_cases hq : q ∈ chain
        · rw [piece_cycle hrole hq] at hpiece
          cases hpiece
        · rw [piece_document hrole hq htext] at hpiece
          obtain ⟨hnodup, hfresh⟩ :=
            ihdoc path q text hrole hq htext hpiece ((walk_nodes_iff htext).2 hw.2)
          have hqs : q ∉ qs := fun hm => hfresh q hm (by simp)
          refine ⟨List.nodup_cons.2 ⟨hqs, hnodup⟩, ?_⟩
          intro x hx
          rcases List.mem_cons.1 hx with rfl | hx
          · exact hq
          · exact fun hc => hfresh x hx (List.mem_append_left _ hc)
      · exact ihrest hrest ⟨hlead, hw.2⟩

/-- Where the expansion fails, the chain was followed by a walk through new documents to one that
had been there before. -/
theorem expand_error_walk {fault : CompileFault} (hchain : ∀ q ∈ chain, ∃ text, w.readAt q = .ok text)
    (h : (expand r extension w base within chain ns).value = .error fault) :
    ∃ qs q, fault = .importCycle (chain ++ qs ++ [q]) ∧
      Walk r extension w base ns (qs ++ [q]) ∧ qs.Nodup ∧ (∀ x ∈ qs, x ∉ chain) ∧
      q ∈ chain ++ qs := by
  -- the chain grows with each document, so that what is known of it is part of the motive
  revert fault
  revert hchain
  refine expand_induction r extension w
    (motive := fun base within chain ns => (∀ q ∈ chain, ∃ text, w.readAt q = .ok text) →
      ∀ {fault : CompileFault}, (expand r extension w base within chain ns).value = .error fault →
        ∃ qs q, fault = .importCycle (chain ++ qs ++ [q]) ∧
          Walk r extension w base ns (qs ++ [q]) ∧ qs.Nodup ∧ (∀ x ∈ qs, x ∉ chain) ∧
          q ∈ chain ++ qs)
    ?_ ?_ base within chain ns
  · intro base within chain _ fault h
    rw [expand_nil] at h
    cases h
  · intro base within chain n ns ihdoc ihrest hchain fault h
    rcases expand_cons_error h with hpiece | hrest
    · obtain ⟨path, l, hrole, ⟨hl, rfl⟩ | ⟨hl, source, hsource, hinner⟩⟩ := piece_error hpiece
      · -- the first node closes the cycle
        obtain ⟨text, htext⟩ := hchain l hl
        refine ⟨[], l, by simp, ⟨?_, List.isChain_singleton l⟩, List.nodup_nil, by simp, by simpa⟩
        exact leads_cons_iff.2 (Or.inl ⟨path, text, hrole, htext⟩)
      · -- the cycle is closed below the document of the first node
        have hchain' : ∀ q ∈ chain ++ [l], ∃ text, w.readAt q = .ok text := by
          intro q hq
          rcases List.mem_append.1 hq with hq | hq
          · exact hchain q hq
          · rw [List.mem_singleton.1 hq]
            exact ⟨source, hsource⟩
        obtain ⟨qs, q, rfl, hwalk, hnodup, hfresh, hback⟩ :=
          ihdoc path l source hrole hl hsource hchain' hinner
        have hlqs : l ∉ qs := fun hm => hfresh l hm (by simp)
        refine ⟨l :: qs, q, by simp, ⟨?_, (walk_nodes_iff hsource).1 hwalk⟩,
          List.nodup_cons.2 ⟨hlqs, hnodup⟩, ?_, by simpa using hback⟩
        · exact leads_cons_iff.2 (Or.inl ⟨path, source, hrole, hsource⟩)
        · intro x hx
          rcases List.mem_cons.1 hx with rfl | hx
          · exact hl
          · exact fun hc => hfresh x hx (List.mem_append_left _ hc)
    · obtain ⟨qs, q, hfault, hwalk, hnodup, hfresh, hback⟩ := ihrest hchain hrest
      exact ⟨qs, q, hfault, hwalk.cons_node, hnodup, hfresh, hback⟩

/-- The expansion succeeds exactly if every walk from the nodes keeps to new documents. -/
theorem expand_isOk_iff (hchain : ∀ q ∈ chain, ∃ text, w.readAt q = .ok text) :
    (∃ xs, (expand r extension w base within chain ns).value = .ok xs) ↔
      ∀ qs, Walk r extension w base ns qs → qs.Nodup ∧ ∀ q ∈ qs, q ∉ chain := by
  constructor
  · rintro ⟨xs, h⟩ qs hw
    exact expand_ok_walk h hw
  · intro h
    cases hv : (expand r extension w base within chain ns).value with
    | ok xs => exact ⟨xs, rfl⟩
    | error fault =>
      obtain ⟨qs, q, _, hwalk, _, _, hback⟩ := expand_error_walk hchain hv
      obtain ⟨hnodup, hfresh⟩ := h _ hwalk
      -- the last document of the walk is on the chain, or it is on the walk before
      rcases List.mem_append.1 hback with hq | hq
      · exact absurd hq (hfresh q (by simp))
      · exact absurd rfl ((List.nodup_append.1 hnodup).2.2 q hq q (by simp))

section Cycle

variable {α : Type*} {edge : α → α → Prop}

theorem transGen_of_isChain {a b : α} {qs : List α} (h : (a :: (qs ++ [b])).IsChain edge) :
    Relation.TransGen edge a b := by
  induction qs generalizing a with
  | nil => exact .single (List.isChain_pair.1 h)
  | cons q qs ih =>
    rw [List.cons_append, List.isChain_cons_cons] at h
    exact .head h.1 (ih h.2)

theorem exists_cycle_of_not_nodup {a : α} {qs : List α} (h : (a :: qs).IsChain edge)
    (hd : ¬ (a :: qs).Nodup) :
    ∃ q, Relation.ReflTransGen edge a q ∧ Relation.TransGen edge q q := by
  induction qs generalizing a with
  | nil => exact absurd (by simp) hd
  | cons b qs ih =>
    by_cases ha : a ∈ b :: qs
    · -- the first element is the one that comes back
      obtain ⟨xs, ys, hsplit⟩ := List.append_of_mem ha
      rw [hsplit, List.append_cons, ← List.cons_append] at h
      exact ⟨a, .refl, transGen_of_isChain h.left_of_append⟩
    · rw [List.nodup_cons, not_and] at hd
      rw [List.isChain_cons_cons] at h
      obtain ⟨q, hreach, hcycle⟩ := ih h.2 (hd ha)
      exact ⟨q, .head h.1 hreach, hcycle⟩

/-- Where a cycle can be reached, a way leads to it and once around. -/
theorem exists_not_nodup_of_cycle {a q : α} (hreach : Relation.ReflTransGen edge a q)
    (hcycle : Relation.TransGen edge q q) :
    ∃ qs, (a :: qs).IsChain edge ∧ ¬ (a :: qs).Nodup := by
  -- the way in ends with `q`, and so does the way around from the next element
  obtain ⟨xs, hxs, hlast⟩ := List.exists_isChain_cons_of_relationReflTransGen hreach
  obtain ⟨b, hb, hback⟩ := Relation.TransGen.head'_iff.1 hcycle
  obtain ⟨ys, hys, hlast'⟩ := List.exists_isChain_cons_of_relationReflTransGen hback
  have hmem : q ∈ a :: xs := hlast ▸ List.getLast_mem _
  have hmem' : q ∈ b :: ys := hlast' ▸ List.getLast_mem _
  refine ⟨xs ++ b :: ys, ?_, ?_⟩
  · rw [← List.cons_append]
    refine hxs.append hys ?_
    intro x hx y hy
    rw [List.getLast?_eq_getLast_of_ne_nil (List.cons_ne_nil _ _), hlast] at hx
    obtain rfl : q = x := Option.some.inj hx
    obtain rfl : b = y := Option.some.inj hy
    exact hb
  · rw [← List.cons_append]
    intro hn
    exact (List.nodup_append.1 hn).2.2 q hmem q hmem' rfl

theorem reachesCycle_iff {p : Location} :
    ReachesCycle r extension w p ↔
      ∃ qs, (p :: qs).IsChain (Imports r extension w) ∧ ¬ (p :: qs).Nodup := by
  constructor
  · rintro ⟨q, hreach, hcycle⟩
    exact exists_not_nodup_of_cycle hreach hcycle
  · rintro ⟨qs, hchain, hd⟩
    exact exists_cycle_of_not_nodup hchain hd

end Cycle

variable (r extension within) in
/-- The imports of a document that is the first on the chain are expanded exactly if no cycle can
be reached from it. -/
theorem expand_root_isOk_iff {p : Location} {source : Text} (hp : w.readAt p = .ok source) :
    (∃ xs, (expand r extension w (Workspace.pathOf p.dropLast) within [p]
        (nodesOf r source).value).value = .ok xs) ↔ ¬ ReachesCycle r extension w p := by
  rw [expand_isOk_iff (by simpa using ⟨source, hp⟩), reachesCycle_iff, not_exists]
  apply forall_congr'
  intro qs
  rw [walk_nodes_iff hp, not_and, not_not, List.nodup_cons]
  apply imp_congr_right
  intro _
  simp only [List.mem_singleton]
  rw [and_comm]
  exact and_congr_left fun _ => ⟨fun h hm => h p hm rfl, fun h x hx he => h (he ▸ hx)⟩

theorem expand_root_report {p : Location} {source : Text} {fault : CompileFault}
    (hp : w.readAt p = .ok source)
    (h : (expand r extension w (Workspace.pathOf p.dropLast) within [p]
      (nodesOf r source).value).value = .error fault) :
    ∃ chain, fault = .importCycle chain ∧ IsCycleReport r extension w p chain := by
  obtain ⟨qs, q, rfl, hwalk, hnodup, hfresh, hback⟩ :=
    expand_error_walk (by simpa using ⟨source, hp⟩) h
  refine ⟨_, rfl, ?_, ?_, ?_, ?_⟩
  · rfl
  · exact (walk_nodes_iff hp).1 hwalk
  · rw [List.dropLast_concat]
    exact List.nodup_cons.2 ⟨fun hm => hfresh p hm (by simp), hnodup⟩
  · rw [List.dropLast_concat]
    exact ⟨q, List.getLast?_concat, hback⟩

end Folio.Import
