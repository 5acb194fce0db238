import Folio.Proofs.Files.Lexical

namespace Folio

namespace Path

/-- What is on the two sides of the last dot of a name. -/
theorem splitFirst?_reverse_eq_iff {name stem extension : Text} :
    Text.splitFirst? (fun c => decide (c = '.')) name.reverse =
        some (extension.reverse, stem.reverse) ↔
      name = stem ++ '.' :: extension ∧ '.' ∉ extension := by
  rw [Text.splitFirst?_eq_some_iff]
  constructor
  · rintro ⟨c, hname, hc, hnot⟩
    obtain rfl := of_decide_eq_true hc
    refine ⟨?_, fun hm => hnot '.' (List.mem_reverse.2 hm) (by simp)⟩
    rw [← List.reverse_reverse name, hname]
    simp
  · rintro ⟨rfl, hnot⟩
    refine ⟨'.', by simp, by simp, fun x hx hdot => ?_⟩
    obtain rfl := of_decide_eq_true hdot
    exact hnot (List.mem_reverse.1 hx)

/-- A name has an extension after its last dot, unless the dot comes first. -/
theorem splitExtension_eq_iff {name stem extension : Text} :
    splitExtension name = (stem, some extension) ↔
      name = stem ++ '.' :: extension ∧ stem ≠ [] ∧ '.' ∉ extension := by
  rw [and_left_comm, ← splitFirst?_reverse_eq_iff]
  unfold splitExtension
  cases hs : Text.splitFirst? (fun c => decide (c = '.')) name.reverse with
  | none => simp
  | some found =>
    obtain ⟨after, before⟩ := found
    dsimp only
    by_cases hb : before.isEmpty
    · rw [if_pos hb]
      rw [List.isEmpty_iff] at hb
      constructor
      · intro h
        cases (Prod.mk.inj h).2
      · rintro ⟨hstem, hcut⟩
        obtain ⟨_, hbefore⟩ := Prod.mk.inj (Option.some.inj hcut)
        rw [hb] at hbefore
        exact absurd (List.reverse_eq_nil_iff.1 hbefore.symm) hstem
    · rw [if_neg hb]
      rw [List.isEmpty_iff] at hb
      constructor
      · intro h
        obtain ⟨rfl, hextension⟩ := Prod.mk.inj h
        obtain rfl := Option.some.inj hextension
        simpa using hb
      · rintro ⟨_, hcut⟩
        obtain ⟨rfl, rfl⟩ := Prod.mk.inj (Option.some.inj hcut)
        simp

theorem stem_of_bare {name stem : Text} (h : splitExtension name = (stem, none)) : stem = name := by
  unfold splitExtension at h
  split at h
  · split at h
    · exact (Prod.mk.inj h).1.symm
    · cases (Prod.mk.inj h).2
  · exact (Prod.mk.inj h).1.symm

variable {ns : List Text} {n : Text}

/-- A text that is one segment of a path, and no filler. -/
def IsSegment (s : Text) : Prop := ¬ isFiller s ∧ '/' ∉ s

theorem isSegment_of_isName (h : IsName n) : IsSegment n := ⟨not_isFiller h, h.slash_not_mem⟩

theorem segments_ofNames (hne : ns ≠ []) (h : ∀ n ∈ ns, IsSegment n) :
    (ofNames ns).segments = ns := Text.splitOn_joinWith hne fun n hn => (h n hn).2

theorem ne_nil_of_isSegment (h : IsSegment n) : n ≠ [] := by
  rintro rfl
  exact h.1 rfl

theorem not_isAbsolute_ofNames (h : ∀ n ∈ ns, IsSegment n) : ¬ (ofNames ns).isAbsolute := by
  cases ns with
  | nil => decide
  | cons n ns =>
    have hn := h n List.mem_cons_self
    have hsegments := segments_ofNames (List.cons_ne_nil n ns) h
    rw [isAbsolute, Text.head?_of_splitOn hsegments (ne_nil_of_isSegment hn), decide_eq_true_eq]
    exact fun hc => hn.2 (List.mem_of_mem_head? hc)

/-- A single segment is a path by itself. -/
theorem segments_single (h : IsSegment n) : (Path.mk n).segments = [n] :=
  Text.splitOn_of_not_mem h.2

theorem not_isAbsolute_single (h : IsSegment n) : ¬ (Path.mk n).isAbsolute := by
  rw [isAbsolute, decide_eq_true_eq]
  exact fun hc => h.2 (List.mem_of_mem_head? hc)

section Last

variable {p : Path} (hp : p.segments = ns ++ [n]) (hn : ¬ isFiller n)
include hp

theorem eq_ofNames : p = ofNames (ns ++ [n]) := by
  rw [← hp, ofNames, joinWith_segments]

theorem not_slash_of_segments : ∀ m ∈ ns ++ [n], '/' ∉ m := by
  intro m hm
  rw [← hp] at hm
  exact Text.not_mem_of_mem_splitOn hm

include hn

theorem fileName?_of_segments : p.fileName? = if n = ['.', '.'] then none else some n := by
  have hlast : p.components.getLast? = some (componentOf n) := by
    unfold components
    rw [hp]
    cases ns with
    | nil =>
      rw [isFiller, Bool.or_eq_true, decide_eq_true_eq, not_or] at hn
      dsimp only [List.nil_append]
      rw [if_neg hn.1, if_neg hn.2]
      rfl
    | cons first rest =>
      dsimp only [List.cons_append]
      rw [List.filter_append, List.filter_cons_of_pos (by simpa using hn), List.map_append,
        List.filter_nil, List.map_singleton, ← List.append_assoc, List.getLast?_concat]
  unfold fileName?
  rw [hlast]
  unfold componentOf
  by_cases hdots : n = ['.', '.']
  · rw [if_pos hdots, if_pos hdots]
  · rw [if_neg hdots, if_neg hdots]

theorem trimmed_of_segments : p.trimmed = p.text := by
  have htext := p.joinWith_segments
  unfold trimmed
  rw [hp] at htext ⊢
  cases ns with
  | nil => exact htext
  | cons first rest =>
    dsimp only [List.cons_append] at htext ⊢
    rw [dropFillersEnd_concat hn, htext]

theorem hasExtension_iff (hdots : n ≠ ['.', '.']) {extension : Text} :
    p.hasExtension extension ↔ ∃ stem, splitExtension n = (stem, some extension) := by
  unfold hasExtension extension?
  rw [fileName?_of_segments hp hn, if_neg hdots, decide_eq_true_eq, Option.bind_some]
  constructor
  · intro he
    exact ⟨_, Prod.ext rfl he⟩
  · rintro ⟨stem, hs⟩
    rw [hs]

theorem stem?_of_segments (hdots : n ≠ ['.', '.']) : p.stem? = some (splitExtension n).1 := by
  rw [stem?, fileName?_of_segments hp hn, if_neg hdots, Option.map_some]

end Last

theorem take_ofNames (init : List Text) (a b : Text) :
    (ofNames (init ++ [a ++ b])).text.take ((ofNames (init ++ [a ++ b])).text.length - b.length) =
      (ofNames (init ++ [a])).text := by
  unfold ofNames
  dsimp only
  rw [Text.joinWith_concat_append, List.length_append, Nat.add_sub_cancel, List.take_left']
  rfl

/-- What stands in the place of a name when it gets an extension in the place of its own. -/
def renamed (stem extension : Text) : Text :=
  if stem = ['.'] then ['.', '.'] else stem ++ '.' :: extension

theorem setExtension_of_segments {p : Path} {stem : Text} (hp : p.segments = ns ++ [stem ++ ['.']])
    (hstem : stem ≠ []) (hne : stem ≠ ['.']) {extension : Text} (hextension : extension ≠ []) :
    p.setExtension extension = ofNames (ns ++ [stem ++ '.' :: extension]) := by
  have hfiller : ¬ isFiller (stem ++ ['.']) := by simp [isFiller, hstem]
  have hname : p.fileName? = some (stem ++ ['.']) := by
    rw [fileName?_of_segments hp hfiller, if_neg]
    intro hdots
    have htwo : stem ++ ['.'] = ['.'] ++ ['.'] := hdots
    exact hne (List.append_inj' htwo rfl).1
  have hsplit : splitExtension (stem ++ ['.']) = (stem, some []) :=
    splitExtension_eq_iff.2 ⟨rfl, hstem, List.not_mem_nil⟩
  have hempty : ¬ extension.isEmpty := by simpa using hextension
  unfold setExtension
  rw [hname]
  dsimp only
  rw [trimmed_of_segments hp hfiller, hsplit, if_neg hempty, eq_ofNames hp]
  have htake := take_ofNames ns [] (stem ++ ['.'])
  rw [List.nil_append] at htake
  rw [htake]
  unfold ofNames
  dsimp only
  rw [List.append_assoc, ← Text.joinWith_concat_append, List.nil_append]

/-- A path with another extension on the name that it ends with. -/
theorem withExtension_of_segments {p : Path} {stem old : Text} (hp : p.segments = ns ++ [n])
    (hn : ¬ isFiller n) (hdots : n ≠ ['.', '.']) (hsplit : splitExtension n = (stem, some old))
    {extension : Text} (hextension : extension ≠ []) :
    p.withExtension extension = ofNames (ns ++ [renamed stem extension]) := by
  have hold : p.extension? = some old := by
    unfold extension?
    rw [fileName?_of_segments hp hn, if_neg hdots, Option.bind_some, hsplit]
  obtain ⟨rfl, hstem, _⟩ := splitExtension_eq_iff.1 hsplit
  have hslash := not_slash_of_segments hp
  rw [List.append_cons stem '.' old] at hslash hp
  unfold withExtension
  rw [hold, Option.getD_some, eq_ofNames hp]
  dsimp only
  rw [take_ofNames]
  have hcut : (ofNames (ns ++ [stem ++ ['.']])).segments = ns ++ [stem ++ ['.']] := by
    refine Text.splitOn_joinWith (by simp) fun m hm => ?_
    rcases List.mem_append.1 hm with hm | hm
    · exact hslash m (List.mem_append_left _ hm)
    · rw [List.mem_singleton.1 hm]
      exact fun hin => hslash _ (by simp) (List.mem_append_left old hin)
  by_cases hne : stem = ['.']
  · -- the name without its extension is a parent, and no extension can be set on it
    have hname : (ofNames (ns ++ [stem ++ ['.']])).fileName? = none := by
      rw [fileName?_of_segments hcut (by simp [isFiller, hstem]), hne]
      rfl
    unfold setExtension
    rw [hname, renamed, if_pos hne, hne]
    rfl
  · rw [renamed, if_neg hne]
    exact setExtension_of_segments hcut hstem hne hextension

/-- A path that ends with a name without an extension gets one after that name. -/
theorem withExtension_of_bare {p : Path} (hp : p.segments = ns ++ [n]) (hn : ¬ isFiller n)
    (hdots : n ≠ ['.', '.']) (hsplit : splitExtension n = (n, none)) {extension : Text}
    (hextension : extension ≠ []) :
    p.withExtension extension = ofNames (ns ++ [n ++ '.' :: extension]) := by
  have hname : p.fileName? = some n := by rw [fileName?_of_segments hp hn, if_neg hdots]
  have hold : p.extension? = none := by rw [extension?, hname, Option.bind_some, hsplit]
  have hempty : ¬ extension.isEmpty := by simpa using hextension
  have htake := take_ofNames ns [] n
  rw [List.nil_append] at htake
  have hwhole : p.withExtension extension = p.setExtension extension := by
    unfold withExtension
    rw [hold, Option.getD_none]
    dsimp only
    rw [List.length_nil, Nat.sub_zero, List.take_length]
  rw [hwhole]
  unfold setExtension
  rw [hname]
  dsimp only
  rw [trimmed_of_segments hp hn, hsplit, if_neg hempty, eq_ofNames hp, htake]
  unfold ofNames
  dsimp only
  rw [List.append_assoc, ← Text.joinWith_concat_append, List.nil_append]

end Path
end Folio
