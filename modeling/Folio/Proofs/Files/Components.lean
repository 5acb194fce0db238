import Folio.Proofs.Files.Names

namespace Folio.Path

variable {p q : Path} {l : Location} {ss : List Text}

/-- The segments that name something. -/
def steps (p : Path) : List Text := p.segments.filter fun s => !isFiller s

/-- The components of a path but for dots. -/
def plain (p : Path) : List Component := p.components.filter fun c => decide (c ≠ .current)

theorem isAbsolute_iff : p.isAbsolute ↔ ∃ s ss, p.segments = [] :: s :: ss := by
  unfold isAbsolute segments
  rw [decide_eq_true_eq]
  constructor
  · intro h
    obtain ⟨t, ht⟩ := List.head?_eq_some_iff.1 h
    obtain ⟨s, ss, hss⟩ := List.exists_cons_of_ne_nil (Text.splitOn_ne_nil '/' t)
    exact ⟨s, ss, by rw [ht, Text.splitOn, if_pos rfl, hss]⟩
  · rintro ⟨s, ss, h⟩
    have htext := Text.joinWith_splitOn '/' p.text
    rw [h, Text.joinWith_cons (by simp)] at htext
    rw [← htext]
    rfl

theorem plain_eq (p : Path) :
    p.plain = (if p.isAbsolute then [.root] else []) ++ p.steps.map componentOf := by
  have hnames (ts : List Text) : (ts.map componentOf).filter (fun c => decide (c ≠ .current)) =
      ts.map componentOf := by
    refine List.filter_eq_self.2 fun c hc => ?_
    obtain ⟨s, _, rfl⟩ := List.mem_map.1 hc
    unfold componentOf
    split <;> simp
  obtain ⟨first, rest, hsegments⟩ := List.exists_cons_of_ne_nil (Text.splitOn_ne_nil '/' p.text)
  have hp : p.segments = first :: rest := hsegments
  unfold plain components steps
  rw [hp]
  dsimp only
  rw [List.filter_append, hnames]
  by_cases hempty : first = []
  · subst hempty
    rw [List.filter_cons_of_neg (by simp [isFiller])]
    by_cases habsolute : p.isAbsolute <;> simp [habsolute]
  · have hrelative : ¬ p.isAbsolute := by
      rw [isAbsolute_iff, hp]
      rintro ⟨_, _, h⟩
      exact hempty (List.cons.inj h).1
    rw [if_neg hrelative, if_neg (by simpa using hempty), List.nil_append]
    by_cases hdot : first = ['.']
    · subst hdot
      rw [List.filter_cons_of_neg (by simp [isFiller])]
      simp
    · rw [if_neg hdot, ← List.map_singleton, hnames, ← List.map_append, List.singleton_append,
        List.filter_cons_of_pos (by simp [isFiller, hempty, hdot])]

/-- The file name is the last segment that names something, unless that is a parent. -/
theorem fileName?_eq_some_iff {n : Text} :
    p.fileName? = some n ↔ p.steps.getLast? = some n ∧ n ≠ ['.', '.'] := by
  have hlast : p.fileName? = some n ↔ p.components.getLast? = some (.name n) := by
    unfold fileName?
    split <;> simp_all
  have hname {s : Text} : some (componentOf s) = some (.name n) ↔ some s = some n ∧ n ≠ ['.', '.'] := by
    unfold componentOf
    by_cases hs : s = ['.', '.'] <;> grind
  obtain ⟨first, rest, hsegments⟩ := List.exists_cons_of_ne_nil (Text.splitOn_ne_nil '/' p.text)
  have hp : p.segments = first :: rest := hsegments
  rw [hlast]
  unfold components steps
  rw [hp]
  dsimp only
  rcases List.eq_nil_or_concat (rest.filter fun s => !isFiller s) with hrest | ⟨init, s, hrest⟩
  · -- only the first segment can name something
    rw [List.filter_cons, hrest, List.map_nil, List.append_nil]
    by_cases hempty : first = []
    · by_cases habsolute : p.isAbsolute <;> simp [hempty, habsolute, isFiller]
    · by_cases hdot : first = ['.']
      · simp [hdot, isFiller]
      · simp [hempty, hdot, isFiller, hname]
  · rw [List.concat_eq_append] at hrest
    rw [hrest, List.map_append, List.map_singleton, ← List.append_assoc, List.getLast?_concat, hname,
      List.filter_cons, hrest]
    split
    · rw [← List.cons_append, List.getLast?_concat]
    · rw [List.getLast?_concat]

/-- The segments of a relative path that is joined to another come after those of the other, but for
an empty last one. -/
theorem segments_join_of_ne (hp : ¬ p.isEmpty) (h : ¬ q.isAbsolute) :
    ∃ before, before ≠ [] ∧ (p.join q).segments = before ++ q.segments ∧
      (p.segments = before ∨ p.segments = before ++ [[]]) := by
  unfold join segments
  rw [if_neg h]
  split
  · rename_i hend
    rw [Bool.or_eq_true, decide_eq_true_eq, or_iff_right hp] at hend
    obtain ⟨t, ht⟩ := List.getLast?_eq_some_iff.1 hend
    rw [ht, List.append_assoc, List.singleton_append, Text.splitOn_append_cons,
      Text.splitOn_append_cons]
    exact ⟨_, Text.splitOn_ne_nil '/' t, rfl, Or.inr rfl⟩
  · rw [Text.splitOn_append_cons]
    exact ⟨_, Text.splitOn_ne_nil '/' p.text, rfl, Or.inl rfl⟩

theorem steps_join (h : ¬ q.isAbsolute) : (p.join q).steps = p.steps ++ q.steps := by
  by_cases hp : p.isEmpty
  · obtain rfl : p = empty := by
      obtain ⟨t⟩ := p
      rw [show t = [] from List.isEmpty_iff.1 hp]
      rfl
    have hjoin : empty.join q = q := by
      unfold join
      rw [if_neg h]
      rfl
    rw [hjoin]
    rfl
  · obtain ⟨before, _, hsegments, hbefore⟩ := segments_join_of_ne hp h
    unfold steps
    rw [hsegments, List.filter_append]
    rcases hbefore with hbefore | hbefore
    · rw [hbefore]
    · rw [hbefore, List.filter_append, List.filter_cons_of_neg (by simp [isFiller]), List.filter_nil,
        List.append_nil]

theorem steps_ofNames (h : ∀ s ∈ ss, IsSegment s) : (ofNames ss).steps = ss := by
  by_cases hne : ss = []
  · subst hne
    rfl
  · rw [steps, segments_ofNames hne h]
    exact List.filter_eq_self.2 fun s hs => by simpa using (h s hs).1

theorem steps_single {n : Text} (h : IsSegment n) : (Path.mk n).steps = [n] := by
  rw [steps, segments_single h, List.filter_cons_of_pos (by simpa using h.1), List.filter_nil]

/-- A path with another extension on its last name, by what it is followed by. -/
theorem steps_withExtension {n stem old extension : Text} (hp : p.segments = ss ++ [n])
    (hn : ¬ isFiller n) (hdots : n ≠ ['.', '.']) (hsplit : splitExtension n = (stem, some old))
    (hstem : stem ≠ ['.']) (hextension : extension ≠ []) (hslash : '/' ∉ extension) :
    (p.withExtension extension).isAbsolute = p.isAbsolute ∧
      (p.withExtension extension).steps = p.steps.dropLast ++ [stem ++ '.' :: extension] := by
  obtain ⟨rfl, hne, _⟩ := splitExtension_eq_iff.1 hsplit
  have hold := not_slash_of_segments hp
  have hlast : '/' ∉ stem ++ '.' :: extension := by
    have hstem' : '/' ∉ stem := fun h =>
      hold _ (List.mem_append_right ss List.mem_cons_self) (List.mem_append_left _ h)
    simp only [List.mem_append, List.mem_cons, not_or]
    exact ⟨hstem', by decide, hslash⟩
  have hsegments : (p.withExtension extension).segments = ss ++ [stem ++ '.' :: extension] := by
    rw [withExtension_of_segments hp hn hdots hsplit hextension, renamed, if_neg hstem]
    refine Text.splitOn_joinWith (by simp) fun m hm => ?_
    rcases List.mem_append.1 hm with hm | hm
    · exact hold m (List.mem_append_left _ hm)
    · rwa [List.mem_singleton.1 hm]
  have hfiller : ¬ isFiller (stem ++ '.' :: extension) := by
    obtain ⟨c, cs, rfl⟩ := List.exists_cons_of_ne_nil hne
    simp [isFiller]
  constructor
  · rw [Bool.eq_iff_iff, isAbsolute_iff, isAbsolute_iff, hsegments, hp]
    cases ss with
    | nil => simp
    | cons first rest => cases rest <;> simp
  · unfold steps
    rw [hsegments, hp, List.filter_append, List.filter_append,
      List.filter_cons_of_pos (by simpa using hfiller), List.filter_cons_of_pos (by simpa using hn),
      List.filter_nil, List.dropLast_concat]

/-- Segments that name something below a location are followed down from it. -/
theorem follow_of_names (h : ∀ s ∈ ss, ¬ isFiller s ∧ s ≠ ['.', '.']) : follow l ss = l ++ ss := by
  induction ss generalizing l with
  | nil => rw [follow_nil, List.append_nil]
  | cons s ss ih =>
    obtain ⟨hfiller, hdots⟩ := h s List.mem_cons_self
    rw [follow_cons, step, if_neg hfiller, if_neg hdots, ih fun t ht => h t (List.mem_cons_of_mem s ht),
      List.append_assoc, List.singleton_append]

theorem follow_steps (l : Location) (p : Path) : follow l p.steps = follow l p.segments :=
  follow_filter l p.segments

end Folio.Path
