import Folio.Document.Directive
import Folio.Proofs.Text.Lines

namespace Folio.Lines

open Text

theorem argument?_eq_some_iff {keyword line v : Text} :
    argument? keyword line = some v ↔ ∃ rest, line = keyword ++ ' ' :: rest ∧ v = trim rest := by
  unfold argument?
  constructor
  · intro h
    obtain ⟨rest, hrest, rfl⟩ := Option.map_eq_some_iff.1 h
    obtain ⟨u, hu, hspace⟩ := Option.bind_eq_some_iff.1 hrest
    rw [stripPrefix?_eq_some_iff] at hu hspace
    exact ⟨rest, by rw [hu, hspace]; rfl, rfl⟩
  · rintro ⟨rest, rfl, rfl⟩
    have hspace : stripPrefix? [' '] (' ' :: rest) = some rest := stripPrefix?_eq_some_iff.2 rfl
    rw [stripPrefix?_eq_some_iff.2 rfl, Option.bind_some, hspace, Option.map_some]

/-- An argument of a trimmed line is trimmed, and it is not empty. -/
theorem argument?_trimmed {keyword line v : Text} (hline : Trimmed line)
    (h : argument? keyword line = some v) : v ≠ [] ∧ Trimmed v := by
  obtain ⟨rest, rfl, rfl⟩ := argument?_eq_some_iff.1 h
  have hspace : isBlank ' ' := by decide
  exact ⟨(hline.after_blank hspace).1, trimmed_trim rest⟩

theorem space_mem_of_argument? {keyword line v : Text} (h : argument? keyword line = some v) :
    ' ' ∈ line := by
  obtain ⟨rest, rfl, _⟩ := argument?_eq_some_iff.1 h
  simp

theorem argument?_concat {keyword : Text} (hk : '\r' ∉ keyword) (t : Text) :
    argument? keyword (t ++ ['\r']) = argument? keyword t := by
  unfold argument?
  rw [stripPrefix?_concat hk]
  cases stripPrefix? keyword t with
  | none => rfl
  | some rest =>
    rw [Option.map_some, Option.bind_some, Option.bind_some, stripPrefix?_concat (by decide),
      Option.map_map]
    congr 1
    funext value
    exact trim_concat isBlank_return

theorem stripIndent?_eq (t : Text) :
    stripIndent? t = (stripPrefix? ['\t'] t).or (stripPrefix? [' ', ' ', ' ', ' '] t) := by
  fun_cases stripIndent? t with
  | case1 rest => simp [stripPrefix?]
  | case2 rest => simp [stripPrefix?]
  | case3 _ htab hspaces =>
    have htab' : stripPrefix? ['\t'] t = none := by
      apply Option.eq_none_iff_forall_ne_some.2
      intro rest h
      exact htab rest (stripPrefix?_eq_some_iff.1 h)
    have hspaces' : stripPrefix? [' ', ' ', ' ', ' '] t = none := by
      apply Option.eq_none_iff_forall_ne_some.2
      intro rest h
      exact hspaces rest (stripPrefix?_eq_some_iff.1 h)
    rw [htab', hspaces']
    rfl

/-- One level of indentation. -/
def indents : List Text := [['\t'], [' ', ' ', ' ', ' ']]

theorem stripIndent?_eq_some_iff {l rest : Text} :
    stripIndent? l = some rest ↔ ∃ indent ∈ indents, l = indent ++ rest := by
  rw [stripIndent?_eq, Option.or_eq_some_iff, stripPrefix?_eq_some_iff, stripPrefix?_eq_some_iff]
  constructor
  · rintro (rfl | ⟨_, rfl⟩)
    · exact ⟨['\t'], by decide, rfl⟩
    · exact ⟨[' ', ' ', ' ', ' '], by decide, rfl⟩
  · rintro ⟨indent, hindent, rfl⟩
    simp only [indents, List.mem_cons, List.not_mem_nil, or_false] at hindent
    rcases hindent with rfl | rfl
    · exact Or.inl rfl
    · exact Or.inr ⟨rfl, rfl⟩

theorem isBlank_of_indent {indent : Text} (h : indent ∈ indents) : ∀ c ∈ indent, isBlank c := by
  have hall : ∀ indent ∈ indents, indent.all isBlank := by decide
  exact List.all_eq_true.1 (hall indent h)

theorem stripIndent?_concat (t : Text) :
    stripIndent? (t ++ ['\r']) = (stripIndent? t).map (· ++ ['\r']) := by
  rw [stripIndent?_eq, stripIndent?_eq, stripPrefix?_concat (by decide),
    stripPrefix?_concat (by decide), Option.map_or]

/-- The content of an indented line is the same without a return that closes the line. -/
theorem stripIndent?_dropReturn (l : Text) :
    (stripIndent? (dropReturn l)).map trimEnd = (stripIndent? l).map trimEnd := by
  rcases dropReturn_cases l with h | h
  · rw [h]
  · conv_rhs => rw [h, stripIndent?_concat, Option.map_map]
    congr 1
    funext rest
    exact (trimEnd_concat isBlank_return).symm

/-- The line of an alternative text starts with its keyword. -/
theorem head_of_altLine? {next alt : Text} (h : Directive.altLine? next = some alt) :
    ∃ cs, trim next = 'a' :: cs := by
  obtain ⟨content, hindent, halt⟩ := Option.bind_eq_some_iff.1 h
  obtain ⟨indent, hmem, rfl⟩ := stripIndent?_eq_some_iff.1 hindent
  obtain ⟨rest, rfl, _⟩ := argument?_eq_some_iff.1 halt
  have hstart : trimStart (indent ++ (Kind.alt ++ ' ' :: rest)) =
      ['a'] ++ ("lt".toList ++ ' ' :: rest) := by
    rw [trimStart, List.dropWhile_append_of_pos (isBlank_of_indent hmem)]
    rfl
  rw [trim, hstart, trimEnd_prepend]
  split
  · exact ⟨[], rfl⟩
  · exact ⟨_, rfl⟩

end Folio.Lines
