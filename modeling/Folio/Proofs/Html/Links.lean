import Mathlib.Tactic.SplitIfs
import Folio.Html.Escape
import Folio.Proofs.Text.Affix

namespace Folio.Html

/-- The text that an escaped text stands for. -/
def unescape : Text → Text
  | '&' :: 'a' :: 'm' :: 'p' :: ';' :: t => '&' :: unescape t
  | '&' :: 'l' :: 't' :: ';' :: t => '<' :: unescape t
  | '&' :: 'g' :: 't' :: ';' :: t => '>' :: unescape t
  | '&' :: 'q' :: 'u' :: 'o' :: 't' :: ';' :: t => '"' :: unescape t
  | c :: t => c :: unescape t
  | [] => []

theorem unescape_cons {c : Char} (hc : c ≠ '&') (t : Text) : unescape (c :: t) = c :: unescape t := by
  rw [unescape] <;> intros <;> contradiction

theorem unescape_escapeChar (c : Char) (t : Text) :
    unescape (escapeChar c ++ t) = c :: unescape t := by
  by_cases hand : c = '&'
  · subst hand
    simp [escapeChar, unescape]
  by_cases hless : c = '<'
  · subst hless
    simp [escapeChar, unescape]
  by_cases hmore : c = '>'
  · subst hmore
    simp [escapeChar, unescape]
  by_cases hquote : c = '"'
  · subst hquote
    simp [escapeChar, unescape]
  · rw [escapeChar, if_neg hand, if_neg hless, if_neg hmore, if_neg hquote, List.singleton_append,
      unescape_cons hand]

theorem unescape_escape (t : Text) : unescape (escape t) = t := by
  induction t with
  | nil => rfl
  | cons c cs ih => rw [escape, List.flatMap_cons, unescape_escapeChar, ← escape, ih]

/-- The references that stand for a character in an escaped text. -/
def entities : List Text := ["&amp;".toList, "&lt;".toList, "&gt;".toList, "&quot;".toList]

theorem escapeChar_cases (c : Char) : escapeChar c ∈ entities ∨
    escapeChar c = [c] ∧ c ≠ '&' ∧ c ≠ '<' ∧ c ≠ '>' ∧ c ≠ '"' := by
  unfold escapeChar
  split_ifs with hand hless hmore hquote
  · exact Or.inl (by decide)
  · exact Or.inl (by decide)
  · exact Or.inl (by decide)
  · exact Or.inl (by decide)
  · exact Or.inr ⟨rfl, hand, hless, hmore, hquote⟩

/-- An escaped text has none of the characters that would start a tag or end a value. -/
theorem not_mem_escape {c : Char} (hc : c ∈ ['<', '>', '"']) (t : Text) : c ∉ escape t := by
  intro h
  obtain ⟨d, _, hd⟩ := List.mem_flatMap.1 h
  simp only [List.mem_cons, List.not_mem_nil, or_false] at hc
  rcases escapeChar_cases d with hentity | ⟨heq, _, hless, hmore, hquote⟩
  · have hfree : ∀ e ∈ entities, '<' ∉ e ∧ '>' ∉ e ∧ '"' ∉ e := by decide
    obtain ⟨hless, hmore, hquote⟩ := hfree _ hentity
    rcases hc with rfl | rfl | rfl
    · exact hless hd
    · exact hmore hd
    · exact hquote hd
  · rw [heq, List.mem_singleton] at hd
    rcases hc with rfl | rfl | rfl
    · exact hless hd.symm
    · exact hmore hd.symm
    · exact hquote hd.symm

/-- How the start tag of a link begins. -/
def linkOpening : Text := "<a href=\"".toList

/-- Where the links of markup point, in order. -/
def hrefs : Text → List Text
  | [] => []
  | c :: t => match Text.stripPrefix? linkOpening (c :: t) with
    | some rest => unescape (rest.takeWhile fun x => decide (x ≠ '"')) :: hrefs t
    | none => hrefs t

theorem hrefs_cons_of_ne {c : Char} (hc : c ≠ '<') (t : Text) : hrefs (c :: t) = hrefs t := by
  have hnone : Text.stripPrefix? linkOpening (c :: t) = none := if_neg (Ne.symm hc)
  rw [hrefs, hnone]

theorem hrefs_append_of_not_mem {t : Text} (h : '<' ∉ t) (r : Text) : hrefs (t ++ r) = hrefs r := by
  induction t with
  | nil => rfl
  | cons c cs ih =>
    rw [List.mem_cons, not_or] at h
    rw [List.cons_append, hrefs_cons_of_ne (Ne.symm h.1), ih h.2]

/-- A tag that does not begin as that of a link. -/
theorem hrefs_tag {c : Char} {t : Text} (hc : c ≠ 'a') (h : '<' ∉ c :: t) (r : Text) :
    hrefs ('<' :: c :: t ++ r) = hrefs r := by
  have hnone : Text.stripPrefix? linkOpening ('<' :: (c :: t ++ r)) = none := by
    have hopening : linkOpening = '<' :: 'a' :: " href=\"".toList := rfl
    rw [hopening, Text.stripPrefix?, if_pos rfl, List.cons_append, Text.stripPrefix?,
      if_neg (Ne.symm hc)]
  rw [List.cons_append, hrefs, hnone]
  exact hrefs_append_of_not_mem h r

theorem hrefs_opening (t : Text) : hrefs (linkOpening ++ t) =
    unescape (t.takeWhile fun x => decide (x ≠ '"')) :: hrefs t := by
  have hopening : linkOpening = '<' :: "a href=\"".toList := by decide
  have hstrip : Text.stripPrefix? linkOpening ('<' :: ("a href=\"".toList ++ t)) = some t :=
    Text.stripPrefix?_eq_some_iff.2 (by rw [hopening, List.cons_append])
  rw [hopening, List.cons_append, hrefs, hstrip, hrefs_append_of_not_mem (by decide)]

theorem link_eq (href content : Text) : element ['a'] [("href".toList, href)] content =
    linkOpening ++ (escape href ++ '"' :: '>' :: (content ++ "</a>".toList)) := by
  have hopening : linkOpening = '<' :: 'a' :: ' ' :: ("href".toList ++ "=\"".toList) := by decide
  have hclosing : endTag ['a'] = "</a>".toList := by decide
  rw [hopening, element, hclosing, startTag, List.flatMap_singleton, attr]
  simp only [List.append_assoc, List.cons_append, List.nil_append]

/-- A link around an escaped text. -/
theorem hrefs_link (href title r : Text) :
    hrefs (element ['a'] [("href".toList, href)] (escape title) ++ r) = href :: hrefs r := by
  have hquote : ∀ x ∈ escape href, decide (x ≠ '"') = true := by
    intro x hx
    rw [decide_eq_true_eq]
    rintro rfl
    exact not_mem_escape (by decide) href hx
  have hvalue (t : Text) : (escape href ++ '"' :: t).takeWhile (fun x => decide (x ≠ '"')) =
      escape href := by
    rw [List.takeWhile_append_of_pos hquote, List.takeWhile_cons_of_neg (by simp), List.append_nil]
  have hclosing : "</a>".toList = '<' :: '/' :: "a>".toList := by decide
  rw [link_eq, List.append_assoc, List.append_assoc, hrefs_opening, List.cons_append, hvalue,
    unescape_escape, hrefs_append_of_not_mem (not_mem_escape (by decide) href),
    hrefs_cons_of_ne (by decide), List.cons_append, hrefs_cons_of_ne (by decide), List.append_assoc,
    hrefs_append_of_not_mem (not_mem_escape (by decide) title), hclosing,
    hrefs_tag (by decide) (by decide)]

end Folio.Html
