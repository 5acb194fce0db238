import Mathlib.Data.List.Forall2
import Mathlib.Data.List.TakeWhile
import Folio.Json.Printer
import Folio.Proofs.Json.Extent
import Folio.Proofs.Text.Trim

/-! JSON strings as they are written. Each character of a string is spelled by itself, by a letter after
a backslash, or by its code, in one escape or in a pair of surrogates. The reader of strings accepts
these spellings and nothing else, and the printer writes one of them. -/
namespace Folio.Json

/-- The letters after a backslash, with the characters that they stand for. -/
def shortEscapes : List (Char × Char) :=
  [('"', '"'), ('\\', '\\'), ('/', '/'), ('b', Char.ofNat 8), ('f', Char.ofNat 12), ('n', '\n'),
    ('r', '\r'), ('t', '\t')]

/-- A hexadecimal digit in either case. -/
def IsHexDigit (c : Char) (v : Nat) : Prop :=
  v < 16 ∧ (c = Nat.digitChar v ∨ c = (Nat.digitChar v).toUpper)

instance (c : Char) (v : Nat) : Decidable (IsHexDigit c v) :=
  inferInstanceAs (Decidable (_ ∧ _))

/-- Four hexadecimal digits. -/
inductive HexCode : Text → Nat → Prop
  | mk {a b c d : Char} {p q r s : Nat} : IsHexDigit a p → IsHexDigit b q → IsHexDigit c r →
      IsHexDigit d s → HexCode [a, b, c, d] (p * 4096 + q * 256 + r * 16 + s)

/-- The ways to write one character of a string. -/
inductive Spells : Text → Char → Prop
  | plain {c : Char} : c ≠ '"' → c ≠ '\\' → 32 ≤ c.toNat → Spells [c] c
  | short {letter c : Char} : (letter, c) ∈ shortEscapes → Spells ['\\', letter] c
  | code {digits : Text} {c : Char} : HexCode digits c.toNat → Spells ('\\' :: 'u' :: digits) c
  | pair {first second : Text} {high low : Nat} {c : Char} : HexCode first high →
      HexCode second low → 0xD800 ≤ high → high ≤ 0xDBFF → 0xDC00 ≤ low → low ≤ 0xDFFF →
      c.toNat = 0x10000 + (high - 0xD800) * 0x400 + (low - 0xDC00) →
      Spells ('\\' :: 'u' :: (first ++ '\\' :: 'u' :: second)) c

/-- A string between quotation marks, each of its characters spelled in one of the ways. -/
def IsLiteral (j s : Text) : Prop :=
  ∃ parts, List.Forall₂ Spells parts s ∧ j = '"' :: (parts.flatten ++ ['"'])

theorem toNat_lt_of_hexValue? {c : Char} {v : Nat} (h : hexValue? c = some v) : c.toNat < 128 := by
  unfold hexValue? at h
  simp only [Char.isDigit, ge_iff_le, Bool.and_eq_true, decide_eq_true_eq, Char.le_def,
    UInt32.le_iff_toNat_le] at h
  change (if 48 ≤ c.toNat ∧ c.toNat ≤ 57 then _ else if 97 ≤ c.toNat ∧ c.toNat ≤ 102 then _
    else if 65 ≤ c.toNat ∧ c.toNat ≤ 70 then _ else _) = _ at h
  split_ifs at h <;> omega

theorem hexValue?_eq_some_iff {c : Char} {v : Nat} : hexValue? c = some v ↔ IsHexDigit c v := by
  have hdigits : ∀ v < 16, hexValue? (Nat.digitChar v) = some v ∧
      hexValue? (Nat.digitChar v).toUpper = some v := by decide
  have hvalues : ∀ n < 128, ∀ v ∈ hexValue? (Char.ofNat n), IsHexDigit (Char.ofNat n) v := by decide
  constructor
  · intro h
    have hc := hvalues c.toNat (toNat_lt_of_hexValue? h)
    rw [Char.ofNat_toNat] at hc
    exact hc v h
  · rintro ⟨hv, rfl | rfl⟩
    · exact (hdigits v hv).1
    · exact (hdigits v hv).2

theorem readHex4_eq_ok_iff {s rest : Text} {n : Nat} :
    readHex4 s = .ok (n, rest) ↔ ∃ digits, HexCode digits n ∧ s = digits ++ rest := by
  constructor
  · intro h
    unfold readHex4 at h
    split at h
    · split at h
      · rename_i ha hb hc hd
        obtain ⟨rfl, rfl⟩ := Prod.mk.inj (Except.ok.inj h)
        rw [hexValue?_eq_some_iff] at ha hb hc hd
        exact ⟨_, .mk ha hb hc hd, rfl⟩
      · cases h
    · cases h
  · rintro ⟨_, ⟨ha, hb, hc, hd⟩, rfl⟩
    rw [← hexValue?_eq_some_iff] at ha hb hc hd
    simp only [List.cons_append, List.nil_append, readHex4, ha, hb, hc, hd]

theorem HexCode.lt {digits : Text} {n : Nat} (h : HexCode digits n) : n < 65536 := by
  obtain ⟨⟨ha, -⟩, ⟨hb, -⟩, ⟨hc, -⟩, ⟨hd, -⟩⟩ := h
  omega

/-- The code of a character is that of no surrogate. -/
theorem toNat_not_surrogate (c : Char) : ¬ isLowSurrogate c.toNat ∧ ¬ isHighSurrogate c.toNat := by
  have hvalid : c.toNat < 0xD800 ∨ 0xDFFF < c.toNat ∧ c.toNat < 0x110000 := c.valid
  simp only [isLowSurrogate, isHighSurrogate, Bool.and_eq_true, decide_eq_true_eq]
  omega

theorem toNat_ofNat {n : Nat} (h : n.isValidChar) : (Char.ofNat n).toNat = n := by
  rw [Char.ofNat, dif_pos h]
  rfl

/-- A code that is that of no surrogate is that of a character. -/
theorem toNat_ofNat_code {n : Nat} (hlt : n < 65536) (hlow : ¬ isLowSurrogate n)
    (hhigh : ¬ isHighSurrogate n) : (Char.ofNat n).toNat = n := by
  simp only [isLowSurrogate, isHighSurrogate, Bool.and_eq_true, decide_eq_true_eq] at hlow hhigh
  apply toNat_ofNat
  unfold Nat.isValidChar
  omega

/-- The character of two surrogates. -/
theorem toNat_ofNat_pair {high low : Nat} (hhigh : isHighSurrogate high) (hlow : isLowSurrogate low) :
    (Char.ofNat ((high - 0xD800) * 1024 + (low - 0xDC00) + 0x10000)).toNat =
      0x10000 + (high - 0xD800) * 0x400 + (low - 0xDC00) := by
  simp only [isLowSurrogate, isHighSurrogate, Bool.and_eq_true, decide_eq_true_eq] at hlow hhigh
  rw [toNat_ofNat]
  · omega
  · unfold Nat.isValidChar
    omega

theorem IsHexDigit.not_isBlank {c : Char} {v : Nat} (h : IsHexDigit c v) : ¬ Text.isBlank c := by
  have hdigits : ∀ v < 16, ¬ Text.isBlank (Nat.digitChar v) ∧
      ¬ Text.isBlank (Nat.digitChar v).toUpper := by decide
  obtain ⟨hv, rfl | rfl⟩ := h
  · exact (hdigits v hv).1
  · exact (hdigits v hv).2

theorem HexCode.not_isBlank {digits : Text} {n : Nat} (h : HexCode digits n) :
    ∀ c ∈ digits, ¬ Text.isBlank c := by
  obtain ⟨ha, hb, hc, hd⟩ := h
  simp [ha.not_isBlank, hb.not_isBlank, hc.not_isBlank, hd.not_isBlank]

/-- There are no blanks in an escape. -/
theorem Spells.not_isBlank {part : Text} {c : Char} (h : Spells ('\\' :: part) c) :
    ∀ x ∈ part, ¬ Text.isBlank x := by
  have hletter : ¬ Text.isBlank 'u' := by decide
  have hbackslash : ¬ Text.isBlank '\\' := by decide
  cases h with
  | plain _ hb => exact absurd rfl hb
  | short hmem =>
    have hletters : ∀ e ∈ shortEscapes, ¬ Text.isBlank e.1 := by decide
    exact List.forall_mem_singleton.2 (hletters _ hmem)
  | code hcode => exact List.forall_mem_cons.2 ⟨hletter, hcode.not_isBlank⟩
  | pair hfirst hsecond =>
    refine List.forall_mem_cons.2 ⟨hletter, List.forall_mem_append.2 ⟨hfirst.not_isBlank, ?_⟩⟩
    exact List.forall_mem_cons.2 ⟨hbackslash, List.forall_mem_cons.2 ⟨hletter, hsecond.not_isBlank⟩⟩

/-- Control characters are spelled by escapes. -/
theorem Spells.newline_not_mem {part : Text} {c : Char} (h : Spells part c) : '\n' ∉ part := by
  have hescape {more : Text} (h : Spells ('\\' :: more) c) : '\n' ∉ '\\' :: more := by
    intro hmem
    rcases List.mem_cons.1 hmem with hmem | hmem
    · exact absurd hmem (by decide)
    · exact h.not_isBlank _ hmem (by decide)
  cases h with
  | plain _ _ hcontrol =>
    rw [List.mem_singleton]
    rintro rfl
    exact absurd hcontrol (by decide)
  | short hmem => exact hescape (.short hmem)
  | code hcode => exact hescape (.code hcode)
  | pair hfirst hsecond h₁ h₂ h₃ h₄ hc => exact hescape (.pair hfirst hsecond h₁ h₂ h₃ h₄ hc)

theorem simpleEscape?_eq_some_iff {letter c : Char} :
    simpleEscape? letter = some c ↔ (letter, c) ∈ shortEscapes := by
  constructor
  · intro h
    unfold simpleEscape? at h
    split_ifs at h with hself hb hf hn hr ht
    · -- a character that stands for itself
      obtain rfl := Option.some.inj h
      simp only [Bool.or_eq_true, decide_eq_true_eq] at hself
      rcases hself with (rfl | rfl) | rfl <;> decide
    all_goals
      obtain rfl := Option.some.inj h
      subst letter
      decide
  · intro h
    simp only [shortEscapes, List.mem_cons, List.not_mem_nil, or_false, Prod.mk.injEq] at h
    rcases h with h | h | h | h | h | h | h | h <;> obtain ⟨rfl, rfl⟩ := h <;> rfl

theorem readLowSurrogate_eq_ok_iff {s rest : Text} {high : Nat} {c : Char}
    (hhigh : isHighSurrogate high) :
    readLowSurrogate high s = .ok (c, rest) ↔ ∃ second low, HexCode second low ∧
      isLowSurrogate low ∧ c.toNat = 0x10000 + (high - 0xD800) * 0x400 + (low - 0xDC00) ∧
      s = '\\' :: 'u' :: (second ++ rest) := by
  constructor
  · intro h
    unfold readLowSurrogate at h
    split at h
    · rename_i t
      cases hx : readHex4 t with
      | error e =>
        rw [hx] at h
        cases h
      | ok found =>
        obtain ⟨low, u⟩ := found
        simp only [hx] at h
        split at h
        · rename_i hlow
          obtain ⟨rfl, rfl⟩ := Prod.mk.inj (Except.ok.inj h)
          obtain ⟨second, hsecond, rfl⟩ := readHex4_eq_ok_iff.1 hx
          exact ⟨second, low, hsecond, hlow, toNat_ofNat_pair hhigh hlow, rfl⟩
        · cases h
    · cases h
    · cases h
  · rintro ⟨second, low, hsecond, hlow, hc, rfl⟩
    have hx : readHex4 (second ++ rest) = .ok (low, rest) :=
      readHex4_eq_ok_iff.2 ⟨second, hsecond, rfl⟩
    have hchar : Char.ofNat ((high - 0xD800) * 1024 + (low - 0xDC00) + 0x10000) = c := by
      apply Char.toNat_inj.1
      rw [toNat_ofNat_pair hhigh hlow, hc]
    simp only [readLowSurrogate, hx, hlow, if_true, hchar]

theorem readCodeEscape_eq_ok_iff {s rest : Text} {c : Char} :
    readCodeEscape s = .ok (c, rest) ↔
      ∃ part, Spells ('\\' :: 'u' :: part) c ∧ s = part ++ rest := by
  constructor
  · intro h
    unfold readCodeEscape at h
    cases hx : readHex4 s with
    | error e =>
      rw [hx] at h
      cases h
    | ok found =>
      obtain ⟨n, t⟩ := found
      obtain ⟨first, hfirst, rfl⟩ := readHex4_eq_ok_iff.1 hx
      simp only [hx] at h
      -- a low surrogate cannot come first, and a high one needs a low one after it
      by_cases hlow : isLowSurrogate n
      · simp [hlow] at h
      · by_cases hhigh : isHighSurrogate n
        · simp only [hlow, hhigh, if_true] at h
          obtain ⟨second, low, hsecond, hlow', hc, rfl⟩ := (readLowSurrogate_eq_ok_iff hhigh).1 h
          refine ⟨first ++ '\\' :: 'u' :: second, ?_, by simp⟩
          simp only [isLowSurrogate, isHighSurrogate, Bool.and_eq_true, decide_eq_true_eq]
            at hlow' hhigh
          exact .pair hfirst hsecond hhigh.1 hhigh.2 hlow'.1 hlow'.2 hc
        · simp only [hlow, hhigh] at h
          obtain ⟨rfl, rfl⟩ := Prod.mk.inj (Except.ok.inj h)
          rw [← toNat_ofNat_code hfirst.lt hlow hhigh] at hfirst
          exact ⟨first, .code hfirst, rfl⟩
  · rintro ⟨part, hspells, rfl⟩
    cases hspells with
    | short hmem => simp [shortEscapes] at hmem
    | code hcode =>
      have hx : readHex4 (part ++ rest) = .ok (c.toNat, rest) :=
        readHex4_eq_ok_iff.2 ⟨part, hcode, rfl⟩
      obtain ⟨hlow, hhigh⟩ := toNat_not_surrogate c
      rw [readCodeEscape, hx]
      dsimp only
      rw [if_neg hlow, if_neg hhigh, Char.ofNat_toNat]
    | pair hfirst hsecond hhigh hhigh' hlow hlow' hc =>
      rename_i first second high low
      have hx : readHex4 (first ++ ('\\' :: 'u' :: (second ++ rest))) =
          .ok (high, '\\' :: 'u' :: (second ++ rest)) := readHex4_eq_ok_iff.2 ⟨first, hfirst, rfl⟩
      have hishigh : isHighSurrogate high := by simp [isHighSurrogate, hhigh, hhigh']
      have hislow : isLowSurrogate low := by simp [isLowSurrogate, hlow, hlow']
      have hnot : ¬ isLowSurrogate high := by
        simp only [isLowSurrogate, Bool.and_eq_true, decide_eq_true_eq]
        omega
      rw [List.append_assoc, List.cons_append, List.cons_append, readCodeEscape, hx]
      dsimp only
      rw [if_neg hnot, if_pos hishigh, readLowSurrogate_eq_ok_iff hishigh]
      exact ⟨second, low, hsecond, hislow, hc, rfl⟩

/-- What a backslash starts has a letter after it. -/
theorem Spells.exists_letter {part : Text} {c : Char} (h : Spells ('\\' :: part) c) :
    ∃ letter more, part = letter :: more := by
  cases h with
  | plain _ hb => exact absurd rfl hb
  | short => exact ⟨_, _, rfl⟩
  | code => exact ⟨_, _, rfl⟩
  | pair => exact ⟨_, _, rfl⟩

/-- After a backslash, what completes the spelling of a character is read as that character. -/
theorem readEscape_eq_ok_iff {s rest : Text} {c : Char} :
    readEscape s = .ok (c, rest) ↔ ∃ part, Spells ('\\' :: part) c ∧ s = part ++ rest := by
  constructor
  · intro h
    unfold readEscape at h
    split at h
    · cases h
    · rename_i letter t
      by_cases hu : letter = 'u'
      · rw [if_pos hu, readCodeEscape_eq_ok_iff] at h
        obtain ⟨part, hspells, rfl⟩ := h
        exact ⟨'u' :: part, hspells, by rw [hu, List.cons_append]⟩
      · rw [if_neg hu] at h
        cases hx : simpleEscape? letter with
        | none =>
          rw [hx] at h
          cases h
        | some x =>
          rw [hx] at h
          obtain ⟨rfl, rfl⟩ := Prod.mk.inj (Except.ok.inj h)
          exact ⟨[letter], .short (simpleEscape?_eq_some_iff.1 hx), rfl⟩
  · rintro ⟨part, hspells, rfl⟩
    obtain ⟨letter, more, rfl⟩ := hspells.exists_letter
    rw [List.cons_append, readEscape]
    by_cases hu : letter = 'u'
    · subst hu
      rw [if_pos rfl]
      exact readCodeEscape_eq_ok_iff.2 ⟨more, hspells, rfl⟩
    · rw [if_neg hu]
      cases hspells with
      | short hmem =>
        rw [simpleEscape?_eq_some_iff.2 hmem]
        rfl
      | code => exact absurd rfl hu
      | pair => exact absurd rfl hu

/-- A string is read character by character: it ends, or an escape or a character of its own stands
before more of it. -/
theorem readStringBody_eq_ok_iff {s xs rest : Text} :
    readStringBody s = .ok (xs, rest) ↔
      (s = '"' :: rest ∧ xs = []) ∨
      (∃ cs x t ys, s = '\\' :: cs ∧ readEscape cs = .ok (x, t) ∧
        readStringBody t = .ok (ys, rest) ∧ xs = x :: ys) ∨
      ∃ c cs ys, s = c :: cs ∧ c ≠ '"' ∧ c ≠ '\\' ∧ ¬ c.toNat < 32 ∧
        readStringBody cs = .ok (ys, rest) ∧ xs = c :: ys := by
  rw [readStringBody.eq_def]
  cases s with
  | nil => simp
  | cons c cs =>
    by_cases hq : c = '"'
    · grind
    · by_cases hb : c = '\\'
      · subst hb
        cases hx : readEscape cs with
        | error e => grind
        | ok found =>
          obtain ⟨x, t⟩ := found
          cases ht : readStringBody t with
          | error e => grind
          | ok more => grind
      · by_cases hcontrol : c.toNat < 32
        · grind
        · cases ht : readStringBody cs with
          | error e => grind
          | ok more => grind

/-- A string is read up to the first quotation mark that is not part of a spelling. -/
theorem readStringBody_eq_ok_iff_spells {s xs rest : Text} :
    readStringBody s = .ok (xs, rest) ↔
      ∃ parts, List.Forall₂ Spells parts xs ∧ s = parts.flatten ++ '"' :: rest := by
  constructor
  · -- on the length; an escape takes more than one character
    intro h
    induction hk : s.length using Nat.strongRecOn generalizing s xs with
    | _ k ih =>
      rcases readStringBody_eq_ok_iff.1 h with ⟨rfl, rfl⟩ | ⟨cs, x, t, ys, rfl, hx, ht, rfl⟩ |
        ⟨c, cs, ys, rfl, hq, hb, hcontrol, ht, rfl⟩
      · exact ⟨[], .nil, rfl⟩
      · have hlt := readEscape_length hx
        rw [List.length_cons] at hk
        obtain ⟨parts, hparts, rfl⟩ := ih t.length (by omega) ht rfl
        obtain ⟨part, hpart, rfl⟩ := readEscape_eq_ok_iff.1 hx
        exact ⟨('\\' :: part) :: parts, .cons hpart hparts, by simp⟩
      · rw [List.length_cons] at hk
        obtain ⟨parts, hparts, rfl⟩ := ih cs.length (by omega) ht rfl
        exact ⟨[c] :: parts, .cons (.plain hq hb (Nat.le_of_not_lt hcontrol)) hparts, rfl⟩
  · rintro ⟨parts, hparts, rfl⟩
    induction hparts with
    | nil => exact readStringBody_eq_ok_iff.2 (Or.inl ⟨rfl, rfl⟩)
    | @cons part x parts ys hpart _ ih =>
      rw [List.flatten_cons, List.append_assoc]
      -- a spelling without a backslash is the character itself
      have hescape {more : Text} (h : Spells ('\\' :: more) x) :
          readStringBody ('\\' :: more ++ (parts.flatten ++ '"' :: rest)) = .ok (x :: ys, rest) :=
        readStringBody_eq_ok_iff.2 (Or.inr (Or.inl
          ⟨more ++ (parts.flatten ++ '"' :: rest), x, _, ys, rfl,
            readEscape_eq_ok_iff.2 ⟨more, h, rfl⟩, ih, rfl⟩))
      cases hpart with
      | plain hq hb hcontrol =>
        exact readStringBody_eq_ok_iff.2 (Or.inr (Or.inr
          ⟨x, _, ys, rfl, hq, hb, Nat.not_lt.2 hcontrol, ih, rfl⟩))
      | short hmem => exact hescape (.short hmem)
      | code hcode => exact hescape (.code hcode)
      | pair hfirst hsecond h₁ h₂ h₃ h₄ hc => exact hescape (.pair hfirst hsecond h₁ h₂ h₃ h₄ hc)

theorem readStringBody_local : Local readStringBody := by
  intro s xs rest h
  obtain ⟨parts, hparts, rfl⟩ := readStringBody_eq_ok_iff_spells.1 h
  refine ⟨parts.flatten ++ ['"'], by simp, ?_⟩
  intro rest' _
  rw [List.append_assoc, List.singleton_append]
  exact readStringBody_eq_ok_iff_spells.2 ⟨parts, hparts, rfl⟩

/-- The reader of strings accepts a literal, with white space around it, and nothing else. -/
theorem whole_readText_eq_ok_iff {t s : Text} :
    whole readText t = .ok s ↔ ∃ before j after, t = before ++ (j ++ after) ∧
      (∀ c ∈ before, isSpace c) ∧ (∀ c ∈ after, isSpace c) ∧ IsLiteral j s := by
  rw [whole_eq_ok_iff]
  constructor
  · rintro ⟨after, hread, hafter⟩
    unfold readText at hread
    cases hskip : skipSpace t with
    | nil =>
      rw [hskip] at hread
      cases hread
    | cons c cs =>
      simp only [hskip] at hread
      by_cases hc : c = '"'
      · rw [if_pos hc, readStringBody_eq_ok_iff_spells] at hread
        obtain ⟨parts, hparts, rfl⟩ := hread
        obtain ⟨before, rfl, hbefore, -⟩ := skipSpace_eq_cons_iff.1 hskip
        refine ⟨before, '"' :: (parts.flatten ++ ['"']), after, by simp [hc], hbefore, ?_, parts,
          hparts, rfl⟩
        exact List.dropWhile_eq_nil_iff.1 hafter
      · rw [if_neg hc] at hread
        cases hread
  · rintro ⟨before, _, after, rfl, hbefore, hafter, parts, hparts, rfl⟩
    refine ⟨after, ?_, List.dropWhile_eq_nil_iff.2 hafter⟩
    have hskip : skipSpace (before ++ ('"' :: (parts.flatten ++ ['"']) ++ after)) =
        '"' :: (parts.flatten ++ '"' :: after) :=
      skipSpace_eq_cons_iff.2 ⟨before, by simp, hbefore, by decide⟩
    rw [readText, hskip]
    exact readStringBody_eq_ok_iff_spells.2 ⟨parts, hparts, rfl⟩

namespace IsLiteral

variable {j s t : Text}

theorem trimmed (h : IsLiteral j s) : Text.Trimmed j := by
  obtain ⟨parts, -, rfl⟩ := h
  constructor
  · intro c hc
    obtain rfl := Option.some.inj hc
    decide
  · intro c hc
    rw [← List.cons_append, List.getLast?_concat] at hc
    obtain rfl := Option.some.inj hc
    decide

theorem ne_nil (h : IsLiteral j s) : j ≠ [] := by
  obtain ⟨parts, -, rfl⟩ := h
  exact List.cons_ne_nil _ _

/-- A literal stands on one line. -/
theorem newline_not_mem (h : IsLiteral j s) : '\n' ∉ j := by
  obtain ⟨parts, hparts, rfl⟩ := h
  have hall : ∀ part ∈ parts, '\n' ∉ part := by
    induction hparts with
    | nil => simp
    | cons hpart _ ih => exact List.forall_mem_cons.2 ⟨hpart.newline_not_mem, ih⟩
  intro hmem
  rcases List.mem_cons.1 hmem with hmem | hmem
  · exact absurd hmem (by decide)
  · rcases List.mem_append.1 hmem with hmem | hmem
    · obtain ⟨part, hpart, hmem⟩ := List.mem_flatten.1 hmem
      exact hall part hpart hmem
    · exact absurd hmem (by decide)

end IsLiteral

/-- A trimmed text is read as a string exactly if it is a literal of that string. -/
theorem whole_readText_trimmed_iff {t s : Text} (ht : Text.Trimmed t) :
    whole readText t = .ok s ↔ IsLiteral t s := by
  rw [whole_readText_eq_ok_iff]
  constructor
  · rintro ⟨before, j, after, rfl, hbefore, hafter, hj⟩
    have htrim := hj.trimmed.trim_between hj.ne_nil (fun c hc => isBlank_of_isSpace (hbefore c hc))
      fun c hc => isBlank_of_isSpace (hafter c hc)
    rwa [← ht.trim_eq, htrim]
  · intro h
    exact ⟨[], t, [], by simp, by simp, by simp, h⟩

theorem hexCode_hex4 {n : Nat} (h : n < 65536) : HexCode (hex4 n) n := by
  have hdigit (m : Nat) : IsHexDigit (hexDigit (m % 16)) (m % 16) :=
    ⟨Nat.mod_lt _ (by decide), Or.inl rfl⟩
  have hvalue : n / 4096 % 16 * 4096 + n / 256 % 16 * 256 + n / 16 % 16 * 16 + n % 16 = n := by omega
  have hcode := HexCode.mk (hdigit (n / 4096)) (hdigit (n / 256)) (hdigit (n / 16)) (hdigit n)
  rwa [hvalue] at hcode

/-- A character is printed in one of the ways to write it. -/
theorem spells_escapeChar (c : Char) : Spells (escapeChar c) c := by
  unfold escapeChar
  split_ifs with hq hb hn hr ht h8 h12 hcontrol
  · exact .short (by rw [hq]; decide)
  · exact .short (by rw [hb]; decide)
  · exact .short (by rw [hn]; decide)
  · exact .short (by rw [hr]; decide)
  · exact .short (by rw [ht]; decide)
  · exact .short (by rw [← Char.ofNat_toNat c, h8]; decide)
  · exact .short (by rw [← Char.ofNat_toNat c, h12]; decide)
  · exact .code (hexCode_hex4 (by omega))
  · exact .plain hq hb (by omega)

theorem spells_map_escapeChar (s : Text) : List.Forall₂ Spells (s.map escapeChar) s := by
  rw [List.forall₂_map_left_iff]
  exact List.forall₂_same.2 fun c _ => spells_escapeChar c

/-- The printer writes a literal of the string. -/
theorem isLiteral_quote (s : Text) : IsLiteral (quote s) s :=
  ⟨s.map escapeChar, spells_map_escapeChar s, by rw [quote, List.flatMap]⟩

/-- What is printed of a string is read back, whatever comes after it. -/
theorem readStringBody_quote (s rest : Text) :
    readStringBody (s.flatMap escapeChar ++ '"' :: rest) = .ok (s, rest) :=
  readStringBody_eq_ok_iff_spells.2
    ⟨s.map escapeChar, spells_map_escapeChar s, by rw [List.flatMap]⟩

end Folio.Json
