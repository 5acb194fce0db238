import Folio.Document.Segment

/-! The lines of a document are tiled by stretches: blank lines, claims by the first rule that
matches, and maximal runs of text. There is one such tiling, and its tokens are the tokens of the
document, as long as the cursor stays within 64 bits after each claim. The directives of the registry
may claim whatever they like. -/
namespace Folio

/-- What claims lines: from a line, given trimmed, with all lines and its index. -/
abbrev Rule := Text → List Text → Nat → Claim

namespace Rule

def flag : Rule := fun line _ _ =>
  if line ∈ Kind.flags then .single line "true".toList else .none

/-- A keyword with an argument, for a token of a kind. -/
def keyword (word kind : Text) : Rule := fun line _ _ =>
  match Lines.argument? word line with
  | some argument => .single kind argument
  | none => .none

def metadata : Rule := fun _ lines index =>
  match Frontmatter.capture? (lines.drop index) with
  | some (object, spanned) => ⟨spanned, [⟨Kind.frontmatter, object⟩]⟩
  | none => .none

def script : Rule := Directive.claimBlock Kind.script

/-- The rules before those of the registry. -/
def builtin : List Rule :=
  [flag, keyword Kind.importKind Kind.importKind, keyword "var".toList Kind.variableKind, metadata,
    script]

def all (r : Registry) : List Rule := builtin ++ r.map Directive.claim

end Rule

namespace Segment

/-- A line is claimed by the first rule that matches. -/
def FirstClaim (r : Registry) (lines : List Text) (index : Nat) (c : Claim) : Prop :=
  ∃ before rule after, Rule.all r = before ++ rule :: after ∧
    (∀ q ∈ before, ¬ (q (lineAt lines index) lines index).isMatch) ∧
    rule (lineAt lines index) lines index = c ∧ c.isMatch

def BlankAt (lines : List Text) (index : Nat) : Prop := lineAt lines index = []

def ClaimedAt (r : Registry) (lines : List Text) (index : Nat) : Prop :=
  ∃ c, FirstClaim r lines index c

theorem builtinClaim?_eq_find? (line : Text) (lines : List Text) (index : Nat) :
    builtinClaim? line lines index =
      (Rule.builtin.map fun q => q line lines index).find? Claim.isMatch := by
  have hnone : Claim.none.isMatch = false := rfl
  have hsome (n : Nat) (t : Token) (ts : List Token) : (Claim.mk n (t :: ts)).isMatch = true := rfl
  have hsingle (k v : Text) : (Claim.single k v).isMatch = true := rfl
  unfold builtinClaim? Rule.builtin Rule.flag Rule.keyword Rule.metadata Rule.script
  simp only [List.map_cons, List.map_nil, List.find?_cons, List.find?_nil]
  -- the conditions are tested in the order of the rules
  by_cases hf : line ∈ Kind.flags
  · simp only [hf, if_true, hsingle]
  · simp only [hf, if_false, hnone]
    cases Lines.argument? Kind.importKind line with
    | some path => simp only [hsingle]
    | none =>
      cases Lines.argument? "var".toList line with
      | some definition => simp only [hnone, hsingle]
      | none =>
        cases Frontmatter.capture? (lines.drop index) with
        | some found => simp only [hnone, hsome]
        | none =>
          simp only [hnone]
          cases (Directive.claimBlock Kind.script line lines index).isMatch <;> rfl

/-- The claim on a line is that of the first of all rules that matches. -/
theorem claimAt?_eq_find? (r : Registry) (lines : List Text) (index : Nat) :
    claimAt? r lines index =
      ((Rule.all r).map fun q => q (lineAt lines index) lines index).find? Claim.isMatch := by
  unfold claimAt? Registry.claim? Rule.all
  rw [builtinClaim?_eq_find?, List.map_append, List.find?_append, List.map_map]
  rfl

theorem claimAt?_eq_some_iff {r : Registry} {lines : List Text} {index : Nat} {c : Claim} :
    claimAt? r lines index = some c ↔ FirstClaim r lines index c := by
  rw [claimAt?_eq_find?, List.find?_eq_some_iff_append]
  constructor
  · rintro ⟨hm, as, bs, hsplit, has⟩
    obtain ⟨before, rest, hrules, rfl, hrest⟩ := List.map_eq_append_iff.1 hsplit
    obtain ⟨rule, after, rfl, hc, rfl⟩ := List.map_eq_cons_iff.1 hrest
    refine ⟨before, rule, after, hrules, ?_, hc, hm⟩
    intro q hq
    simpa using has _ (List.mem_map.2 ⟨q, hq, rfl⟩)
  · rintro ⟨before, rule, after, hrules, hbefore, hc, hm⟩
    refine ⟨hm, before.map fun q => q (lineAt lines index) lines index,
      after.map fun q => q (lineAt lines index) lines index, ?_, ?_⟩
    · rw [hrules, List.map_append, List.map_cons, hc]
    · intro a ha
      obtain ⟨q, hq, rfl⟩ := List.mem_map.1 ha
      simpa using hbefore q hq

/-- What holds of the claims of all rules holds of the claim on a line. -/
theorem claimAt?_of_rules {r : Registry} {motive : Claim → Prop} {lines : List Text} {i : Nat}
    {c : Claim}
    (hbuiltin : ∀ q ∈ Rule.builtin, motive (q (lineAt lines i) lines i))
    (hdirectives : ∀ d ∈ r, motive (d.claim (lineAt lines i) lines i))
    (hc : claimAt? r lines i = some c) : motive c := by
  obtain ⟨before, rule, after, hrules, _, rfl, _⟩ := claimAt?_eq_some_iff.1 hc
  have hrule : rule ∈ Rule.builtin ++ r.map Directive.claim := by
    rw [show Rule.builtin ++ r.map Directive.claim = _ from hrules]
    simp
  rcases List.mem_append.1 hrule with hrule | hrule
  · exact hbuiltin rule hrule
  · obtain ⟨d, hd, rfl⟩ := List.mem_map.1 hrule
    exact hdirectives d hd

theorem claimAt?_isSome_iff {r : Registry} {lines : List Text} {index : Nat} :
    (claimAt? r lines index).isSome ↔ ClaimedAt r lines index := by
  rw [Option.isSome_iff_exists]
  exact exists_congr fun c => claimAt?_eq_some_iff

theorem claimAt?_eq_none_iff {r : Registry} {lines : List Text} {index : Nat} :
    claimAt? r lines index = none ↔ ¬ ClaimedAt r lines index := by
  rw [← claimAt?_isSome_iff, Option.not_isSome_iff_eq_none]

theorem FirstClaim.unique {r : Registry} {lines : List Text} {index : Nat} {c d : Claim}
    (hc : FirstClaim r lines index c) (hd : FirstClaim r lines index d) : c = d := by
  have h := (claimAt?_eq_some_iff.2 hc).symm.trans (claimAt?_eq_some_iff.2 hd)
  exact Option.some.inj h

theorem endsRun_iff {r : Registry} {lines : List Text} {index : Nat} :
    endsRun r lines index ↔ BlankAt lines index ∨ ClaimedAt r lines index := by
  rw [endsRun, Bool.or_eq_true, List.isEmpty_iff, claimAt?_isSome_iff, BlankAt]

end Segment

open Segment

/-- Consecutive lines, and the tokens that they give together. -/
structure Stretch where
  start : Nat
  length : Nat
  tokens : List Token
deriving DecidableEq, Repr

/-- A line of running text: neither blank nor claimed. -/
def IsRunning (r : Registry) (lines : List Text) (index : Nat) : Prop :=
  ¬ BlankAt lines index ∧ ¬ ClaimedAt r lines index

/-- The three kinds of stretches. A claim of no line takes one, and none goes past the last line;
a run of text stops only at the end, at a blank line, or at a claimed one. -/
inductive Stretch.Valid (r : Registry) (lines : List Text) : Stretch → Prop
  | blank {i : Nat} : i < lines.length → BlankAt lines i → Valid r lines ⟨i, 1, []⟩
  | claimed {i : Nat} {c : Claim} : i < lines.length → ¬ BlankAt lines i →
      FirstClaim r lines i c →
      Valid r lines ⟨i, min (max 1 c.jumped) (lines.length - i), c.tokens⟩
  | run {i n : Nat} : 0 < n → i + n ≤ lines.length →
      (∀ j, i ≤ j → j < i + n → IsRunning r lines j) →
      (i + n = lines.length ∨ BlankAt lines (i + n) ∨ ClaimedAt r lines (i + n)) →
      Valid r lines
        ⟨i, n, [⟨Kind.text, Text.joinWith [' '] (((lines.drop i).take n).map Text.trim)⟩]⟩

/-- If a claim starts on the first line, the cursor can stand where it leads. -/
def Stretch.Fits (r : Registry) (lines : List Text) (s : Stretch) : Prop :=
  ¬ BlankAt lines s.start → ∀ c, FirstClaim r lines s.start c →
    Addressable lines.length (s.start + max 1 c.jumped)

/-- Valid stretches one after another from a line to the last one. -/
def Tiles (r : Registry) (lines : List Text) : Nat → List Stretch → Prop
  | i, [] => i = lines.length
  | i, s :: ss => s.start = i ∧ s.Valid r lines ∧ Tiles r lines (i + s.length) ss

namespace Stretch.Valid

variable {r : Registry} {lines : List Text} {s t : Stretch}

theorem start_lt (h : s.Valid r lines) : s.start < lines.length := by
  cases h with
  | blank hi _ => exact hi
  | claimed hi _ _ => exact hi
  | run hn hle _ _ => dsimp only; omega

/-- What starts at a line of running text is a run that the line belongs to. -/
theorem tokens_of_running (h : s.Valid r lines) (hr : IsRunning r lines s.start) :
    0 < s.length ∧ s.start + s.length ≤ lines.length ∧
      (∀ j, s.start ≤ j → j < s.start + s.length → IsRunning r lines j) ∧
      (s.start + s.length = lines.length ∨ ¬ IsRunning r lines (s.start + s.length)) ∧
      s.tokens = [⟨Kind.text,
        Text.joinWith [' '] (((lines.drop s.start).take s.length).map Text.trim)⟩] := by
  cases h with
  | blank _ hb => exact absurd hb hr.1
  | claimed _ _ hc => exact absurd ⟨_, hc⟩ hr.2
  | run hn hle hrun hend =>
    refine ⟨hn, hle, hrun, ?_, rfl⟩
    rcases hend with he | hb | hc
    · exact Or.inl he
    · exact Or.inr fun h => h.1 hb
    · exact Or.inr fun h => h.2 hc

/-- A run is maximal, so that two runs from one line have one length. -/
theorem run_length_le {n m i : Nat} (hle : i + m ≤ lines.length)
    (hm : ∀ j, i ≤ j → j < i + m → IsRunning r lines j)
    (hn : i + n = lines.length ∨ ¬ IsRunning r lines (i + n)) : m ≤ n := by
  apply Nat.le_of_not_lt
  intro hlt
  rcases hn with he | hstop
  · omega
  · exact hstop (hm (i + n) (by omega) (by omega))

theorem unique (hs : s.Valid r lines) (ht : t.Valid r lines) (h : s.start = t.start) : s = t := by
  obtain ⟨i, n, ts⟩ := s
  obtain ⟨j, m, us⟩ := t
  obtain rfl : i = j := h
  -- the first line decides the kind: blank, claimed or running
  by_cases hb : BlankAt lines i
  · cases hs with
    | claimed _ hn _ => exact absurd hb hn
    | run hn _ hrun _ => exact absurd hb (hrun i (by omega) (by omega)).1
    | blank _ _ => cases ht with
      | blank _ _ => rfl
      | claimed _ hn _ => exact absurd hb hn
      | run hn _ hrun _ => exact absurd hb (hrun i (by omega) (by omega)).1
  · by_cases hc : ClaimedAt r lines i
    · cases hs with
      | blank _ hb' => exact absurd hb' hb
      | run hn _ hrun _ => exact absurd hc (hrun i (by omega) (by omega)).2
      | claimed _ _ h1 => cases ht with
        | blank _ hb' => exact absurd hb' hb
        | run hn _ hrun _ => exact absurd hc (hrun i (by omega) (by omega)).2
        | claimed _ _ h2 => rw [h1.unique h2]
    · obtain ⟨_, hle1, hrun1, hend1, hts⟩ := hs.tokens_of_running ⟨hb, hc⟩
      obtain ⟨_, hle2, hrun2, hend2, hus⟩ := ht.tokens_of_running ⟨hb, hc⟩
      have hnm : n = m := Nat.le_antisymm (run_length_le hle1 hrun1 hend2)
        (run_length_le hle2 hrun2 hend1)
      subst hnm
      exact congrArg (Stretch.mk i n) (hts.trans hus.symm)

end Stretch.Valid

theorem Tiles.valid {r : Registry} {lines : List Text} {i : Nat} {ss : List Stretch}
    (h : Tiles r lines i ss) : ∀ s ∈ ss, s.Valid r lines := by
  induction ss generalizing i with
  | nil => simp
  | cons s ss ih => exact List.forall_mem_cons.2 ⟨h.2.1, ih h.2.2⟩

/-- No two tilings start at one line. -/
theorem Tiles.unique {r : Registry} {lines : List Text} {i : Nat} {ss ts : List Stretch}
    (hs : Tiles r lines i ss) (ht : Tiles r lines i ts) : ss = ts := by
  induction ss generalizing i ts with
  | nil =>
    cases ts with
    | nil => rfl
    | cons t ts =>
      -- a stretch would start past the last line
      have hlt := ht.2.1.start_lt
      rw [ht.1, show i = lines.length from hs] at hlt
      exact absurd hlt (Nat.lt_irrefl _)
  | cons s ss ih =>
    cases ts with
    | nil =>
      have hlt := hs.2.1.start_lt
      rw [hs.1, show i = lines.length from ht] at hlt
      exact absurd hlt (Nat.lt_irrefl _)
    | cons t ts =>
      have hst : s = t := hs.2.1.unique ht.2.1 (hs.1.trans ht.1.symm)
      subst hst
      rw [ih hs.2.2 ht.2.2]

namespace Segment

variable {r : Registry} {lines : List Text}

theorem lineAt_eq {index : Nat} (h : index < lines.length) :
    lineAt lines index = Text.trim lines[index] := by
  rw [lineAt, List.getElem?_eq_getElem h, Option.getD_some]

theorem trim_take_succ {i n : Nat} (h : i < lines.length) :
    ((lines.drop i).take (n + 1)).map Text.trim =
      lineAt lines i :: ((lines.drop (i + 1)).take n).map Text.trim := by
  rw [List.drop_eq_getElem_cons h, List.take_succ_cons, List.map_cons, lineAt_eq h]

/-- The further lines of a run are all running text up to where they stop. -/
theorem runFrom_spec (r : Registry) (lines : List Text) (index : Nat) (h : index ≤ lines.length) :
    runFrom r lines index =
        ((lines.drop index).take (runFrom r lines index).length).map Text.trim ∧
      index + (runFrom r lines index).length ≤ lines.length ∧
      (∀ j, index ≤ j → j < index + (runFrom r lines index).length → IsRunning r lines j) ∧
      (index + (runFrom r lines index).length = lines.length ∨
        BlankAt lines (index + (runFrom r lines index).length) ∨
        ClaimedAt r lines (index + (runFrom r lines index).length)) := by
  -- on the number of lines left
  induction hk : lines.length - index generalizing index with
  | zero =>
    have he : index = lines.length := by omega
    subst he
    unfold runFrom
    simp only [Nat.lt_irrefl, if_false, List.length_nil, List.take_zero, List.map_nil, Nat.add_zero,
      true_and, true_or, Nat.le_refl, and_true]
    exact fun j h1 h2 => absurd h2 (by omega)
  | succ k ih =>
    have hlt : index < lines.length := by omega
    unfold runFrom
    rw [if_pos hlt]
    by_cases he : endsRun r lines index
    · simp only [he, if_true, List.length_nil, List.take_zero, List.map_nil, Nat.add_zero, true_and]
      exact ⟨h, fun j h1 h2 => absurd h2 (by omega), Or.inr (endsRun_iff.1 he)⟩
    · have hrun : IsRunning r lines index := not_or.1 (mt endsRun_iff.2 he)
      obtain ⟨h1, h2, h3, h4⟩ := ih (index + 1) (by omega) (by omega)
      simp only [he, Bool.false_eq_true, if_false, List.length_cons]
      have hshift : index + ((runFrom r lines (index + 1)).length + 1) =
          index + 1 + (runFrom r lines (index + 1)).length := by omega
      refine ⟨?_, by omega, ?_, by rw [hshift]; exact h4⟩
      · rw [trim_take_succ hlt, ← h1]
      · intro j hj1 hj2
        rcases Nat.eq_or_lt_of_le hj1 with rfl | hj
        · exact hrun
        · exact h3 j hj (by omega)

/-- The stretch of a whole run of text. -/
theorem run_valid {i : Nat} (hi : i < lines.length) (hr : IsRunning r lines i) :
    Stretch.Valid r lines ⟨i, 1 + (runFrom r lines (i + 1)).length,
      [⟨Kind.text, Text.joinWith [' '] (lineAt lines i :: runFrom r lines (i + 1))⟩]⟩ := by
  obtain ⟨h1, h2, h3, h4⟩ := runFrom_spec r lines (i + 1) hi
  have hshift : i + (1 + (runFrom r lines (i + 1)).length) =
      i + 1 + (runFrom r lines (i + 1)).length := by omega
  have htrim : lineAt lines i :: runFrom r lines (i + 1) =
      ((lines.drop i).take (1 + (runFrom r lines (i + 1)).length)).map Text.trim := by
    rw [Nat.add_comm 1, trim_take_succ hi, ← h1]
  rw [htrim]
  refine .run (by omega) (by omega) ?_ (by rw [hshift]; exact h4)
  intro j hj1 hj2
  rcases Nat.eq_or_lt_of_le hj1 with rfl | hj
  · exact hr
  · exact h3 j hj (by omega)

theorem startingAt_end {i : Nat} (h : lines.length ≤ i) : startingAt r lines i = [] := by
  unfold startingAt
  rw [if_neg (Nat.not_lt.2 h)]

theorem startingAt_blank {i : Nat} (hi : i < lines.length) (hb : BlankAt lines i) :
    startingAt r lines i = .blank :: startingAt r lines (i + 1) := by
  have hempty : (lineAt lines i).isEmpty = true := List.isEmpty_iff.2 hb
  rw [startingAt]
  simp only [hi, if_true, hempty]

theorem isEmpty_lineAt {i : Nat} (hb : ¬ BlankAt lines i) : (lineAt lines i).isEmpty = false := by
  rw [Bool.eq_false_iff, ne_eq, List.isEmpty_iff]
  exact hb

theorem startingAt_claimed {i : Nat} {c : Claim} (hi : i < lines.length) (hb : ¬ BlankAt lines i)
    (hc : claimAt? r lines i = some c) (hfits : Addressable lines.length (i + max 1 c.jumped)) :
    startingAt r lines i =
      .claimed (lineAt lines i) c :: startingAt r lines (i + max 1 c.jumped) := by
  rw [startingAt]
  simp only [hi, if_true, isEmpty_lineAt hb, Bool.false_eq_true, if_false, hc, hfits]

theorem startingAt_overflow {i : Nat} {c : Claim} (hi : i < lines.length) (hb : ¬ BlankAt lines i)
    (hc : claimAt? r lines i = some c) (hfits : ¬ Addressable lines.length (i + max 1 c.jumped)) :
    startingAt r lines i = [.overflow c] := by
  rw [startingAt]
  simp only [hi, if_true, isEmpty_lineAt hb, Bool.false_eq_true, if_false, hc, hfits]

theorem startingAt_run {i : Nat} (hi : i < lines.length) (hb : ¬ BlankAt lines i)
    (hc : claimAt? r lines i = none) :
    startingAt r lines i = .run (lineAt lines i :: runFrom r lines (i + 1)) ::
      startingAt r lines (i + 1 + (runFrom r lines (i + 1)).length) := by
  rw [startingAt]
  simp only [hi, if_true, isEmpty_lineAt hb, Bool.false_eq_true, if_false, hc]

/-- Segments that are read from stretches. The cursor overflows just if one of these does not fit, and
otherwise nothing is lost. -/
structure Reads (r : Registry) (lines : List Text) (gs : List Segment) (ss : List Stretch) :
    Prop where
  complete : .overflow ∉ gs.flatMap warnings ↔ ∀ s ∈ ss, s.Fits r lines
  tokens : .overflow ∉ gs.flatMap warnings → gs.flatMap Segment.tokens = ss.flatMap Stretch.tokens

namespace Reads

variable {g : Segment} {gs : List Segment} {s : Stretch} {ss : List Stretch}

theorem nil : Reads r lines [] [] := ⟨by simp, fun _ => rfl⟩

theorem cons (hg : .overflow ∉ g.warnings) (hs : s.Fits r lines) (htokens : g.tokens = s.tokens)
    (h : Reads r lines gs ss) : Reads r lines (g :: gs) (s :: ss) := by
  have hlog : .overflow ∉ (g :: gs).flatMap warnings ↔ .overflow ∉ gs.flatMap warnings := by
    rw [List.flatMap_cons, List.mem_append, not_or, and_iff_right hg]
  refine ⟨?_, fun hgs => ?_⟩
  · rw [hlog, h.complete, List.forall_mem_cons, and_iff_right hs]
  · rw [List.flatMap_cons, List.flatMap_cons, htokens, h.tokens (hlog.1 hgs)]

/-- The scan ends at a stretch that does not fit, whatever comes after it. -/
theorem overflow {c : Claim} (hs : ¬ s.Fits r lines) : Reads r lines [.overflow c] (s :: ss) := by
  have hlog : Warning.overflow ∈ [Segment.overflow c].flatMap warnings := List.mem_singleton_self _
  refine ⟨⟨fun h => absurd hlog h, fun h => ?_⟩, fun h => absurd hlog h⟩
  exact absurd (h s List.mem_cons_self) hs

end Reads

/-- Only a claim can lead the cursor too far. -/
theorem fits_of_not_claimed {s : Stretch} (h : BlankAt lines s.start ∨ ¬ ClaimedAt r lines s.start) :
    s.Fits r lines := by
  intro hb c hc
  rcases h with h | h
  · exact absurd h hb
  · exact absurd ⟨c, hc⟩ h

theorem overflow_not_mem_warnings {line : Text} {c : Claim} :
    .overflow ∉ (Segment.claimed line c).warnings := by
  rw [warnings]
  split <;> simp

/-- The lines from a line on have a tiling, and the segments from there are read from it. -/
theorem exists_tiles (r : Registry) (lines : List Text) (i : Nat) (hi : i ≤ lines.length) :
    ∃ ss, Tiles r lines i ss ∧ Reads r lines (startingAt r lines i) ss := by
  -- on the number of lines left; a segment takes at least one
  induction hk : lines.length - i using Nat.strongRecOn generalizing i with
  | _ k ih =>
    by_cases hlt : i < lines.length
    · by_cases hb : BlankAt lines i
      · obtain ⟨ss, ht, hreads⟩ := ih _ (by omega) (i + 1) hlt rfl
        refine ⟨⟨i, 1, []⟩ :: ss, ⟨rfl, .blank hlt hb, ht⟩, ?_⟩
        rw [startingAt_blank hlt hb]
        exact hreads.cons (List.not_mem_nil) (fits_of_not_claimed (Or.inl hb)) rfl
      · cases hc : claimAt? r lines i with
        | some c =>
          have hfirst := claimAt?_eq_some_iff.1 hc
          -- a claim may go past the last line; its stretch ends there
          obtain ⟨ss, ht, hreads⟩ : ∃ ss,
              Tiles r lines (i + min (max 1 c.jumped) (lines.length - i)) ss ∧
                Reads r lines (startingAt r lines (i + max 1 c.jumped)) ss := by
            by_cases hend : i + max 1 c.jumped ≤ lines.length
            · rw [Nat.min_eq_left (by omega)]
              exact ih _ (by omega) (i + max 1 c.jumped) hend rfl
            · rw [Nat.min_eq_right (by omega), startingAt_end (by omega)]
              exact ⟨[], Nat.add_sub_cancel' hi, .nil⟩
          refine ⟨_ :: ss, ⟨rfl, .claimed hlt hb hfirst, ht⟩, ?_⟩
          by_cases hfits : Addressable lines.length (i + max 1 c.jumped)
          · rw [startingAt_claimed hlt hb hc hfits]
            refine hreads.cons overflow_not_mem_warnings (fun _ d hd => ?_) rfl
            rwa [hd.unique hfirst]
          · rw [startingAt_overflow hlt hb hc hfits]
            exact .overflow fun h => hfits (h hb c hfirst)
        | none =>
          have hr : IsRunning r lines i := ⟨hb, claimAt?_eq_none_iff.1 hc⟩
          have hle := (runFrom_spec r lines (i + 1) hlt).2.1
          obtain ⟨ss, ht, hreads⟩ := ih _ (by omega) _ hle rfl
          refine ⟨_ :: ss, ⟨rfl, run_valid hlt hr, by rw [← Nat.add_assoc]; exact ht⟩, ?_⟩
          rw [startingAt_run hlt hb hc]
          exact hreads.cons (List.not_mem_nil) (fits_of_not_claimed (Or.inr hr.2)) rfl
    · rw [startingAt_end (Nat.not_lt.1 hlt)]
      exact ⟨[], Nat.le_antisymm hi (Nat.not_lt.1 hlt), .nil⟩

end Segment

/-- The lines of a document are tiled in one way. They are read to the end just if every claim of the
tiling fits, and the tokens of the document are then those of its stretches. -/
theorem tokenize_tiles (r : Registry) (source : Text) :
    ∃ ss, (∀ ts, Tiles r (Text.lines source) 0 ts ↔ ts = ss) ∧
      (.overflow ∉ (tokenize r source).log ↔ ∀ s ∈ ss, s.Fits r (Text.lines source)) ∧
      (.overflow ∉ (tokenize r source).log →
        (tokenize r source).value = ss.flatMap Stretch.tokens) := by
  obtain ⟨ss, ht, hreads⟩ := exists_tiles r (Text.lines source) 0 (Nat.zero_le _)
  refine ⟨ss, fun ts => ⟨fun h => h.unique ht, ?_⟩, hreads.complete, hreads.tokens⟩
  rintro rfl
  exact ht

/-- A directive that claims the lines with nothing but its keyword, each with as many lines after it
as it likes. -/
def Directive.jumping (keyword : Text) (jumped : Nat) : Directive where
  keyword := keyword
  claim := fun line _ _ => if line = keyword then ⟨jumped, [⟨keyword, line⟩]⟩ else .none
  parse := fun _ _ => none
  render := fun _ => none

/-- One claim of no line, and one that goes past the last line. -/
theorem tokenize_tiles_jumping :
    let r := [Directive.jumping "stall".toList 0, .jumping "over".toList 3]
    ∃ ss, Tiles r (Text.lines "stall\nover\nlost".toList) 0 ss ∧
      .overflow ∉ (tokenize r "stall\nover\nlost".toList).log ∧
      (tokenize r "stall\nover\nlost".toList).value = ss.flatMap Stretch.tokens ∧
      ss.flatMap Stretch.tokens =
        [⟨"stall".toList, "stall".toList⟩, ⟨"over".toList, "over".toList⟩] := by
  intro r
  obtain ⟨ss, hss, _, hvalue⟩ := tokenize_tiles r "stall\nover\nlost".toList
  have hlog : .overflow ∉ (tokenize r "stall\nover\nlost".toList).log := by decide +kernel
  exact ⟨ss, (hss ss).2 rfl, hlog, hvalue hlog, (hvalue hlog).symm.trans (by decide +kernel)⟩

/-- The largest jump from the second line. Its claim is the last stretch of the tiling, but the cursor
overflows before the token is kept. -/
theorem tokenize_leaping :
    let r := [Directive.jumping "leap".toList (UInt64.size - 1)]
    (tokenize r "\nleap".toList).log = [.overflow] ∧
      ¬ ∃ ss, Tiles r (Text.lines "\nleap".toList) 0 ss ∧
        (tokenize r "\nleap".toList).value = ss.flatMap Stretch.tokens := by
  intro r
  refine ⟨by decide +kernel, ?_⟩
  rintro ⟨ss, hss, hvalue⟩
  have hlines : Text.lines "\nleap".toList = [[], "leap".toList] := by decide
  have hleap : claimAt? r [[], "leap".toList] 1 =
      some ⟨UInt64.size - 1, [⟨"leap".toList, "leap".toList⟩]⟩ := by decide +kernel
  have hshown : ¬ BlankAt [[], "leap".toList] 1 := List.cons_ne_nil 'l' "eap".toList
  have htiles : Tiles r [[], "leap".toList] 0
      [⟨0, 1, []⟩, ⟨1, 1, [⟨"leap".toList, "leap".toList⟩]⟩] :=
    ⟨rfl, .blank (by decide) rfl, rfl,
      .claimed (by decide) hshown (claimAt?_eq_some_iff.1 hleap), rfl⟩
  rw [hlines] at hss
  obtain rfl := hss.unique htiles
  have hnone : (tokenize r "\nleap".toList).value = [] := by decide +kernel
  cases hnone.symm.trans hvalue

end Folio
