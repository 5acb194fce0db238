import Folio.Proofs.Text.Trim
import Folio.Proofs.Toml.Values
import Folio.Site.Settings

namespace Folio.Settings

open Toml (IsValue lookup_eq_none_iff mem_of_lookup lookup_of_mem)

section Records

variable {α β : Type} {a b : α} {key : Text} {ms : List (Text × Data)}

/-- What a table gives a field: what the value under its key means, or the default without one. -/
def Gives (means : Data → β → Prop) (standard : β) (key : Text) (ms : List (Text × Data))
    (value : β) : Prop :=
  match ms.lookup key with
  | some d => means d value
  | none => value = standard

theorem gives_of_some {means : Data → β → Prop} {standard value : β} {d : Data}
    (h : ms.lookup key = some d) : Gives means standard key ms value ↔ means d value := by
  rw [Gives, h]

theorem gives_of_none {means : Data → β → Prop} {standard value : β}
    (h : ms.lookup key = none) : Gives means standard key ms value ↔ value = standard := by
  rw [Gives, h]

theorem gives_congr {means means' : Data → β → Prop} {standard value : β}
    (h : ∀ d, ms.lookup key = some d → (means d value ↔ means' d value)) :
    Gives means standard key ms value ↔ Gives means' standard key ms value := by
  cases hkey : ms.lookup key with
  | none => rw [gives_of_none hkey, gives_of_none hkey]
  | some d => rw [gives_of_some hkey, gives_of_some hkey, h d hkey]

theorem Gives.unique {means : Data → β → Prop} {standard v v' : β}
    (hmeans : ∀ d v v', means d v → means d v' → v = v') (h : Gives means standard key ms v)
    (h' : Gives means standard key ms v') : v = v' := by
  cases hkey : ms.lookup key with
  | none => exact ((gives_of_none hkey).1 h).trans ((gives_of_none hkey).1 h').symm
  | some d => exact hmeans d v v' ((gives_of_some hkey).1 h) ((gives_of_some hkey).1 h')

/-- A part of a record and the field that sets it. -/
structure Part (α : Type) where
  {β : Type}
  key : Text
  read : Data → Except Mismatch β
  get : α → β
  set : α → β → α
  get_set : ∀ a v, get (set a v) = v

def Part.field (p : Part α) : Field α := (p.key, fun a d => (p.read d).map (p.set a))

/-- Parts that make up a record: each has its own key and stays when another one is set, and records
with the same parts are equal. -/
structure Composes (parts : List (Part α)) : Prop where
  distinct : (parts.map Part.key).Nodup
  apart : ∀ p ∈ parts, ∀ q ∈ parts, p.key ≠ q.key → ∀ a v, p.get (q.set a v) = p.get a
  whole : ∀ a b, (∀ p ∈ parts, p.get a = p.get b) → a = b

variable {parts : List (Part α)}

/-- The first member of a table is read into the part that has its key. -/
theorem Composes.ofMembers_cons_eq_ok_iff (hparts : Composes parts) {d : Data} :
    ofMembers (parts.map Part.field) a ((key, d) :: ms) = .ok b ↔
      ∃ p ∈ parts, p.key = key ∧ ∃ v, p.read d = .ok v ∧
        ofMembers (parts.map Part.field) (p.set a v) ms = .ok b := by
  have hkeys : (parts.map Part.field).map Prod.fst = parts.map Part.key := by
    rw [List.map_map]
    rfl
  rw [ofMembers]
  constructor
  · intro h
    split at h
    · cases h
    · next hlookup =>
      obtain ⟨p, hp, heq⟩ := List.mem_map.1 (mem_of_lookup hlookup)
      cases heq
      refine ⟨p, hp, rfl, ?_⟩
      dsimp only at h
      cases hread : p.read d with
      | error m =>
        rw [hread] at h
        cases h
      | ok v =>
        rw [hread] at h
        exact ⟨v, rfl, h⟩
  · rintro ⟨p, hp, rfl, v, hread, h⟩
    have hlookup : (parts.map Part.field).lookup p.key = some (Part.field p).2 :=
      lookup_of_mem (hkeys ▸ hparts.distinct) (List.mem_map_of_mem hp)
    rw [hlookup, Part.field]
    dsimp only
    rw [hread]
    exact h

theorem Composes.keys_of_ofMembers (hparts : Composes parts)
    (h : ofMembers (parts.map Part.field) a ms = .ok b) : ∀ m ∈ ms, m.1 ∈ parts.map Part.key := by
  induction ms generalizing a with
  | nil => exact List.forall_mem_nil _
  | cons m ms ih =>
    obtain ⟨p, hp, hkey, v, -, hrest⟩ := hparts.ofMembers_cons_eq_ok_iff.1 h
    exact List.forall_mem_cons.2 ⟨List.mem_map.2 ⟨p, hp, hkey⟩, ih hrest⟩

/-- What has been read into a part stays, since its key does not come again. -/
theorem Composes.gives_of_ofMembers (hparts : Composes parts) (hms : (ms.map Prod.fst).Nodup)
    (h : ofMembers (parts.map Part.field) a ms = .ok b) {p : Part α} (hp : p ∈ parts) :
    Gives (fun d v => p.read d = .ok v) (p.get a) p.key ms (p.get b) := by
  induction ms generalizing a with
  | nil =>
    cases h
    rfl
  | cons m ms ih =>
    obtain ⟨key, d⟩ := m
    obtain ⟨hfirst, hdistinct⟩ := List.nodup_cons.1 hms
    obtain ⟨q, hq, rfl, v, hread, hrest⟩ := hparts.ofMembers_cons_eq_ok_iff.1 h
    have hgives := ih hdistinct hrest
    by_cases hkey : p.key = q.key
    · obtain rfl : p = q := List.inj_on_of_nodup_map hparts.distinct hp hq hkey
      rw [gives_of_none (lookup_eq_none_iff.2 hfirst), p.get_set] at hgives
      rw [gives_of_some List.lookup_cons_self, hgives]
      exact hread
    · rw [hparts.apart p hp q hq hkey] at hgives
      unfold Gives
      rw [Json.lookup_cons, if_neg hkey]
      exact hgives

theorem Composes.exists_ofMembers (hparts : Composes parts)
    (h : ∀ m ∈ ms, ∃ p ∈ parts, p.key = m.1 ∧ ∃ v, p.read m.2 = .ok v) (a : α) :
    ∃ b, ofMembers (parts.map Part.field) a ms = .ok b := by
  induction ms generalizing a with
  | nil => exact ⟨a, rfl⟩
  | cons m ms ih =>
    obtain ⟨⟨p, hp, hkey, v, hread⟩, hrest⟩ := List.forall_mem_cons.1 h
    obtain ⟨b, hb⟩ := ih hrest (p.set a v)
    exact ⟨b, hparts.ofMembers_cons_eq_ok_iff.2 ⟨p, hp, hkey, v, hread, hb⟩⟩

/-- A record is read over another one exactly if the table has only keys of its parts, and then each
part is what the table gives. -/
theorem Composes.ofMembers_eq_ok_iff (hparts : Composes parts) (hms : (ms.map Prod.fst).Nodup) :
    ofMembers (parts.map Part.field) a ms = .ok b ↔
      (∀ m ∈ ms, m.1 ∈ parts.map Part.key) ∧
        ∀ p ∈ parts, Gives (fun d v => p.read d = .ok v) (p.get a) p.key ms (p.get b) := by
  constructor
  · intro h
    exact ⟨hparts.keys_of_ofMembers h, fun p hp => hparts.gives_of_ofMembers hms h hp⟩
  · rintro ⟨hkeys, hgives⟩
    have hread : ∀ m ∈ ms, ∃ p ∈ parts, p.key = m.1 ∧ ∃ v, p.read m.2 = .ok v := by
      intro m hm
      obtain ⟨p, hp, hkey⟩ := List.mem_map.1 (hkeys m hm)
      have hlookup : ms.lookup p.key = some m.2 := lookup_of_mem hms (hkey ▸ hm)
      exact ⟨p, hp, hkey, p.get b, (gives_of_some hlookup).1 (hgives p hp)⟩
    obtain ⟨c, hc⟩ := hparts.exists_ofMembers hread a
    -- what is read has the same parts, and so it is the record
    obtain rfl : c = b := by
      refine hparts.whole c b fun p hp => ?_
      refine (hparts.gives_of_ofMembers hms hc hp).unique (fun d v v' hv hv' => ?_) (hgives p hp)
      exact Except.ok.inj (hv.symm.trans hv')
    exact hc

end Records

/-- A value that gives a setting which is a text. -/
def IsText (d : Data) (t : Text) : Prop := d = .string t

/-- An array of nothing but strings. -/
def IsTexts (d : Data) (ts : List Text) : Prop := d = .list (ts.map .string)

/-- A count is an unsigned integer of 64 bits. -/
def IsCount (d : Data) (count : Option Nat) : Prop :=
  ∃ n : Nat, n < UInt64.size ∧ d = .integer n ∧ count = some n

theorem text_eq_ok_iff {d : Data} {t : Text} : text d = .ok t ↔ IsText d t := by
  unfold IsText
  cases d <;> simp [text]

theorem mapM_text_eq_ok_iff {ds : List Data} {ts : List Text} :
    ds.mapM text = .ok ts ↔ ds = ts.map .string := by
  induction ds generalizing ts with
  | nil => cases ts <;> simp [pure, Except.pure]
  | cons d ds ih =>
    rw [List.mapM_cons]
    cases d with
    | string t =>
      cases hds : ds.mapM text with
      | error m => cases ts <;> simp [text, bind, Except.bind, hds, ← ih]
      | ok us => cases ts <;> simp [text, bind, Except.bind, pure, Except.pure, hds, ← ih]
    | null | bool | integer | float | list | table => cases ts <;> simp [text, bind, Except.bind]

theorem texts_eq_ok_iff {d : Data} {ts : List Text} : texts d = .ok ts ↔ IsTexts d ts := by
  unfold IsTexts
  cases d <;> simp [texts, mapM_text_eq_ok_iff]

/-- Of what TOML can express, just the integers that are not negative are counts. -/
theorem optionalCount_eq_ok_iff {d : Data} (hd : IsValue d) {count : Option Nat} :
    optionalCount d = .ok count ↔ IsCount d count := by
  unfold IsCount
  cases hd with
  | integer n low high =>
    rw [optionalCount]
    split
    · next hneg =>
      refine iff_of_false (fun h => by cases h) ?_
      rintro ⟨m, -, heq, -⟩
      cases heq
      omega
    · next hnonneg =>
      obtain ⟨m, rfl⟩ := Int.eq_ofNat_of_zero_le (Int.not_lt.1 hnonneg)
      constructor
      · rintro ⟨⟩
        have hbound : Int64.maxValue.toInt < UInt64.size := by decide
        exact ⟨m, Int.ofNat_lt.1 (Int.lt_of_le_of_lt high hbound), rfl, rfl⟩
      · rintro ⟨k, -, heq, rfl⟩
        cases heq
        rfl
  | bool | float | string | list | table => simp [optionalCount]

theorem isText_unique (d : Data) (t u : Text) (ht : IsText d t) (hu : IsText d u) : t = u :=
  Data.string.inj (ht.symm.trans hu)

theorem isTexts_unique (d : Data) (ts us : List Text) (hts : IsTexts d ts) (hus : IsTexts d us) :
    ts = us :=
  List.map_injective_iff.2 (fun _ _ => Data.string.inj) (Data.list.inj (hts.symm.trans hus))

theorem isCount_unique (d : Data) (m n : Option Nat) (hm : IsCount d m) (hn : IsCount d n) :
    m = n := by
  obtain ⟨j, -, rfl, rfl⟩ := hm
  obtain ⟨k, -, heq, rfl⟩ := hn
  cases heq
  rfl

def buildParts : List (Part BuildSettings) :=
  [⟨"max_workers".toList, optionalCount, BuildSettings.maxWorkers,
      fun s n => { s with maxWorkers := n }, fun _ _ => rfl⟩,
    ⟨"skip_dirs".toList, texts, BuildSettings.skippedDirectories,
      fun s ts => { s with skippedDirectories := ts }, fun _ _ => rfl⟩]

def pageParts : List (Part PageSettings) :=
  [⟨"lang".toList, text, PageSettings.lang, fun s t => { s with lang := t }, fun _ _ => rfl⟩,
    ⟨"charset".toList, text, PageSettings.charset, fun s t => { s with charset := t },
      fun _ _ => rfl⟩,
    ⟨"viewport".toList, text, PageSettings.viewport, fun s t => { s with viewport := t },
      fun _ _ => rfl⟩]

def parts (surplus : Surplus) : List (Part Settings) :=
  [⟨"output_dir".toList, text, Settings.outputDirectory,
      fun s t => { s with outputDirectory := t }, fun _ _ => rfl⟩,
    ⟨"extension".toList, text, Settings.extension, fun s t => { s with extension := t },
      fun _ _ => rfl⟩,
    ⟨"build".toList, readBuild surplus, Settings.build, fun s b => { s with build := b },
      fun _ _ => rfl⟩,
    ⟨"page".toList, readPage surplus, Settings.page, fun s p => { s with page := p },
      fun _ _ => rfl⟩]

theorem composes_buildParts : Composes buildParts where
  distinct := by decide
  apart := by simp [buildParts]
  whole := by
    rintro ⟨⟩ ⟨⟩
    simp [buildParts]

theorem composes_pageParts : Composes pageParts where
  distinct := by decide
  apart := by simp [pageParts]
  whole := by
    rintro ⟨⟩ ⟨⟩
    simp [pageParts]

theorem composes_parts (surplus : Surplus) : Composes (parts surplus) where
  distinct := by cases surplus <;> decide
  apart := by simp [parts]
  whole := by
    rintro ⟨⟩ ⟨⟩
    simp [parts]

variable {surplus : Surplus} {ms : List (Text × Data)}

theorem readBuild_table_eq_ok_iff (hms : IsValue (.table ms)) {b : BuildSettings} :
    readBuild surplus (.table ms) = .ok b ↔
      (∀ m ∈ ms, m.1 ∈ ["max_workers", "skip_dirs"].map String.toList) ∧
        Gives IsCount BuildSettings.standard.maxWorkers "max_workers".toList ms b.maxWorkers ∧
        Gives IsTexts BuildSettings.standard.skippedDirectories "skip_dirs".toList ms
          b.skippedDirectories := by
  obtain ⟨hdistinct, heach⟩ := Toml.isValue_table_iff.1 hms
  have hcount : Gives (fun d count => optionalCount d = .ok count) none "max_workers".toList ms
      b.maxWorkers ↔ Gives IsCount none "max_workers".toList ms b.maxWorkers :=
    gives_congr fun d hd => optionalCount_eq_ok_iff (heach _ (mem_of_lookup hd))
  refine (composes_buildParts.ofMembers_eq_ok_iff hdistinct).trans (and_congr_right' ?_)
  simp only [buildParts, List.forall_mem_cons, List.not_mem_nil, false_implies, implies_true,
    and_true, texts_eq_ok_iff]
  exact and_congr_left' hcount

theorem readPage_table_eq_ok_iff (hms : IsValue (.table ms)) {p : PageSettings} :
    readPage surplus (.table ms) = .ok p ↔
      (∀ m ∈ ms, m.1 ∈ ["lang", "charset", "viewport"].map String.toList) ∧
        Gives IsText PageSettings.standard.lang "lang".toList ms p.lang ∧
        Gives IsText PageSettings.standard.charset "charset".toList ms p.charset ∧
        Gives IsText PageSettings.standard.viewport "viewport".toList ms p.viewport := by
  refine (composes_pageParts.ofMembers_eq_ok_iff (Toml.isValue_table_iff.1 hms).1).trans
    (and_congr_right' ?_)
  simp only [pageParts, List.forall_mem_cons, List.not_mem_nil, false_implies, implies_true,
    and_true, text_eq_ok_iff]

theorem read_table_eq_ok_iff (hms : IsValue (.table ms)) {s : Settings} :
    read surplus (.table ms) = .ok s ↔
      (∀ m ∈ ms, m.1 ∈ ["output_dir", "extension", "build", "page"].map String.toList) ∧
        Gives IsText standard.outputDirectory "output_dir".toList ms s.outputDirectory ∧
        Gives IsText standard.extension "extension".toList ms s.extension ∧
        Gives (fun d b => readBuild surplus d = .ok b) .standard "build".toList ms s.build ∧
        Gives (fun d p => readPage surplus d = .ok p) .standard "page".toList ms s.page := by
  refine ((composes_parts surplus).ofMembers_eq_ok_iff (Toml.isValue_table_iff.1 hms).1).trans
    (and_congr_right' ?_)
  simp only [parts, List.forall_mem_cons, List.not_mem_nil, false_implies, implies_true, and_true,
    text_eq_ok_iff]
  rfl

/-- What valid settings are like. -/
structure Valid (s : Settings) : Prop where
  named : s.extension ≠ []
  bare : ∀ c ∈ s.extension, c ≠ '.' ∧ c ≠ '/' ∧ c ≠ '\\'
  free : ∀ taken ∈ ["html", "css"], s.extension.map Text.lowerAscii ≠ taken.toList
  output : ∃ c ∈ s.outputDirectory, ¬ Text.isBlank c
  workers : s.build.maxWorkers ≠ some 0
  language : ∃ c ∈ s.page.lang, ¬ Text.isBlank c

theorem problem?_eq_none_iff {s : Settings} : s.problem? = none ↔ s.Valid := by
  have hstep (refused : Prop) [Decidable refused] (p : Problem) (next : Option Problem) :
      (if refused then some p else next) = none ↔ ¬ refused ∧ next = none := by
    split <;> simp [*]
  have hbare : ¬ (s.extension.isEmpty || s.extension.any fun c => c = '.' || c = '/' || c = '\\') ↔
      s.extension ≠ [] ∧ ∀ c ∈ s.extension, c ≠ '.' ∧ c ≠ '/' ∧ c ≠ '\\' := by
    simp [and_assoc]
  have hfree : ¬ (Text.eqIgnoreAsciiCase s.extension "html".toList ||
        Import.isStylesheetExtension s.extension) ↔
      ∀ taken ∈ ["html", "css"], s.extension.map Text.lowerAscii ≠ taken.toList := by
    have hhtml : "html".toList.map Text.lowerAscii = "html".toList := by decide
    have hcss : "css".toList.map Text.lowerAscii = "css".toList := by decide
    rw [List.forall_mem_cons, List.forall_mem_singleton, Import.isStylesheetExtension,
      Text.eqIgnoreAsciiCase, Text.eqIgnoreAsciiCase, hhtml, hcss, Bool.or_eq_true, not_or,
      beq_iff_eq, beq_iff_eq]
  have hblank (t : Text) : ¬ (Text.trim t).isEmpty ↔ ∃ c ∈ t, ¬ Text.isBlank c := by
    rw [List.isEmpty_iff, Text.trim_eq_nil_iff]
    push Not
    rfl
  rw [problem?, hstep, hstep, hstep, hstep, hstep, hbare, hfree, hblank, hblank]
  constructor
  · rintro ⟨⟨hnamed, hbare⟩, hfree, houtput, hworkers, hlanguage, -⟩
    exact ⟨hnamed, hbare, hfree, houtput, hworkers, hlanguage⟩
  · intro h
    exact ⟨⟨h.named, h.bare⟩, h.free, h.output, h.workers, h.language, rfl⟩

theorem validate_eq_ok_iff {s t : Settings} : validate s = .ok t ↔ s = t ∧ s.problem? = none := by
  unfold validate
  split
  · next hproblem => simp [hproblem]
  · next hproblem => simp [hproblem]

end Folio.Settings
