import Mathlib
import Folio.Proofs.Files.Lexical
import Folio.Proofs.Site.Settings

namespace Folio.Settings

open Toml (IsValue mem_of_lookup)

/-- The members of a table in a table; none where it is absent. -/
def tableAt (key : Text) (ms : List (Text × Data)) : List (Text × Data) :=
  match ms.lookup key with
  | some (.table inner) => inner
  | _ => []

/-- A file has no fields but those of settings. -/
structure KnownFields (ms : List (Text × Data)) : Prop where
  site : ∀ m ∈ ms, m.1 ∈ ["output_dir", "extension", "build", "page"].map String.toList
  build : ∀ m ∈ tableAt "build".toList ms, m.1 ∈ ["max_workers", "skip_dirs"].map String.toList
  page : ∀ m ∈ tableAt "page".toList ms, m.1 ∈ ["lang", "charset", "viewport"].map String.toList

/-- What a table has under a key is a value of some type, if there is anything. -/
def HasType {β : Type} (means : Data → β → Prop) (key : Text) (ms : List (Text × Data)) : Prop :=
  ∀ d, ms.lookup key = some d → ∃ v, means d v

/-- The values of a file have the types of their fields. -/
structure WellTyped (ms : List (Text × Data)) : Prop where
  outputDirectory : HasType IsText "output_dir".toList ms
  extension : HasType IsText "extension".toList ms
  maxWorkers : HasType IsCount "max_workers".toList (tableAt "build".toList ms)
  skippedDirectories : HasType IsTexts "skip_dirs".toList (tableAt "build".toList ms)
  lang : HasType IsText "lang".toList (tableAt "page".toList ms)
  charset : HasType IsText "charset".toList (tableAt "page".toList ms)
  viewport : HasType IsText "viewport".toList (tableAt "page".toList ms)

/-- Settings that have the values of a file where it has them, and the defaults elsewhere. -/
structure Overlays (ms : List (Text × Data)) (s : Settings) : Prop where
  outputDirectory : Gives IsText "out".toList "output_dir".toList ms s.outputDirectory
  extension : Gives IsText "sphst".toList "extension".toList ms s.extension
  maxWorkers :
    Gives IsCount none "max_workers".toList (tableAt "build".toList ms) s.build.maxWorkers
  skippedDirectories : Gives IsTexts [".git".toList, "node_modules".toList] "skip_dirs".toList
    (tableAt "build".toList ms) s.build.skippedDirectories
  lang : Gives IsText "en".toList "lang".toList (tableAt "page".toList ms) s.page.lang
  charset : Gives IsText "utf-8".toList "charset".toList (tableAt "page".toList ms) s.page.charset
  viewport : Gives IsText "width=device-width, initial-scale=1".toList "viewport".toList
    (tableAt "page".toList ms) s.page.viewport

variable {ms : List (Text × Data)} {s : Settings}

theorem HasType.exists_gives {β : Type} {means : Data → β → Prop} {key : Text}
    (h : HasType means key ms) (standard : β) : ∃ v, Gives means standard key ms v := by
  cases hkey : ms.lookup key with
  | none => exact ⟨standard, (gives_of_none hkey).2 rfl⟩
  | some d =>
    obtain ⟨v, hv⟩ := h d hkey
    exact ⟨v, (gives_of_some hkey).2 hv⟩

theorem Gives.hasType {β : Type} {means : Data → β → Prop} {standard value : β} {key : Text}
    (h : Gives means standard key ms value) : HasType means key ms :=
  fun _ hd => ⟨value, (gives_of_some hd).1 h⟩

theorem Overlays.wellTyped (h : Overlays ms s) : WellTyped ms where
  outputDirectory := h.outputDirectory.hasType
  extension := h.extension.hasType
  maxWorkers := h.maxWorkers.hasType
  skippedDirectories := h.skippedDirectories.hasType
  lang := h.lang.hasType
  charset := h.charset.hasType
  viewport := h.viewport.hasType

theorem WellTyped.exists_overlays (h : WellTyped ms) : ∃ s, Overlays ms s := by
  obtain ⟨output, houtput⟩ := h.outputDirectory.exists_gives _
  obtain ⟨extension, hextension⟩ := h.extension.exists_gives _
  obtain ⟨workers, hworkers⟩ := h.maxWorkers.exists_gives _
  obtain ⟨skipped, hskipped⟩ := h.skippedDirectories.exists_gives _
  obtain ⟨lang, hlang⟩ := h.lang.exists_gives _
  obtain ⟨charset, hcharset⟩ := h.charset.exists_gives _
  obtain ⟨viewport, hviewport⟩ := h.viewport.exists_gives _
  exact ⟨⟨output, extension, ⟨workers, skipped⟩, ⟨lang, charset, viewport⟩⟩, houtput, hextension,
    hworkers, hskipped, hlang, hcharset, hviewport⟩

theorem Overlays.unique {t : Settings} (hs : Overlays ms s) (ht : Overlays ms t) : s = t := by
  have houtput := hs.outputDirectory.unique isText_unique ht.outputDirectory
  have hextension := hs.extension.unique isText_unique ht.extension
  have hworkers := hs.maxWorkers.unique isCount_unique ht.maxWorkers
  have hskipped := hs.skippedDirectories.unique isTexts_unique ht.skippedDirectories
  have hlang := hs.lang.unique isText_unique ht.lang
  have hcharset := hs.charset.unique isText_unique ht.charset
  have hviewport := hs.viewport.unique isText_unique ht.viewport
  obtain ⟨_, _, ⟨_, _⟩, ⟨_, _, _⟩⟩ := s
  obtain ⟨_, _, ⟨_, _⟩, ⟨_, _, _⟩⟩ := t
  simp only at houtput hextension hworkers hskipped hlang hcharset hviewport
  subst houtput hextension hworkers hskipped hlang hcharset hviewport
  rfl

/-- Where there is a table or nothing, reading over defaults is reading the table. -/
theorem gives_table_iff {β : Type} {read : Data → Except Mismatch β} {standard value : β}
    {key : Text} (hempty : read (.table []) = .ok standard)
    (htable : ∀ d, ms.lookup key = some d → ∃ inner, d = .table inner) :
    Gives (fun d v => read d = .ok v) standard key ms value ↔
      read (.table (tableAt key ms)) = .ok value := by
  unfold tableAt
  cases hkey : ms.lookup key with
  | none =>
    rw [gives_of_none hkey, hempty, Except.ok.injEq]
    exact eq_comm
  | some d =>
    obtain ⟨inner, rfl⟩ := htable d hkey
    rw [gives_of_some hkey]

theorem isValue_tableAt (hms : IsValue (.table ms)) (key : Text) :
    IsValue (.table (tableAt key ms)) := by
  unfold tableAt
  split
  · next hkey => exact (Toml.isValue_table_iff.1 hms).2 _ (mem_of_lookup hkey)
  · exact Toml.isTable_nil

/-- Settings are read from a table exactly if they are its overlay and it has no other fields. -/
theorem read_eq_ok_iff_overlays (hms : IsValue (.table ms))
    (htables : ∀ key ∈ ["build", "page"], ∀ d, ms.lookup key.toList = some d →
      ∃ inner, d = .table inner) :
    read .allowed (.table ms) = .ok s ↔ KnownFields ms ∧ Overlays ms s := by
  have hbuild : Gives (fun d b => readBuild .allowed d = .ok b) .standard "build".toList ms s.build ↔
      readBuild .allowed (.table (tableAt "build".toList ms)) = .ok s.build :=
    gives_table_iff rfl (htables "build" (by simp))
  have hpage : Gives (fun d p => readPage .allowed d = .ok p) .standard "page".toList ms s.page ↔
      readPage .allowed (.table (tableAt "page".toList ms)) = .ok s.page :=
    gives_table_iff rfl (htables "page" (by simp))
  rw [read_table_eq_ok_iff hms, hbuild, hpage, readBuild_table_eq_ok_iff (isValue_tableAt hms _),
    readPage_table_eq_ok_iff (isValue_tableAt hms _)]
  constructor
  · rintro ⟨hsite, houtput, hextension, ⟨hbuild, hworkers, hskipped⟩, hpage, hlang, hcharset,
      hviewport⟩
    exact ⟨⟨hsite, hbuild, hpage⟩, houtput, hextension, hworkers, hskipped, hlang, hcharset,
      hviewport⟩
  · rintro ⟨hknown, h⟩
    exact ⟨hknown.site, h.outputDirectory, h.extension,
      ⟨hknown.build, h.maxWorkers, h.skippedDirectories⟩, hknown.page, h.lang, h.charset,
      h.viewport⟩

theorem load_eq_ok_iff {w : Workspace} {root : Path} {source : Text}
    (hread : w.read (root.join ⟨fileName⟩) = .ok source) (hparse : Toml.parse? source = some ms) :
    load w root = .ok s ↔ read .allowed (.table ms) = .ok s ∧ s.problem? = none := by
  have hload : load w root = (parse source).bind validate := by
    unfold load
    dsimp only
    rw [if_pos (Workspace.isFile_of_read hread), hread]
  rw [hload, parse, hparse]
  dsimp only
  cases hs : read .allowed (.table ms) with
  | error m => simp [Except.mapError, Except.bind]
  | ok t =>
    rw [Except.mapError, Except.bind, validate_eq_ok_iff, Except.ok.injEq]
    exact and_congr_right fun heq => heq ▸ Iff.rfl

/-- A settings file whose `build` and `page` are tables is accepted exactly if all of its fields are
known, its values have the types of their fields, and the settings that overlay it pass validation;
there is one overlay if the types are right, and it is what is loaded. -/
theorem load_overlays {w : Workspace} {root : Path} {source : Text}
    (hread : w.read (root.join ⟨fileName⟩) = .ok source) (hparse : Toml.parse? source = some ms)
    (htables : ∀ key ∈ ["build", "page"], ∀ d, ms.lookup key.toList = some d →
      ∃ inner, d = .table inner) :
    (WellTyped ms → ∃! s, Overlays ms s) ∧
      ((∃ s, load w root = .ok s) ↔
        KnownFields ms ∧ WellTyped ms ∧ ∃ s, Overlays ms s ∧ validate s = .ok s) ∧
      ∀ s, load w root = .ok s → Overlays ms s := by
  have hms : IsValue (.table ms) := Toml.parse?_isValue hparse
  have hload (s : Settings) :
      load w root = .ok s ↔ (KnownFields ms ∧ Overlays ms s) ∧ s.problem? = none := by
    rw [load_eq_ok_iff hread hparse, read_eq_ok_iff_overlays hms htables]
  have hvalid (s : Settings) : validate s = .ok s ↔ s.problem? = none := by
    rw [validate_eq_ok_iff, and_iff_right rfl]
  refine ⟨fun htyped => ?_, ⟨?_, ?_⟩, fun s hs => ((hload s).1 hs).1.2⟩
  · obtain ⟨s, hs⟩ := htyped.exists_overlays
    exact ⟨s, hs, fun t ht => ht.unique hs⟩
  · rintro ⟨s, hs⟩
    obtain ⟨⟨hknown, hoverlays⟩, hproblem⟩ := (hload s).1 hs
    exact ⟨hknown, hoverlays.wellTyped, s, hoverlays, (hvalid s).2 hproblem⟩
  · rintro ⟨hknown, -, s, hoverlays, hs⟩
    exact ⟨s, (hload s).2 ⟨⟨hknown, hoverlays⟩, (hvalid s).1 hs⟩⟩

/-- A settings file that changes one field of each table. -/
def sparseSource : Text :=
  "output_dir = 'public'\n\n[build]\nmax_workers = 2\n\n[page]\nlang = 'fr'\n".toList

def sparseTable : List (Text × Data) :=
  [("output_dir".toList, .string "public".toList),
    ("build".toList, .table [("max_workers".toList, .integer 2)]),
    ("page".toList, .table [("lang".toList, .string "fr".toList)])]

def sparse : Workspace where
  tree := {
    entries := [([fileName], .file (.text sparseSource))]
    nodup := by decide
    named := by decide
    closed := by decide }
  home := []

def sparseSettings : Settings :=
  { standard with
    outputDirectory := "public".toList
    build := { BuildSettings.standard with maxWorkers := some 2 }
    page := { PageSettings.standard with lang := "fr".toList } }

theorem overlays_sparse : Overlays sparseTable sparseSettings where
  outputDirectory := rfl
  extension := rfl
  maxWorkers := ⟨2, by decide, rfl, rfl⟩
  skippedDirectories := rfl
  lang := rfl
  charset := rfl
  viewport := rfl

theorem load_overlays_sparse :
    sparse.read ((⟨['.']⟩ : Path).join ⟨fileName⟩) = .ok sparseSource ∧
    Toml.parse? sparseSource = some sparseTable ∧
    (∀ key ∈ ["build", "page"], ∀ d, sparseTable.lookup key.toList = some d →
      ∃ inner, d = .table inner) ∧
    load sparse ⟨['.']⟩ = .ok sparseSettings := by
  have hread : sparse.read ((⟨['.']⟩ : Path).join ⟨fileName⟩) = .ok sparseSource := by decide
  have hparse : Toml.parse? sparseSource = some sparseTable := by
    unfold sparseSource sparseTable
    cbv
  have htables : ∀ key ∈ ["build", "page"], ∀ d, sparseTable.lookup key.toList = some d →
      ∃ inner, d = .table inner := by
    rw [List.forall_mem_cons, List.forall_mem_singleton]
    refine ⟨fun d hd => ?_, fun d hd => ?_⟩
    · cases hd
      exact ⟨_, rfl⟩
    · cases hd
      exact ⟨_, rfl⟩
  have hknown : KnownFields sparseTable := ⟨by decide, by decide, by decide⟩
  obtain ⟨-, hloads, hoverlays⟩ := load_overlays hread hparse htables
  obtain ⟨s, hs⟩ := hloads.2 ⟨hknown, overlays_sparse.wellTyped, _, overlays_sparse, by decide⟩
  obtain rfl : s = sparseSettings := (hoverlays s hs).unique overlays_sparse
  exact ⟨hread, hparse, htables, hs⟩

end Folio.Settings
