import Folio.Document.Compiler
import Folio.Toml.Reader

namespace Folio

structure BuildSettings where
  /-- The most documents compiled at once; none for as many as there are processors. -/
  maxWorkers : Option Nat
  /-- Names of directories that are not searched for documents. -/
  skippedDirectories : List Text
deriving DecidableEq, Repr

def BuildSettings.standard : BuildSettings := ⟨none, [".git".toList, "node_modules".toList]⟩

/-- How many documents are compiled at once on a number of processors. -/
def BuildSettings.workers (s : BuildSettings) (processors : Nat) : Nat :=
  match s.maxWorkers with
  | some n => min n processors
  | none => processors

structure Settings where
  outputDirectory : Text
  extension : Text
  build : BuildSettings
  page : PageSettings
deriving DecidableEq, Repr

def Settings.standard : Settings := ⟨"out".toList, "sphst".toList, .standard, .standard⟩

namespace Settings

/-- Read a value of a field into a record. -/
abbrev Field (α : Type) := Text × (α → Data → Except Mismatch α)

/-- How a record is read from a list of its fields' values: whether there may be more of them. -/
inductive Surplus
  | allowed
  | refused
deriving DecidableEq, Repr

def ofMembers (fields : List (Field α)) (a : α) : List (Text × Data) → Except Mismatch α
  | [] => .ok a
  | (k, d) :: ms => match fields.lookup k with
    | none => .error (.unknownField k (fields.map Prod.fst))
    | some read => (read a d).bind fun a => ofMembers fields a ms

def ofItems (fields : List (Field α)) (a : α) : List Data → Except Mismatch α
  | [] => .ok a
  | d :: ds => match fields with
    | [] => .ok a
    | (_, read) :: rest => (read a d).bind fun a => ofItems rest a ds

/-- Read a record over its defaults, from a table or from a list of values in order. -/
def record (surplus : Surplus) (name : Text) (fields : List (Field α)) (a : α) :
    Data → Except Mismatch α
  | .table ms => ofMembers fields a ms
  | .list ds => (ofItems fields a ds).bind fun a =>
    if fields.length < ds.length && surplus = .refused then
      .error (.length ds.length "fewer elements in array".toList)
    else .ok a
  | d => .error (.type d.found ("struct ".toList ++ name))

def text (d : Data) : Except Mismatch Text :=
  match d with
  | .string t => .ok t
  | _ => .error (.type d.found "a string".toList)

def optionalCount (d : Data) : Except Mismatch (Option Nat) :=
  match d with
  | .null => .ok none
  | .integer n => if n < 0 then .error (.value d.found "usize".toList) else .ok (some n.toNat)
  | _ => .error (.type d.found "usize".toList)

def texts (d : Data) : Except Mismatch (List Text) :=
  match d with
  | .list ds => ds.mapM text
  | _ => .error (.type d.found "a sequence".toList)

/-- A field that is read by itself. -/
def field (name : String) (read : Data → Except Mismatch β) (set : α → β → α) : Field α :=
  (name.toList, fun a d => (read d).map (set a))

def buildFields : List (Field BuildSettings) :=
  [field "max_workers" optionalCount fun s n => { s with maxWorkers := n },
    field "skip_dirs" texts fun s ts => { s with skippedDirectories := ts }]

def pageFields : List (Field PageSettings) :=
  [field "lang" text fun s t => { s with lang := t },
    field "charset" text fun s t => { s with charset := t },
    field "viewport" text fun s t => { s with viewport := t }]

def readBuild (surplus : Surplus) : Data → Except Mismatch BuildSettings :=
  record surplus "BuildConfig".toList buildFields .standard

def readPage (surplus : Surplus) : Data → Except Mismatch PageSettings :=
  record surplus "PageConfig".toList pageFields .standard

def fields (surplus : Surplus) : List (Field Settings) :=
  [field "output_dir" text fun s t => { s with outputDirectory := t },
    field "extension" text fun s t => { s with extension := t },
    field "build" (readBuild surplus) fun s b => { s with build := b },
    field "page" (readPage surplus) fun s p => { s with page := p }]

def read (surplus : Surplus) : Data → Except Mismatch Settings :=
  record surplus "SiteConfig".toList (fields surplus) .standard

/-- What settings cannot be. -/
inductive Problem
  | extensionNotBare
  | extensionTaken (extension : Text)
  | noOutput
  | noWorkers
  | noLanguage
deriving DecidableEq, Repr

def Problem.message : Problem → Text
  | extensionNotBare => "extension must be a bare extension like \"sphst\"".toList
  | extensionTaken e =>
    "extension \"".toList ++ e ++ "\" collides with generated or imported files".toList
  | noOutput => "output_dir must not be empty".toList
  | noWorkers => "build.max_workers must be at least 1".toList
  | noLanguage => "page.lang must not be empty".toList

/-- The first problem with settings. -/
def problem? (s : Settings) : Option Problem :=
  if s.extension.isEmpty || s.extension.any fun c => c = '.' || c = '/' || c = '\\' then
    some .extensionNotBare
  else if Text.eqIgnoreAsciiCase s.extension "html".toList
      || Import.isStylesheetExtension s.extension then
    some (.extensionTaken s.extension)
  else if (Text.trim s.outputDirectory).isEmpty then some .noOutput
  else if s.build.maxWorkers = some 0 then some .noWorkers
  else if (Text.trim s.page.lang).isEmpty then some .noLanguage
  else none

end Settings

/-- Why settings cannot be loaded. -/
inductive SettingsFault
  | unreadable (fault : FileFault)
  | malformed
  | mismatch (m : Mismatch)
  | invalid (p : Settings.Problem)
deriving DecidableEq, Repr

def SettingsFault.message : SettingsFault → Text
  | unreadable fault => "IO error: ".toList ++ fault.message
  | malformed => "TOML parse error".toList
  | mismatch m => m.message
  | invalid p => "Config validation error: ".toList ++ p.message

namespace Settings

def fileName : Text := "sophist.toml".toList

def validate (s : Settings) : Except SettingsFault Settings :=
  match s.problem? with
  | some p => .error (.invalid p)
  | none => .ok s

/-- Settings from the text of a settings file. -/
def parse (source : Text) : Except SettingsFault Settings :=
  match Toml.parse? source with
  | none => .error .malformed
  | some ms => (read .allowed (.table ms)).mapError .mismatch

/-- The settings of a directory; the standard ones if it has no settings file. -/
def load (w : Workspace) (root : Path) : Except SettingsFault Settings :=
  let path := root.join ⟨fileName⟩
  if w.isFile path then
    match w.read path with
    | .error fault => .error (.unreadable fault)
    | .ok source => (parse source).bind validate
  else validate .standard

/-- A settings file with the standard settings and what they mean. -/
def stock : Text :=
  Text.joinWith ['\n'] (List.map String.toList
    ["# Sophist Configuration",
      "# =====================",
      "# All settings are optional. Remove or comment out any you don't need.",
      "# Values shown below are the defaults.",
      "#",
      "# Place this file in the source root as sophist.toml.",
      "# Unknown keys will cause an error.",
      "",
      "# Where rendered pages are written, relative to the source root.",
      "output_dir = \"out\"",
      "",
      "# Extension of markup documents (without the dot).",
      "extension = \"sphst\"",
      "",
      "# ---------------------------------------------------------------------------",
      "# Directory builds",
      "# ---------------------------------------------------------------------------",
      "[build]",
      "# Maximum parallel compile workers.",
      "# Omit or comment out to auto-detect (= number of CPU cores).",
      "# max_workers = 4",
      "",
      "# Directory names that are never descended into.",
      "skip_dirs = [\".git\", \"node_modules\"]",
      "",
      "# ---------------------------------------------------------------------------",
      "# Page shell (documents with \x60html5\x60 / \x60metatags\x60)",
      "# ---------------------------------------------------------------------------",
      "[page]",
      "lang = \"en\"",
      "charset = \"utf-8\"",
      "viewport = \"width=device-width, initial-scale=1\"",
      ""])

end Settings
end Folio
