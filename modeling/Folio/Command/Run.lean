import Folio.Command.Request
import Folio.Document.Encoding
import Folio.Json.Printer
import Folio.Site.Report
import Folio.Site.Settings

namespace Folio.Command

/-- Why a command fails. -/
inductive Fault
  | usage
  | settings (fault : SettingsFault)
  | compile (fault : CompileFault)
  | files (fault : FileFault)
  | walk (fault : WalkFault)
  | build (fault : BuildFault)
  | failedDocuments (count : Nat)
deriving DecidableEq, Repr

namespace Fault

def message : Fault → Text
  | usage => "unknown or missing arguments".toList
  | settings fault => fault.message
  | compile fault => fault.message
  | files fault => fault.message
  | walk fault => fault.message
  | build fault => fault.message
  | failedDocuments count => Text.ofNat count ++ " document(s) failed".toList

/-- The exit code of a command that fails. -/
def code : Fault → Nat
  | usage => 2
  | _ => 1

end Fault

/-- What a command leaves: the lines that it prints, the files, and why it fails if it does. -/
structure Outcome where
  /-- Lines about single documents, in the order of the documents. -/
  progress : List Text
  output : Text
  workspace : Workspace
  fault : Option Fault

namespace Outcome

def failure (w : Workspace) (fault : Fault) : Outcome := ⟨[], [], w, some fault⟩

def printed (w : Workspace) (t : Text) : Outcome := ⟨[], t, w, none⟩

def code (o : Outcome) : Nat := (o.fault.map Fault.code).getD 0

end Outcome

def line (t : Text) : Text := t ++ ['\n']

/-- The directory with the settings for a path: the path itself, or the directory of a file. -/
def settingsRoot (w : Workspace) (p : Path) : Path :=
  if w.isDirectory p then p else Scan.directoryOf p

def compilerOf (s : Settings) : Compiler := ⟨Registry.builtin, Script.caller, s.page, s.extension⟩

/-- What a command prints from the settings for a path, or why it fails. -/
def withSettings (w : Workspace) (root : Path)
    (f : Settings → Logged (Except Fault Text)) : Logged Outcome :=
  match Settings.load w root with
  | .error fault => .pure (.failure w (.settings fault))
  | .ok s =>
    let done := f s
    ⟨match done.value with
      | .ok t => .printed w t
      | .error fault => .failure w fault, done.log⟩

def prettyLine (js : List Json) : Text := line (Json.array js).pretty

def buildOutcome (w : Workspace) (path : Path) (output : Option Path) : Logged Outcome :=
  let root := settingsRoot w path
  match Settings.load w root with
  | .error fault => .pure (.failure w (.settings fault))
  | .ok s =>
    let target := output.getD (root.join ⟨s.outputDirectory⟩)
    let done := Build.run (compilerOf s) w path target s.build.skippedDirectories
    ⟨match done.value with
      | (w, .error fault) => .failure w (.build fault)
      | (w, .ok report) =>
        ⟨report.events.map Report.event, (Report.summary report).flatMap line, w,
          if report.failed = 0 then none else some (.failedDocuments report.failed)⟩, done.log⟩

def Request.run (w : Workspace) : Request → Logged Outcome
  | .build path output => buildOutcome w path output
  | .render file => withSettings w (settingsRoot w file) fun s =>
    let page := (compilerOf s).compileFile w file
    ⟨(page.value.mapError .compile).map fun p => line p.html, page.log⟩
  | .tokens file => withSettings w (settingsRoot w file) fun _ =>
    match w.read file with
    | .error fault => .pure (.error (.files fault))
    | .ok source =>
      let tokens := tokenize Registry.builtin source
      ⟨.ok (prettyLine (tokens.value.map Token.toJson)), tokens.log⟩
  | .nodes file => withSettings w (settingsRoot w file) fun _ =>
    match w.read file with
    | .error fault => .pure (.error (.files fault))
    | .ok source =>
      let nodes := nodesOf Registry.builtin source
      ⟨.ok (prettyLine (nodes.value.map Node.toJson)), nodes.log⟩
  | .list directory plain => withSettings w directory fun s =>
    let found := Listing.list w directory s.extension
    ⟨(found.value.mapError .walk).map fun entries =>
      if plain then (Report.listing entries s.extension).flatMap line
      else prettyLine (entries.map ListingEntry.toJson), found.log⟩
  | .stockSettings => .pure (.printed w Settings.stock)

def version : Text := "sophist 0.4.0".toList

/-- How the commands are called. -/
def helpText : Text :=
  [ "Compile .sphst documents to HTML",
    "",
    "Usage: sophist [--verbose] build [PATH] [--output DIR]",
    "       sophist [--verbose] render FILE",
    "       sophist [--verbose] tokens FILE",
    "       sophist [--verbose] nodes FILE",
    "       sophist [--verbose] ls [DIR] [--plain]",
    "       sophist gen-config" ].flatMap fun l => line l.toList

/-- Run a command line. -/
def run (w : Workspace) (words : List Text) : Logged Outcome :=
  match Request.parse words with
  | .ok request => request.run w
  | .error .help => .pure (.printed w helpText)
  | .error .version => .pure (.printed w (line version))
  | .error .usage => .pure (.failure w .usage)

end Folio.Command
