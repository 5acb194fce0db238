import Folio.Document.Listing
import Folio.Site.Build

namespace Folio.Report

def shown (p : Path) : Text := p.text.map fun c => if c = '\\' then '/' else c

def plural (n : Nat) (word : Text) : Text :=
  Text.ofNat n ++ ' ' :: word ++ (if n = 1 then [] else ['s'])

def arrow : Text := " → ".toList

def event : BuildEvent → Text
  | .written source output title =>
    shown source ++ arrow ++ shown output ++ (match title with
      | some (c :: t) => " (".toList ++ c :: t ++ [')']
      | _ => [])
  | .skipped source => shown source ++ " (importable, skipped)".toList
  | .failed source error => shown source ++ " FAILED: ".toList ++ error

/-- The last lines of a build: a blank one, and the counts. -/
def summary (r : BuildReport) : List Text :=
  let counted (n : Nat) (word : String) : Text :=
    if n = 0 then [] else word.toList ++ Text.ofNat n
  [[], "Built ".toList ++ plural r.written "page".toList ++ counted r.skipped ", skipped "
    ++ counted r.failed ", failed " ++ arrow ++ shown r.outputDirectory]

def padTo (width : Nat) (t : Text) : Text := t ++ List.replicate (width - t.length) ' '

/-- A line for each entry; the titles of documents stand in a column. -/
def listing (entries : List ListingEntry) (extension : Text) : List Text :=
  let width := (entries.map fun e => Text.byteSize e.name).foldl max 0
  entries.map fun e =>
    if e.isDirectory then e.name ++ ['/']
    else if e.isDocument extension then
      padTo width e.name ++ "  ".toList ++ e.title
        ++ (if e.importable then " (importable)".toList else [])
    else e.name

end Folio.Report
