import Folio.Files.Workspace
import Folio.Json.Error

namespace Folio

/-- A directory that cannot be listed. -/
structure WalkFault where
  path : Path
  fault : FileFault
deriving DecidableEq, Repr

def WalkFault.message (f : WalkFault) : Text :=
  "IO error for operation on ".toList ++ f.path.text ++ ": ".toList ++ f.fault.message

/-- Why a document makes no page. -/
inductive CompileFault
  | unreadable (path : Path) (fault : FileFault)
  | importCycle (chain : List Location)
deriving DecidableEq, Repr

def CompileFault.message : CompileFault → Text
  | unreadable path fault =>
    "failed to read ".toList ++ path.text ++ ": ".toList ++ fault.message
  | importCycle chain =>
    "import cycle: ".toList
      ++ Text.joinWith " -> ".toList (chain.map fun l => (Workspace.pathOf l).text)

/-- Why a script stops. Lines are counted from one. -/
inductive ScriptFault
  | unlisted (fault : WalkFault)
  | malformed (line : Nat) (text : Text)
  | unknownFunction (line : Nat) (name : Text)
  | missingArgument (line : Nat) (name : Text)
  | argument (line : Nat) (error : Json.Error)
  | outsideDocument (path : Text)
deriving DecidableEq, Repr

def ScriptFault.message : ScriptFault → Text
  | unlisted fault => "IO error: ".toList ++ fault.message
  | malformed line text =>
    "line ".toList ++ Text.ofNat line ++ ": malformed call ".toList ++ ticked text
  | unknownFunction line name =>
    "line ".toList ++ Text.ofNat line ++ ": unknown function ".toList ++ ticked name
  | missingArgument line name =>
    "line ".toList ++ Text.ofNat line ++ ": ".toList ++ ticked name
      ++ " needs an argument".toList
  | argument line error =>
    "line ".toList ++ Text.ofNat line ++ ": argument must be a JSON string: ".toList ++ error.message
  | outsideDocument path => "path escapes the document directory: ".toList ++ path

inductive Warning
  /-- A cursor would leave the 64 bits of an index. A checked addition stops the program here, and
  nothing of what comes after it happens; an unchecked one sends the cursor back. -/
  | overflow
  | unconsumedLine (line : Text)
  | unconsumedToken (kind : Text)
  | malformedFrontmatter (error : Json.Error)
  | importNotFound (path : Path) (fault : FileFault)
  | importUnreadable (path : Path) (fault : FileFault)
  | unsupportedImport (reference : Text)
  | scriptFailed (fault : ScriptFault) (directory : Path)
  | scriptSkipped (lines : Nat)
  | listingUnreadable (path : Path) (fault : FileFault)
  | documentFailed (path : Path) (error : Text)
deriving DecidableEq, Repr

namespace Warning

def message : Warning → Text
  | overflow => "attempt to add with overflow".toList
  | unconsumedLine _ => "Directive matched without consuming input; skipping line".toList
  | unconsumedToken _ => "Directive parsed without consuming its token".toList
  | malformedFrontmatter _ => "Ignoring malformed frontmatter".toList
  | importNotFound .. => "Import not found; expanding to nothing".toList
  | importUnreadable .. => "Import unreadable; expanding to nothing".toList
  | unsupportedImport _ => "Unsupported import; expanding to nothing".toList
  | scriptFailed .. => "Script failed".toList
  | scriptSkipped _ => "No script host configured; skipping script".toList
  | listingUnreadable .. => "Failed to read document for listing".toList
  | documentFailed .. => "Document failed".toList

/-- What a warning says beside its message, by name. -/
def fields : Warning → List (Text × Text)
  | overflow => []
  | unconsumedLine line => [("line".toList, line)]
  | unconsumedToken kind => [("kind".toList, kind)]
  | malformedFrontmatter error => [("error".toList, error.message)]
  | importNotFound path fault => [("path".toList, path.text), ("error".toList, fault.message)]
  | importUnreadable path fault => [("path".toList, path.text), ("error".toList, fault.message)]
  | unsupportedImport reference => [("reference".toList, reference)]
  | scriptFailed fault directory =>
    [("error".toList, fault.message), ("dir".toList, directory.text)]
  | scriptSkipped lines => [("lines".toList, Text.ofNat lines)]
  | listingUnreadable path fault => [("path".toList, path.text), ("error".toList, fault.message)]
  | documentFailed path error => [("path".toList, path.text), ("error".toList, error)]

end Warning

/-- A value and the warnings on the way to it, in order. -/
structure Logged (α : Type) where
  value : α
  log : List Warning

namespace Logged

def pure (a : α) : Logged α := ⟨a, []⟩

def bind (x : Logged α) (f : α → Logged β) : Logged β :=
  ⟨(f x.value).value, x.log ++ (f x.value).log⟩

instance : Monad Logged where
  pure := pure
  bind := bind

def warn (w : Warning) (a : α) : Logged α := ⟨a, [w]⟩

end Logged
end Folio
