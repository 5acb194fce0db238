import Folio.Text.Basic

namespace Folio

namespace Kind

def text : Text := "text".toList
def importKind : Text := "import".toList
def variableKind : Text := "variable".toList
def html5 : Text := "html5".toList
def metatags : Text := "metatags".toList
def importable : Text := "importable".toList
def alt : Text := "alt".toList
def frontmatter : Text := "frontmatter".toList
def script : Text := "script".toList
/-- The heading of the first level; the first one names the page. -/
def title : Text := "title".toList
def date : Text := "date".toList
def image : Text := "image".toList
def markdown : Text := "markdown".toList
def variableName : Text := "varName".toList
def variableValue : Text := "varValue".toList
def imageSource : Text := "imageSrc".toList
def imageAlt : Text := "imageAlt".toList

/-- A line equal to one of these is a flag of the page. -/
def flags : List Text := [html5, metatags, importable]

end Kind

structure Token where
  kind : Text
  value : Text
deriving DecidableEq, Repr, Inhabited

/-- An element of a document: text, or elements of its own. -/
inductive Node
  | scalar (kind text : Text)
  | composite (kind : Text) (children : List Node)
deriving Repr, Inhabited

namespace Node

mutual

def decEq : (a b : Node) → Decidable (a = b)
  | .scalar k s, .scalar l t => decidable_of_iff (k = l ∧ s = t) (by simp)
  | .composite k as, .composite l bs => match decEqAll as bs with
    | isTrue h => decidable_of_iff (k = l) (by simp [h])
    | isFalse h => isFalse (by simp [h])
  | .scalar .., .composite .. => isFalse (by simp)
  | .composite .., .scalar .. => isFalse (by simp)

def decEqAll : (as bs : List Node) → Decidable (as = bs)
  | [], [] => isTrue rfl
  | [], _ :: _ => isFalse (by simp)
  | _ :: _, [] => isFalse (by simp)
  | a :: as, b :: bs => match decEq a b, decEqAll as bs with
    | isTrue h, isTrue h' => isTrue (by rw [h, h'])
    | isFalse h, _ => isFalse (by simp [h])
    | _, isFalse h => isFalse (by simp [h])

end

instance : DecidableEq Node := decEq

def kind : Node → Text
  | scalar k _ => k
  | composite k _ => k

def text? : Node → Option Text
  | scalar _ t => some t
  | composite .. => none

/-- The elements within; none within text. -/
def children : Node → List Node
  | scalar .. => []
  | composite _ ns => ns

/-- The text of the first child of a kind. -/
def childText? (n : Node) (kind : Text) : Option Text :=
  (n.children.find? fun c => c.kind = kind).bind text?

end Node
end Folio
