import Folio.Text.Basic

namespace Folio.Html

/-- A character of text or of an attribute value between quotation marks. -/
def escapeChar (c : Char) : Text :=
  if c = '&' then "&amp;".toList
  else if c = '<' then "&lt;".toList
  else if c = '>' then "&gt;".toList
  else if c = '"' then "&quot;".toList
  else [c]

def escape (t : Text) : Text := t.flatMap escapeChar

/-- An attribute with its value, and the blank before it. -/
def attr (name value : Text) : Text :=
  ' ' :: name ++ "=\"".toList ++ escape value ++ ['"']

/-- A start tag from its name and attributes. -/
def startTag (name : Text) (attributes : List (Text × Text)) : Text :=
  '<' :: name ++ attributes.flatMap (fun a => attr a.1 a.2) ++ ['>']

def endTag (name : Text) : Text := "</".toList ++ name ++ ['>']

/-- An element around markup that is taken as it is. -/
def element (name : Text) (attributes : List (Text × Text)) (content : Text) : Text :=
  startTag name attributes ++ content ++ endTag name

end Folio.Html
