import Folio.CommonMark.Document
import Folio.CommonMark.Inline
import Folio.Html.Escape

namespace Folio.CommonMark

/-- Escape what cannot stand between tags. -/
def escapeBody (t : Text) : Text :=
  t.flatMap fun c => if c = '"' then [c] else Html.escapeChar c

/-- The bytes of a character in UTF-8. -/
def utf8Bytes (c : Char) : List UInt8 := String.utf8EncodeChar c

def hexUpper (n : Nat) : Char :=
  if n < 10 then Char.ofNat ('0'.toNat + n) else Char.ofNat ('A'.toNat + n - 10)

/-- An address as the value of an attribute: bytes that no address holds are written by their codes. -/
def escapeAddress (t : Text) : Text :=
  t.flatMap fun c =>
    if c.isAlphanum || "!#$%()*+,-./:;=?@_~".toList.contains c then [c]
    else if c = '&' then "&amp;".toList
    else if c = '\'' then "&#x27;".toList
    else (utf8Bytes c).flatMap fun b => ['%', hexUpper (b.toNat / 16), hexUpper (b.toNat % 16)]

def titleAttr (title : Text) : Text :=
  if title.isEmpty then [] else Html.attr "title".toList title

mutual

/-- The text of an image that stands in for it. -/
def Inline.alt : Inline → Text
  | .text t => Html.escape t
  | .code t => Html.escape t
  | .html t => Html.escape t
  | .softBreak => [' ']
  | .hardBreak => [' ']
  | .emphasis _ content => altAll content
  | .link _ content => altAll content
  | .image _ content => altAll content

def altAll : List Inline → Text
  | [] => []
  | i :: is => i.alt ++ altAll is

end

mutual

def Inline.render : Inline → Text
  | .text t => escapeBody t
  | .code t => Html.element "code".toList [] (escapeBody t)
  | .html t => t
  | .softBreak => ['\n']
  | .hardBreak => "<br />\n".toList
  | .emphasis strong content =>
    Html.element (if strong then "strong".toList else "em".toList) [] (renderInlines content)
  | .link target content =>
    "<a href=\"".toList ++ escapeAddress target.destination ++ ['"'] ++ titleAttr target.title
      ++ ['>'] ++ renderInlines content ++ "</a>".toList
  | .image target content =>
    "<img src=\"".toList ++ escapeAddress target.destination ++ "\" alt=\"".toList ++ altAll content
      ++ ['"'] ++ titleAttr target.title ++ " />".toList

def renderInlines : List Inline → Text
  | [] => []
  | i :: is => i.render ++ renderInlines is

end

/-- Whether what follows a text begins a line. -/
def endsLine (fresh : Bool) (t : Text) : Bool :=
  match t.getLast? with
  | none => fresh
  | some c => c = '\n'

def newLine (fresh : Bool) : Text := if fresh then [] else ['\n']

/-- The start tag of code; the first word about it names its language. -/
def codeTag (info : Text) : Text :=
  let language := info.takeWhile (· ≠ ' ')
  "<pre>".toList ++ Html.startTag "code".toList
    (if language.isEmpty then [] else [("class".toList, "language-".toList ++ language)])

mutual

/-- A block after text that ends a line or not; the paragraphs of a tight item have no tags. -/
def Block.render (definitions : List (Text × Target)) (fresh tight : Bool) : Block → Text
  | .paragraph t =>
    let content := renderInlines (inlines definitions t)
    if tight then content else newLine fresh ++ Html.element ['p'] [] content ++ ['\n']
  | .heading level t =>
    newLine fresh ++ Html.element ('h' :: Text.ofNat level) [] (renderInlines (inlines definitions t))
      ++ ['\n']
  | .rule => newLine fresh ++ "<hr />\n".toList
  | .code info t => newLine fresh ++ codeTag info ++ escapeBody t ++ "</code></pre>\n".toList
  | .html t => t
  | .quote blocks =>
    newLine fresh ++ "<blockquote>\n".toList ++ renderBlocks definitions true false blocks
      ++ "</blockquote>\n".toList
  | .list start tight items =>
    let (name, attributes) := match start with
      | none => (['u', 'l'], [])
      | some n => (['o', 'l'], if n = 1 then [] else [("start".toList, Text.ofNat n)])
    newLine fresh ++ Html.startTag name attributes ++ ['\n']
      ++ renderBlocks definitions true tight items ++ Html.endTag name ++ ['\n']
  | .item blocks =>
    newLine fresh ++ "<li>".toList ++ renderBlocks definitions false tight blocks
      ++ "</li>\n".toList

def renderBlocks (definitions : List (Text × Target)) (fresh tight : Bool) : List Block → Text
  | [] => []
  | b :: bs =>
    let t := b.render definitions fresh tight
    t ++ renderBlocks definitions (endsLine fresh t) tight bs

end

/-- The HTML of a document. -/
def toHtml (source : Text) : Text :=
  let d := Document.read source
  renderBlocks d.definitions true false d.blocks

end Folio.CommonMark
