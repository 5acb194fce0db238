import Folio.CommonMark.Cursor

namespace Folio.CommonMark

/-- What follows the first occurrence of a text. -/
def afterFirst? (part : Text) : Text → Option Text
  | [] => if part.isEmpty then some [] else none
  | c :: cs => match Text.stripPrefix? part (c :: cs) with
    | some rest => some rest
    | none => afterFirst? part cs

theorem afterFirst?_length {part t rest : Text} (h : afterFirst? part t = some rest) :
    rest.length ≤ t.length := by
  fun_induction afterFirst? part t <;> grind [→ Text.stripPrefix?_length]

def contains (part t : Text) : Bool := (afterFirst? part t).isSome

/-- White space between the parts of a tag. A line break is white space in running text only. -/
def skipTagSpace (multiline : Bool) (s : Text) : Text :=
  s.dropWhile fun c => isInlineBlank c || (multiline && (c = '\n' || c = '\r'))

theorem skipTagSpace_length (multiline : Bool) (s : Text) :
    (skipTagSpace multiline s).length ≤ s.length := Text.length_dropWhile_le _ s

def isTagNameChar (c : Char) : Bool := c.isAlphanum || c = '-'

def isAttributeStart (c : Char) : Bool := c.isAlpha || c = '_' || c = ':'

def isAttributeChar (c : Char) : Bool := c.isAlphanum || c = '_' || c = '.' || c = ':' || c = '-'

/-- A character of an attribute value without quotation marks. -/
def isBareValueChar (c : Char) : Bool :=
  !(c = '\'' || c = '"' || c = ' ' || c = '=' || c = '>' || c = '<' || c = '\x60'
    || c = '\n' || c = '\r')

/-- The value of an attribute. -/
def attributeValue? (multiline : Bool) (s : Text) : Option Text :=
  let quoted (mark : Char) (s : Text) : Option Text :=
    let inside := s.takeWhile (· ≠ mark)
    let rest := s.dropWhile (· ≠ mark)
    if !multiline && inside.any (fun c => c = '\n' || c = '\r') then none
    else match rest with
      | _ :: r => some r
      | [] => none
  match s with
  | '"' :: r => quoted '"' r
  | '\'' :: r => quoted '\'' r
  | c :: r => if isBareValueChar c then some (r.dropWhile isBareValueChar) else none
  | [] => none

theorem attributeValue?_length {multiline : Bool} {s rest : Text}
    (h : attributeValue? multiline s = some rest) : rest.length ≤ s.length := by
  unfold attributeValue? at h
  grind [Text.length_dropWhile_le]

/-- An attribute: a name, and a value after an equals sign. -/
def attribute? (multiline : Bool) (s : Text) : Option Text :=
  match s with
  | c :: cs =>
    if isAttributeStart c then
      let afterName := cs.dropWhile isAttributeChar
      match skipTagSpace multiline afterName with
      | '=' :: r => attributeValue? multiline (skipTagSpace multiline r)
      | _ => some afterName
    else none
  | [] => none

theorem attribute?_length {multiline : Bool} {s rest : Text}
    (h : attribute? multiline s = some rest) : rest.length < s.length := by
  unfold attribute? at h
  grind [Text.length_dropWhile_le, → attributeValue?_length, skipTagSpace_length]

/-- The attributes of a start tag up to its closing bracket or slash; each needs white space before
it. -/
def attributes? (multiline : Bool) (s : Text) : Option Text :=
  let s' := skipTagSpace multiline s
  match s' with
  | [] => none
  | c :: _ =>
    if c = '/' || c = '>' then some s'
    else if s'.length < s.length then
      match ha : attribute? multiline s' with
      | none => none
      | some rest =>
        have : rest.length < s.length :=
          Nat.lt_of_lt_of_le (attribute?_length ha) (skipTagSpace_length multiline s)
        attributes? multiline rest
    else none
termination_by s.length

theorem attributes?_length {multiline : Bool} {s rest : Text}
    (h : attributes? multiline s = some rest) : rest.length ≤ s.length := by
  fun_induction attributes? multiline s <;> grind [skipTagSpace_length, → attribute?_length]

/-- What follows the name of a tag. -/
def tagName? : Text → Option Text
  | c :: cs => if c.isAlpha then some (cs.dropWhile isTagNameChar) else none
  | [] => none

theorem tagName?_length {s rest : Text} (h : tagName? s = some rest) :
    rest.length ≤ s.length := by
  unfold tagName? at h
  grind [Text.length_dropWhile_le]

/-- A start or end tag, after its opening bracket. -/
def tag? (multiline : Bool) (s : Text) : Option Text :=
  match s with
  | '/' :: r => match tagName? r with
    | none => none
    | some rest => match rest.dropWhile isInlineBlank with
      | '>' :: r => some r
      | _ => none
  | _ => match tagName? s with
    | none => none
    | some rest => match attributes? multiline rest with
      | none => none
      | some rest => match rest with
        | '/' :: '>' :: r => some r
        | '>' :: r => some r
        | _ => none

theorem tag?_length {multiline : Bool} {s rest : Text} (h : tag? multiline s = some rest) :
    rest.length ≤ s.length := by
  unfold tag? at h
  split at h
  · split at h
    · cases h
    · rename_i r _ t ht
      have h1 := tagName?_length ht
      have h2 := Text.length_dropWhile_le isInlineBlank t
      split at h
      · rename_i he
        rw [he] at h2
        cases h
        simp only [List.length_cons] at *
        omega
      · cases h
  · split at h
    · cases h
    · split at h
      · cases h
      · have h1 := tagName?_length ‹_›
        have h2 := attributes?_length ‹_›
        split at h
        all_goals cases h
        all_goals
          simp only [List.length_cons] at *
          omega

/-- A comment, after its opening bracket and exclamation mark. -/
def comment? : Text → Option Text
  | '-' :: '-' :: '>' :: r => some r
  | '-' :: '-' :: '-' :: '>' :: r => some r
  | '-' :: '-' :: r => afterFirst? "-->".toList r
  | _ => none

theorem comment?_length {s rest : Text} (h : comment? s = some rest) : rest.length ≤ s.length := by
  unfold comment? at h
  grind [→ afterFirst?_length]

/-- Raw HTML within running text, after its opening bracket. -/
def inlineHtml? (s : Text) : Option Text :=
  match s with
  | '!' :: r => match Text.stripPrefix? "[CDATA[".toList r with
    | some inside => afterFirst? "]]>".toList inside
    | none => match r with
      | c :: _ => if c.isAlpha then afterFirst? ['>'] r else comment? r
      | [] => none
  | '?' :: r => afterFirst? "?>".toList r
  | _ => tag? true s

theorem inlineHtml?_length {s rest : Text} (h : inlineHtml? s = some rest) :
    rest.length ≤ s.length := by
  unfold inlineHtml? at h
  split at h
  · split at h
    · have h1 := afterFirst?_length h
      have h2 := Text.stripPrefix?_length ‹_›
      simp only [List.length_cons]
      omega
    · split at h
      · split at h
        · have := afterFirst?_length h
          simp only [List.length_cons] at *
          omega
        · have := comment?_length h
          simp only [List.length_cons] at *
          omega
      · cases h
  · have := afterFirst?_length h
    simp only [List.length_cons] at *
    omega
  · exact tag?_length h

/-- The names whose tags open an HTML block wherever a block can start. -/
def blockNames : List String :=
  ["address", "article", "aside", "base", "basefont", "blockquote", "body", "caption", "center",
    "col", "colgroup", "dd", "details", "dialog", "dir", "div", "dl", "dt", "fieldset",
    "figcaption", "figure", "footer", "form", "frame", "frameset", "h1", "h2", "h3", "h4", "h5",
    "h6", "head", "header", "hr", "html", "iframe", "legend", "li", "link", "main", "menu",
    "menuitem", "nav", "noframes", "ol", "optgroup", "option", "p", "param", "search", "section",
    "summary", "table", "tbody", "td", "tfoot", "th", "thead", "title", "tr", "track", "ul"]

/-- The names whose content is raw until their own end tag. -/
def rawNames : List String := ["pre", "style", "script", "textarea"]

/-- An HTML block lasts until a line with an end mark, or until a blank line. -/
inductive HtmlBlock
  | endsWith (mark : Text)
  | untilBlank
deriving Repr, DecidableEq

/-- The name of a raw element that a line opens, after the bracket. -/
def rawOpening? (s : Text) : Option Text :=
  (rawNames.find? fun name =>
    Text.eqIgnoreAsciiCase (s.take name.length) name.toList
      && (match s.drop name.length with
        | [] => true
        | c :: _ => isInlineBlank c || c = '>')).map String.toList

/-- The HTML blocks that end at a mark, recognised after the opening bracket. -/
def markedBlock? (s : Text) : Option HtmlBlock :=
  match rawOpening? s with
  | some name => some (.endsWith ("</".toList ++ name ++ ['>']))
  | none =>
    if (Text.stripPrefix? "!--".toList s).isSome then some (.endsWith "-->".toList)
    else if (Text.stripPrefix? ['?'] s).isSome then some (.endsWith "?>".toList)
    else if (Text.stripPrefix? "![CDATA[".toList s).isSome then some (.endsWith "]]>".toList)
    else match s with
      | '!' :: c :: _ => if c.isAlpha then some (.endsWith ['>']) else none
      | _ => none

/-- A tag of one of the block names, after the opening bracket. -/
def opensBlock (s : Text) : Bool :=
  let s := match s with
    | '/' :: r => r
    | _ => s
  let name := s.takeWhile Char.isAlphanum
  let rest := s.dropWhile Char.isAlphanum
  blockNames.any (fun n => Text.eqIgnoreAsciiCase name n.toList)
    && (match rest with
      | [] => true
      | '/' :: '>' :: _ => true
      | c :: _ => c = ' ' || c = '\t' || c = '>')

/-- The HTML blocks that may interrupt a paragraph. -/
def interruptingBlock? (line : Text) : Option HtmlBlock :=
  match line with
  | '<' :: r => match markedBlock? r with
    | some b => some b
    | none => if opensBlock r then some .untilBlank else none
  | _ => none

/-- The HTML block that a line opens; a line with nothing but one whole tag opens one too. -/
def htmlBlock? (line : Text) : Option HtmlBlock :=
  match interruptingBlock? line with
  | some b => some b
  | none => match line with
    | '<' :: r => match tag? false r with
      | some rest => if isBlankLine rest then some .untilBlank else none
      | none => none
    | _ => none

end Folio.CommonMark
