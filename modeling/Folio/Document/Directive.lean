import Folio.CommonMark.Render
import Folio.Document.Lines
import Folio.Document.Node

namespace Folio

/-- Where the cursor of a scan can stand: at an item, just past the last one, or at any other index
that 64 bits hold. The length of what is scanned always fits in 64 bits. -/
def Addressable (length index : Nat) : Prop := index ≤ length ∨ index < UInt64.size

instance (length index : Nat) : Decidable (Addressable length index) :=
  inferInstanceAs (Decidable (_ ∨ _))

theorem Addressable.of_le {length index : Nat} (h : index ≤ length) : Addressable length index :=
  Or.inl h

/-- Lines taken from the current one on, and the tokens that they give; no tokens, no match. How far
the cursor can be led is up to the scan, see `Addressable`. -/
structure Claim where
  jumped : Nat
  tokens : List Token
deriving DecidableEq, Repr, Inhabited

namespace Claim

def none : Claim := ⟨0, []⟩

def isMatch (c : Claim) : Bool := !c.tokens.isEmpty

/-- One line that gives one token. -/
def single (kind value : Text) : Claim := ⟨1, [⟨kind, value⟩]⟩

end Claim

/-- A place in a sequence of tokens. -/
structure TokenCursor where
  tokens : List Token
  index : Nat
deriving Repr

namespace TokenCursor

def peek? (c : TokenCursor) (offset : Nat) : Option Token := c.tokens[c.index + offset]?

def value? (c : TokenCursor) (offset : Nat) : Option Text := (c.peek? offset).map Token.value

end TokenCursor

/-- Tokens taken from the current one on, and the node that they give. -/
structure Parsed where
  jumped : Nat
  node : Node
deriving DecidableEq, Repr

structure Directive where
  keyword : Text
  /-- Recognise a construct at a line, given trimmed, with all lines and its index. -/
  claim : (line : Text) → (lines : List Text) → (index : Nat) → Claim
  parse : Token → TokenCursor → Option Parsed
  /-- Markup for a node of this directive. -/
  render : Node → Option Text

namespace Directive

/-- A keyword and its argument on one line. -/
def claimLine (keyword line : Text) : Claim :=
  match Lines.argument? keyword line with
  | some value => .single keyword value
  | none => .none

/-- A token of the keyword's kind becomes a node with its value. -/
def parseScalar (keyword : Text) (token : Token) (cursor : TokenCursor) : Option Parsed :=
  if token.kind = keyword then some ⟨1, .scalar keyword ((cursor.value? 0).getD [])⟩ else none

/-- Markup around the text of a node of a kind. -/
def renderScalar (keyword : Text) (markup : Text → Text) (n : Node) : Option Text :=
  if n.kind = keyword then n.text?.map markup else none

/-- The levels are one to six. -/
def clampLevel (level : Nat) : Nat := min (max level 1) 6

def headingKeyword (level : Nat) : Text :=
  if clampLevel level = 1 then Kind.title else Kind.title ++ Text.ofNat (clampLevel level)

def headingMarkup (level : Nat) (t : Text) : Text :=
  Html.element ('h' :: Text.ofNat (clampLevel level)) [] t

/-- A heading; its text is markup already. -/
def heading (level : Nat) : Directive where
  keyword := headingKeyword level
  claim := fun line _ _ => claimLine (headingKeyword level) line
  parse := parseScalar (headingKeyword level)
  render := renderScalar (headingKeyword level) (headingMarkup level)

def date : Directive where
  keyword := Kind.date
  claim := fun line _ _ => claimLine Kind.date line
  parse := parseScalar Kind.date
  render := renderScalar Kind.date (Html.element "div".toList [("class".toList, Kind.date)])

/-- The alternative text of an image, on the indented line right after it. -/
def altLine? (next : Text) : Option Text :=
  (Lines.stripIndent? next).bind (Lines.argument? Kind.alt)

def image : Directive where
  keyword := Kind.image
  claim := fun line lines index =>
    match Lines.argument? Kind.image line with
    | none => .none
    | some source => match lines[index + 1]?.bind altLine? with
      | some alt => ⟨2, [⟨Kind.image, source⟩, ⟨Kind.alt, alt⟩]⟩
      | none => .single Kind.image source
  parse := fun token cursor =>
    if token.kind = Kind.image then
      (cursor.value? 0).map fun source =>
        let children := [Node.scalar Kind.imageSource source]
        match cursor.peek? 1 with
        | some next =>
          if next.kind = Kind.alt then
            ⟨2, .composite Kind.image (children ++ [.scalar Kind.imageAlt next.value])⟩
          else ⟨1, .composite Kind.image children⟩
        | none => ⟨1, .composite Kind.image children⟩
    else none
  render := fun n =>
    if n.kind = Kind.image then
      let given (name kind : Text) : List (Text × Text) :=
        ((n.childText? kind).map fun v => (name, v)).toList
      some (Html.startTag "img".toList
        (given "src".toList Kind.imageSource ++ given "alt".toList Kind.imageAlt))
    else none

/-- A keyword alone on its line with an indented block after it. -/
def claimBlock (keyword line : Text) (lines : List Text) (index : Nat) : Claim :=
  if line = keyword then
    let (body, spanned) := Lines.block (lines.drop (index + 1))
    if body.isEmpty then .none else ⟨1 + spanned, [⟨keyword, Lines.joinWithBreaks body⟩]⟩
  else .none

def markdown : Directive where
  keyword := Kind.markdown
  claim := claimBlock Kind.markdown
  parse := parseScalar Kind.markdown
  render := renderScalar Kind.markdown fun t => Text.trimEnd (CommonMark.toHtml t)

def quoteKeyword : Text := "quote".toList

/-- A quotation on one line. It is not built in, and shows how a directive is put together. -/
def quote : Directive where
  keyword := quoteKeyword
  claim := fun line _ _ => claimLine quoteKeyword line
  parse := parseScalar quoteKeyword
  render := renderScalar quoteKeyword fun t => Html.element "blockquote".toList [] (Html.escape t)

end Directive

/-- Directives in the order in which they are asked. -/
abbrev Registry := List Directive

namespace Registry

def builtin : Registry :=
  (List.range 6).map (fun n => Directive.heading (n + 1))
    ++ [Directive.date, Directive.image, Directive.markdown]

def keywords (r : Registry) : List Text := r.map Directive.keyword

def claim? (r : Registry) (line : Text) (lines : List Text) (index : Nat) : Option Claim :=
  (r.map fun d => d.claim line lines index).find? Claim.isMatch

def parse? (r : Registry) (c : TokenCursor) : Option Parsed :=
  match c.peek? 0 with
  | none => none
  | some t => r.findSome? fun d => d.parse t c

def render? (r : Registry) (n : Node) : Option Text := r.findSome? fun d => d.render n

end Registry
end Folio
