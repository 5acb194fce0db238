import Folio.Document.Page
import Folio.Proofs.Html.Tags

namespace Folio

open Html

/-- The attributes of an image: those that it has of the two. -/
def Node.imageAttributes (n : Node) : List (Text × Text) :=
  ((n.childText? Kind.imageSource).map fun v => ("src".toList, v)).toList ++
    ((n.childText? Kind.imageAlt).map fun v => ("alt".toList, v)).toList

/-- The documents in a listing that have a page. -/
def Script.listed (entries : List ListingEntry) (extension : Text) : List ListingEntry :=
  entries.filter fun e => e.isDocument extension && !e.importable

/-- Where the link of a document in a listing points. -/
def ListingEntry.address (e : ListingEntry) (directory : Text) : Text :=
  Script.linkStart directory ++ e.path.stem?.getD [] ++ ".html".toList

/-- The link of a document in a listing. -/
def ListingEntry.items (e : ListingEntry) (directory : Text) : List Item :=
  [.tag "li".toList [], .tag ['a'] [("href".toList, e.address directory)], .text e.title,
    .tag "/a".toList [], .tag "/li".toList []]

/-- A listing as it is read. -/
def Script.listingItems (directory : Text) (entries : List ListingEntry) (extension : Text) : List Item :=
  .tag "ul".toList [("class".toList, "listing".toList)] ::
    ((listed entries extension).flatMap fun e => e.items directory) ++ [.tag "/ul".toList []]

namespace Renderer

def describedAttributes (name content : Text) : List (Text × Text) :=
  [("name".toList, name), ("content".toList, content)]

/-- The frame of a page as it is read, up to its title. -/
def openingItems (r : Renderer) (s : Summary) : List Item :=
  [.tag "html".toList [("lang".toList, r.page.lang)], .tag "head".toList []] ++
    if s.hasMetatags then
      [.tag "meta".toList [("charset".toList, r.page.charset)],
        .tag "meta".toList (describedAttributes "viewport".toList r.page.viewport)]
    else []

/-- The title of a page, which is markup already. -/
def titleMarkup (s : Summary) : Text :=
  if s.hasMetatags then (s.pageTitle?.map (element "title".toList [])).getD [] else []

def descriptionMarkup (s : Summary) : Text :=
  if s.hasMetatags then
    (s.frontmatter.description?.map fun d =>
      startTag "meta".toList (describedAttributes "description".toList d)).getD []
  else []

/-- What is read after the title. -/
def descriptionItems (s : Summary) : List Item :=
  if s.hasMetatags then
    (s.frontmatter.description?.map fun d =>
      Item.tag "meta".toList (describedAttributes "description".toList d)).toList
  else []

/-- What was put into the page as markup. -/
def bodyMarkup (b : Script.Buffers) : Text :=
  b.head.flatten ++ endTag "head".toList ++ element "body".toList [] (bodyText b) ++
    endTag "html".toList

end Renderer

theorem stylesheetLink_reads (href : Text) : Reads (stylesheetLink href)
    [.tag "link".toList [("rel".toList, "stylesheet".toList), ("href".toList, href)]] [] := by
  have hnames : ∀ name ∈ ["rel".toList, "href".toList], CleanName name := by decide
  exact .startTag_alone (by decide) hnames

section Image

variable {n n' : Node}

theorem Node.render_image (h : n.kind = Kind.image) :
    Directive.image.render n = some (startTag "img".toList n.imageAttributes) := if_pos h

theorem Node.image_reads (n : Node) :
    Reads (startTag "img".toList n.imageAttributes) [.tag "img".toList n.imageAttributes] [] := by
  have hnames : ∀ name ∈ ["src".toList, "alt".toList], CleanName name := by decide
  have hsub : n.imageAttributes.map Prod.fst ⊆ ["src".toList, "alt".toList] := by
    unfold imageAttributes
    cases n.childText? Kind.imageSource <;> cases n.childText? Kind.imageAlt <;> simp
  exact .startTag_alone (by decide) fun name hname => hnames name (hsub hname)

theorem Node.imageAttributes_eq_iff : n.imageAttributes = n'.imageAttributes ↔
    n.childText? Kind.imageSource = n'.childText? Kind.imageSource ∧
      n.childText? Kind.imageAlt = n'.childText? Kind.imageAlt := by
  unfold imageAttributes
  constructor
  · -- the names of the attributes tell which of the two there are
    cases n.childText? Kind.imageSource <;> cases n'.childText? Kind.imageSource <;>
      cases n.childText? Kind.imageAlt <;> cases n'.childText? Kind.imageAlt <;> simp
  · rintro ⟨hsource, halt⟩
    rw [hsource, halt]

/-- Images with other data are rendered otherwise. -/
theorem Node.render_image_eq_iff (h : n.kind = Kind.image) (h' : n'.kind = Kind.image) :
    Directive.image.render n = Directive.image.render n' ↔
      n.childText? Kind.imageSource = n'.childText? Kind.imageSource ∧
        n.childText? Kind.imageAlt = n'.childText? Kind.imageAlt := by
  rw [render_image h, render_image h', Option.some_inj, ← imageAttributes_eq_iff]
  constructor
  · intro heq
    -- one markup read as two tags: these have the same attributes
    have hreads := n.image_reads
    rw [heq] at hreads
    exact (hreads.tag_unique n'.image_reads).2
  · intro heq
    rw [heq]

end Image

section Listing

open Script

variable {u rest : Text} {items : List Item}

theorem ListingEntry.items_reads (e : ListingEntry) (directory : Text) (h : Reads u items rest) :
    Reads (element "li".toList [] (element ['a'] [("href".toList, e.address directory)]
      (escape e.title)) ++ u) (e.items directory ++ items) rest := by
  have hnames : ∀ name ∈ ["href".toList], CleanName name := by decide
  have hli : CleanName "li".toList := by decide
  have hlink : CleanName ['a'] := by decide
  refine .element hli (List.forall_mem_nil _) (.element hlink hnames (.escaped e.title ?_ ?_))
  · rfl
  · exact .endTag hlink (.endTag hli h)

theorem Script.listing_reads (directory : Text) (entries : List ListingEntry) (extension : Text) :
    Reads (listingMarkup directory entries extension) (listingItems directory entries extension) [] := by
  have hnames : ∀ name ∈ ["class".toList], CleanName name := by decide
  have hul : CleanName "ul".toList := by decide
  have hitems : Reads ((listed entries extension).flatMap (fun e => element "li".toList []
      (element ['a'] [("href".toList, e.address directory)] (escape e.title))) ++
        (endTag "ul".toList ++ []))
      ((listed entries extension).flatMap (fun e => e.items directory) ++ [.tag "/ul".toList []]) [] := by
    -- the end tag stays behind the documents that are left
    induction listed entries extension with
    | nil => exact .endTag hul .nil
    | cons e entries ih =>
      rw [List.flatMap_cons, List.flatMap_cons, List.append_assoc, List.append_assoc]
      exact e.items_reads directory ih
  rw [← List.append_nil (listingMarkup directory entries extension)]
  exact .element hul hnames hitems

end Listing

namespace Renderer

variable {r : Renderer} {b : Script.Buffers} {u rest : Text} {items : List Item}

theorem clean_meta : CleanName "meta".toList := by decide

theorem described_reads {name content : Text} (h : Reads u items rest) :
    Reads (startTag "meta".toList (describedAttributes name content) ++ u)
      (.tag "meta".toList (describedAttributes name content) :: items) rest := by
  have hnames : ∀ name ∈ ["name".toList, "content".toList], CleanName name := by decide
  exact .startTag clean_meta hnames h

theorem description_reads (s : Summary) (u : Text) :
    Reads (descriptionMarkup s ++ u) (descriptionItems s) u := by
  unfold descriptionMarkup descriptionItems
  by_cases hm : s.hasMetatags
  · rw [if_pos hm, if_pos hm]
    cases s.frontmatter.description? with
    | none => exact .nil
    | some d => exact described_reads .nil
  · rw [if_neg hm, if_neg hm]
    exact .nil

/-- The tags before what is in the head and the body. -/
theorem around_reads {inner : Text} (h : Reads (inner ++ bodyMarkup b) items rest) :
    Reads (element "html".toList [("lang".toList, r.page.lang)]
      (element "head".toList [] (inner ++ b.head.flatten) ++ element "body".toList [] (bodyText b)))
      (.tag "html".toList [("lang".toList, r.page.lang)] :: .tag "head".toList [] :: items) rest := by
  have hlang : ∀ name ∈ ["lang".toList], CleanName name := by decide
  have hhtml : CleanName "html".toList := by decide
  have hhead : CleanName "head".toList := by decide
  have hcontent : Reads (element "head".toList [] (inner ++ b.head.flatten) ++
      element "body".toList [] (bodyText b) ++ (endTag "html".toList ++ []))
      (.tag "head".toList [] :: items) rest := by
    rw [List.append_assoc]
    refine .element hhead (List.forall_mem_nil _) ?_
    simpa only [bodyMarkup, List.append_assoc, List.append_nil] using h
  rw [← List.append_nil (element "html".toList _ _)]
  exact .element hhtml hlang hcontent

/-- The attributes of the frame are read up to the title and after it; the title, the head and the body
are markup already. -/
theorem frame_reads (r : Renderer) (s : Summary) (b : Script.Buffers) : ∃ markup more,
    r.frame s b = "<!DOCTYPE html>".toList ++ markup ∧
      Reads markup (r.openingItems s) (titleMarkup s ++ more) ∧
      Reads more (descriptionItems s) (bodyMarkup b) := by
  refine ⟨_, descriptionMarkup s ++ bodyMarkup b, rfl, around_reads ?_, description_reads s _⟩
  unfold titleMarkup descriptionMarkup metatags
  by_cases hm : s.hasMetatags
  · have hcharset : ∀ name ∈ ["charset".toList], CleanName name := by decide
    simp only [hm, if_true, List.append_assoc]
    exact .startTag clean_meta hcharset (described_reads .nil)
  · simp only [hm, Bool.false_eq_true, if_false, List.nil_append]
    exact .nil

end Renderer

/-- Whatever the data of a document, each value and each text that it is put in as data ends where it
should, with every ampersand in it the start of a reference, and is read back to the data. So images
are rendered alike only if they have the same source and the same alternative text. -/
theorem data_reads_back :
    (∀ href, Reads (stylesheetLink href)
      [.tag "link".toList [("rel".toList, "stylesheet".toList), ("href".toList, href)]] []) ∧
    (∀ n : Node, n.kind = Kind.image → ∃ markup, Directive.image.render n = some markup ∧
      Reads markup [.tag "img".toList n.imageAttributes] []) ∧
    (∀ n n' : Node, n.kind = Kind.image → n'.kind = Kind.image →
      (Directive.image.render n = Directive.image.render n' ↔
        n.childText? Kind.imageSource = n'.childText? Kind.imageSource ∧
          n.childText? Kind.imageAlt = n'.childText? Kind.imageAlt)) ∧
    (∀ (r : Renderer) (s : Summary) (b : Script.Buffers), ∃ markup more,
      r.frame s b = "<!DOCTYPE html>".toList ++ markup ∧
        Reads markup (r.openingItems s) (Renderer.titleMarkup s ++ more) ∧
        Reads more (Renderer.descriptionItems s) (Renderer.bodyMarkup b)) ∧
    ∀ (directory : Text) (entries : List ListingEntry) (extension : Text),
      Reads (Script.listingMarkup directory entries extension)
        (Script.listingItems directory entries extension) [] :=
  ⟨stylesheetLink_reads, fun n h => ⟨_, Node.render_image h, n.image_reads⟩,
    fun _ _ h h' => Node.render_image_eq_iff h h', Renderer.frame_reads, Script.listing_reads⟩

/-- An image with data that looks like markup, and one without its alternative text. -/
def quotedImage : Node :=
  .composite Kind.image [.scalar Kind.imageSource "\"><b>".toList, .scalar Kind.imageAlt "&amp;".toList]

def plainImage : Node := .composite Kind.image [.scalar Kind.imageSource "\"><b>".toList]

theorem data_reads_back_quoted :
    Directive.image.render quotedImage =
      some "<img src=\"&quot;&gt;&lt;b&gt;\" alt=\"&amp;amp;\">".toList ∧
    Reads "<img src=\"&quot;&gt;&lt;b&gt;\" alt=\"&amp;amp;\">".toList
      [.tag "img".toList [("src".toList, "\"><b>".toList), ("alt".toList, "&amp;".toList)]] [] ∧
    Directive.image.render quotedImage ≠ Directive.image.render plainImage := by
  have hrender : Directive.image.render quotedImage =
      some "<img src=\"&quot;&gt;&lt;b&gt;\" alt=\"&amp;amp;\">".toList := by decide
  obtain ⟨_, himage, hsame, _, _⟩ := data_reads_back
  obtain ⟨markup, hmarkup, hreads⟩ := himage quotedImage rfl
  obtain rfl := Option.some.inj (hrender.symm.trans hmarkup)
  refine ⟨hrender, hreads, fun h => ?_⟩
  have halt := ((hsame quotedImage plainImage rfl rfl).1 h).2
  cases halt

end Folio
