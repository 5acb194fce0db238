import Folio.Proofs.Html.Links
import Folio.Proofs.Text.Split

/-! Markup as it is read: start tags with their attributes, end tags, and text between them. What was
escaped neither ends the value or the text that it is in, nor is it read back as anything else. -/
namespace Folio.Html

/-- A text that stands for another one wherever it is put between quotation marks or tags. -/
structure Encodes (v t : Text) : Prop where
  plain : ∀ c ∈ ['<', '>', '"'], c ∉ v
  references : ∀ before after, v = before ++ '&' :: after → ∃ e ∈ entities, e <+: '&' :: after
  decoded : unescape v = t

/-- Every ampersand of an escaped text begins the reference of a character. -/
theorem exists_entity {t before after : Text} (h : escape t = before ++ '&' :: after) :
    ∃ e ∈ entities, e <+: '&' :: after := by
  induction t generalizing before with
  | nil => simp [escape] at h
  | cons c cs ih =>
    rw [escape, List.flatMap_cons, ← escape, List.append_eq_append_iff] at h
    -- the ampersand is after what `c` is escaped to, or within it
    rcases h with ⟨more, _, hmore⟩ | ⟨more, hc, hmore⟩
    · exact ih hmore
    · cases more with
      | nil =>
        have hcs : escape cs = [] ++ '&' :: after := hmore.symm
        exact ih hcs
      | cons d more =>
        obtain ⟨rfl, rfl⟩ := List.cons.inj hmore
        rcases escapeChar_cases c with hentity | ⟨heq, hand, _⟩
        · -- a reference has one ampersand, at its start
          have hhead : ∀ e ∈ entities, '&' ∉ e.tail := by decide
          cases before with
          | nil => exact ⟨escapeChar c, hentity, hc ▸ List.prefix_append _ _⟩
          | cons b before => exact absurd (by rw [hc]; simp) (hhead _ hentity)
        · rw [heq] at hc
          have hmem : '&' ∈ [c] := by rw [hc]; simp
          exact absurd (List.mem_singleton.1 hmem).symm hand

theorem encodes_escape (t : Text) : Encodes (escape t) t where
  plain _ hc := not_mem_escape hc t
  references _ _ h := exists_entity h
  decoded := unescape_escape t

/-- A name with no character that would end it. -/
def CleanName (name : Text) : Prop := ' ' ∉ name ∧ '>' ∉ name ∧ '=' ∉ name

instance (name : Text) : Decidable (CleanName name) := inferInstanceAs (Decidable (_ ∧ _ ∧ _))

/-- Attributes up to the end of a tag, with the texts that their values stand for, and what follows. -/
inductive Attributes : Text → List (Text × Text) → Text → Prop
  | nil {rest : Text} : Attributes ('>' :: rest) [] rest
  | cons {name v value t rest : Text} {attributes : List (Text × Text)} : CleanName name →
      Encodes v value → Attributes t attributes rest →
      Attributes (' ' :: (name ++ '=' :: '"' :: (v ++ '"' :: t))) ((name, value) :: attributes) rest

inductive Item
  | tag (name : Text) (attributes : List (Text × Text))
  | text (t : Text)

/-- The items that markup starts with, and what follows them. An end tag has its slash in the name. -/
inductive Reads : Text → List Item → Text → Prop
  | nil {t : Text} : Reads t [] t
  | tag {name t u rest : Text} {attributes : List (Text × Text)} {items : List Item} :
      CleanName name → Attributes t attributes u → Reads u items rest →
      Reads ('<' :: (name ++ t)) (.tag name attributes :: items) rest
  | text {v x u rest : Text} {items : List Item} : Encodes v x → u.head? = some '<' →
      Reads u items rest → Reads (v ++ u) (.text x :: items) rest

theorem attributes_attr {attributes : List (Text × Text)}
    (h : ∀ name ∈ attributes.map Prod.fst, CleanName name) (rest : Text) :
    Attributes (attributes.flatMap (fun a => attr a.1 a.2) ++ '>' :: rest) attributes rest := by
  induction attributes with
  | nil => exact .nil
  | cons a attributes ih =>
    obtain ⟨ha, hrest⟩ := List.forall_mem_cons.1 h
    have hattr (t : Text) : attr a.1 a.2 ++ t =
        ' ' :: (a.1 ++ '=' :: '"' :: (escape a.2 ++ '"' :: t)) := by
      have hopening : "=\"".toList = ['=', '"'] := by decide
      rw [attr, hopening]
      simp only [List.cons_append, List.append_assoc, List.nil_append]
    rw [List.flatMap_cons, List.append_assoc, hattr]
    exact .cons ha (encodes_escape a.2) (ih hrest)

namespace Reads

variable {name rest u : Text} {attributes : List (Text × Text)} {items : List Item}

theorem startTag (hname : CleanName name)
    (hattributes : ∀ name ∈ attributes.map Prod.fst, CleanName name) (h : Reads u items rest) :
    Reads (Html.startTag name attributes ++ u) (.tag name attributes :: items) rest := by
  rw [Html.startTag, List.append_assoc, List.singleton_append, List.cons_append, List.cons_append,
    List.append_assoc]
  exact .tag hname (attributes_attr hattributes u) h

theorem startTag_alone (hname : CleanName name)
    (hattributes : ∀ name ∈ attributes.map Prod.fst, CleanName name) :
    Reads (Html.startTag name attributes) [.tag name attributes] [] := by
  have h := startTag hname hattributes (nil (t := []))
  rwa [List.append_nil] at h

theorem endTag (hname : CleanName name) (h : Reads u items rest) :
    Reads (Html.endTag name ++ u) (.tag ('/' :: name) [] :: items) rest := by
  have hopening : "</".toList = ['<', '/'] := by decide
  rw [Html.endTag, hopening, List.append_assoc, List.singleton_append, List.append_assoc]
  have hslash : CleanName ('/' :: name) := by
    obtain ⟨hspace, hend, hequals⟩ := hname
    simp [CleanName, hspace, hend, hequals]
  exact .tag hslash .nil h

theorem element {content : Text} (hname : CleanName name)
    (hattributes : ∀ name ∈ attributes.map Prod.fst, CleanName name)
    (h : Reads (content ++ (Html.endTag name ++ u)) items rest) :
    Reads (Html.element name attributes content ++ u) (.tag name attributes :: items) rest := by
  rw [Html.element, List.append_assoc, List.append_assoc]
  exact startTag hname hattributes h

theorem escaped (t : Text) (hu : u.head? = some '<') (h : Reads u items rest) :
    Reads (escape t ++ u) (.text t :: items) rest := .text (encodes_escape t) hu h

end Reads

theorem Attributes.unique {t rest rest' : Text} {as as' : List (Text × Text)}
    (h : Attributes t as rest) (h' : Attributes t as' rest') : as = as' ∧ rest = rest' := by
  induction h generalizing as' with
  | nil =>
    cases h'
    exact ⟨rfl, rfl⟩
  | @cons name v value t rest attributes hname hv _ ih =>
    generalize ht : ' ' :: (name ++ '=' :: '"' :: (v ++ '"' :: t)) = whole at h'
    cases h' with
    | nil => cases ht
    | @cons name' v' value' t' _ _ hname' hv' hmore' =>
      -- both names end at the first equals sign, and both values at the first quotation mark after it
      obtain ⟨rfl, hrest⟩ := Text.eq_of_append_cons (· = '=') (List.cons.inj ht).2 rfl rfl
        (fun x hx h => hname.2.2 (of_decide_eq_true h ▸ hx))
        (fun x hx h => hname'.2.2 (of_decide_eq_true h ▸ hx))
      have hquote := (List.cons.inj (List.cons.inj hrest).2).2
      obtain ⟨rfl, hmore⟩ := Text.eq_of_append_cons (· = '"') hquote rfl rfl
        (fun x hx h => hv.plain '"' (by decide) (of_decide_eq_true h ▸ hx))
        (fun x hx h => hv'.plain '"' (by decide) (of_decide_eq_true h ▸ hx))
      obtain rfl := (List.cons.inj hmore).2
      obtain ⟨rfl, rfl⟩ := ih hmore'
      rw [← hv.decoded, hv'.decoded]
      exact ⟨rfl, rfl⟩

theorem Attributes.exists_head {t rest : Text} {as : List (Text × Text)} (h : Attributes t as rest) :
    ∃ c cs, t = c :: cs ∧ (c = ' ' ∨ c = '>') := by
  cases h with
  | nil => exact ⟨_, _, rfl, Or.inr rfl⟩
  | cons _ _ _ => exact ⟨_, _, rfl, Or.inl rfl⟩

theorem Reads.tag_unique {t name name' rest rest' : Text} {as as' : List (Text × Text)}
    {items items' : List Item} (h : Reads t (.tag name as :: items) rest)
    (h' : Reads t (.tag name' as' :: items') rest') : name = name' ∧ as = as' := by
  generalize hu : t = u at h'
  cases h with
  | tag hname hattributes _ =>
    cases h' with
    | tag hname' hattributes' _ =>
      -- the attributes start where the name ends: at the first space, or at the end of the tag
      obtain ⟨c, cs, rfl, hc⟩ := hattributes.exists_head
      obtain ⟨c', cs', rfl, hc'⟩ := hattributes'.exists_head
      have hfree {name : Text} (hname : CleanName name) :
          ∀ x ∈ name, ¬ decide (x = ' ' ∨ x = '>') = true := by
        intro x hx h
        rcases of_decide_eq_true h with rfl | rfl
        · exact hname.1 hx
        · exact hname.2.1 hx
      obtain ⟨rfl, hrest⟩ := Text.eq_of_append_cons (fun x => x = ' ' ∨ x = '>') (List.cons.inj hu).2
        (decide_eq_true hc) (decide_eq_true hc') (hfree hname) (hfree hname')
      rw [hrest] at hattributes
      exact ⟨rfl, (hattributes.unique hattributes').1⟩

end Folio.Html
