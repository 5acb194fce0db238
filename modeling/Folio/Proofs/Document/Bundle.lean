import Folio.Proofs.Document.Advancing
import Folio.Proofs.Document.ClaimForm
import Folio.Proofs.Document.Lines

namespace Folio

/-- Tokens that are to become one node. -/
inductive Bundle (r : Registry) : List Token → Prop
  | flag {k : Text} : k ∈ Kind.flags → Bundle r [⟨k, "true".toList⟩]
  | plain {k v : Text} : k ∈ [Kind.importKind, Kind.frontmatter, Kind.script] → Bundle r [⟨k, v⟩]
  | text {v : Text} : Bundle r [⟨Kind.text, v⟩]
  | definition {v : Text} : v ≠ [] → Text.Trimmed v → Bundle r [⟨Kind.variableKind, v⟩]
  | directive {k v : Text} : k ∈ r.keywords → Bundle r [⟨k, v⟩]
  | captioned {source alt : Text} : Kind.image ∈ r.keywords →
      Bundle r [⟨Kind.image, source⟩, ⟨Kind.alt, alt⟩]

/-- A claimed line gives one bundle. -/
theorem Segment.ClaimForm.bundle {r : Registry} {lines : List Text} {i : Nat} {c : Claim}
    (h : ClaimForm r lines i c) : Bundle r c.tokens := by
  cases h with
  | flag hk => exact .flag hk
  | importing _ => exact .plain (by decide)
  | definition hv =>
    obtain ⟨hne, htrimmed⟩ := Lines.argument?_trimmed (Text.trimmed_trim _) hv
    exact .definition hne htrimmed
  | metadata _ => exact .plain (by decide)
  | block hk _ _ =>
    rcases hk with rfl | ⟨_, hk⟩
    · exact .plain (by decide)
    · exact .directive hk
  | directive hk _ _ => exact .directive hk
  | captioned hk _ _ _ => exact .captioned hk

/-- A stretch of lines gives one bundle, or no tokens. -/
theorem Stretch.Valid.bundle {r : Registry} (hr : r.Standard) {lines : List Text} {s : Stretch}
    (h : s.Valid r lines) (hne : s.tokens ≠ []) : Bundle r s.tokens := by
  cases h with
  | blank _ _ => exact absurd rfl hne
  | claimed _ _ hc => exact (Segment.claimForm_of_claimAt? hr (Segment.claimAt?_eq_some_iff.2 hc)).bundle
  | run _ _ _ _ => exact .text

/-- The tokens of a document are bundles one after another. -/
theorem exists_bundles {r : Registry} (hr : r.Standard) (source : Text) :
    ∃ bs : List (List Token), (∀ b ∈ bs, Bundle r b) ∧ (tokenize r source).value = bs.flatten := by
  obtain ⟨ss, htiles, htokens⟩ := Segment.exists_tiles_of_standard hr source
  refine ⟨(ss.map Stretch.tokens).filter fun b : List Token => !b.isEmpty, fun b hb => ?_, ?_⟩
  · obtain ⟨hmem, hne⟩ := List.mem_filter.1 hb
    obtain ⟨s, hs, rfl⟩ := List.mem_map.1 hmem
    exact (htiles.valid s hs).bundle hr (by simpa using hne)
  · rw [List.flatten_filter_not_isEmpty, ← List.flatMap_def]
    exact htokens

/-- Every alternative text comes right after an image. -/
def AltsFollowImages (ts : List Token) : Prop :=
  ∀ before t after, ts = before ++ t :: after → t.kind = Kind.alt →
    ∃ u ∈ before.getLast?, u.kind = Kind.image

namespace AltsFollowImages

variable {ts us : List Token}

theorem head_ne (h : AltsFollowImages ts) : ∀ t ∈ ts.head?, t.kind ≠ Kind.alt := by
  intro t ht halt
  cases ts with
  | nil => cases ht
  | cons u ts =>
    obtain rfl := Option.some.inj ht
    obtain ⟨_, hlast, _⟩ := h [] u ts rfl halt
    cases hlast

theorem append (hts : AltsFollowImages ts) (hus : AltsFollowImages us) :
    AltsFollowImages (ts ++ us) := by
  intro before t after h halt
  rcases List.append_eq_append_iff.1 h with ⟨more, rfl, hmore⟩ | ⟨more, rfl, hmore⟩
  · -- the alternative text is in the second part, after an image of that part
    obtain ⟨u, hu, himage⟩ := hus more t after hmore halt
    refine ⟨u, ?_, himage⟩
    rw [List.getLast?_append, show more.getLast? = some u from hu]
    rfl
  · cases more with
    | nil =>
      -- the second part would start with it
      rw [List.nil_append] at hmore
      exact absurd halt (hus.head_ne t (by rw [← hmore]; rfl))
    | cons u more =>
      obtain ⟨rfl, -⟩ := List.cons.inj hmore
      exact hts before t more rfl halt

theorem nil : AltsFollowImages [] := fun _ _ _ h => by simp at h

theorem singleton {k v : Text} (hk : k ≠ Kind.alt) : AltsFollowImages [⟨k, v⟩] := by
  intro before t after h halt
  cases before with
  | nil =>
    obtain ⟨rfl, -⟩ := List.cons.inj h
    exact absurd halt hk
  | cons u before => simp at h

theorem captioned (source alt : Text) :
    AltsFollowImages [⟨Kind.image, source⟩, ⟨Kind.alt, alt⟩] := by
  intro before t after h halt
  match before, h with
  | [], h =>
    obtain ⟨rfl, -⟩ := List.cons.inj h
    exact absurd halt (by decide : Kind.image ≠ Kind.alt)
  | [u], h =>
    obtain ⟨rfl, -⟩ := List.cons.inj h
    exact ⟨_, rfl, rfl⟩
  | u :: v :: before, h => simp at h

end AltsFollowImages

theorem Bundle.alts {r : Registry} (hr : r.Standard) {b : List Token} (hb : Bundle r b) :
    AltsFollowImages b := by
  cases hb with
  | flag hk => exact .singleton fun h => absurd hk (by rw [h]; decide)
  | plain hk => exact .singleton fun h => absurd hk (by rw [h]; decide)
  | text => exact .singleton (by decide)
  | definition => exact .singleton (by decide)
  | directive hk => exact .singleton (Directive.keyword_free _ (hr.keyword_mem hk)).2.2.2.1
  | captioned _ => exact .captioned _ _

theorem Bundle.alts_flatten {r : Registry} (hr : r.Standard) {bs : List (List Token)}
    (hbs : ∀ b ∈ bs, Bundle r b) : AltsFollowImages bs.flatten := by
  induction bs with
  | nil => exact .nil
  | cons b bs ih =>
    obtain ⟨hb, hrest⟩ := List.forall_mem_cons.1 hbs
    exact (hb.alts hr).append (ih hrest)

theorem tokenize_alts {r : Registry} (hr : r.Standard) (source : Text) :
    AltsFollowImages (tokenize r source).value := by
  obtain ⟨bs, hbs, htokens⟩ := exists_bundles hr source
  rw [htokens]
  exact Bundle.alts_flatten hr hbs

end Folio
