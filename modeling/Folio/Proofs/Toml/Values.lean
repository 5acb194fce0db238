import Folio.Proofs.Json.Members
import Folio.Toml.Reader
import Mathlib.Data.List.Nodup
import Mathlib.Tactic.SplitIfs

/-! What a TOML document can say. Whatever is read from one has integers of 64 bits, nothing null,
and each key of a table once, at every level: each scanner gives such data, each change of a table
keeps it, and so do the lines of a document. -/
namespace Folio.Toml

/-- Data that TOML can express. -/
inductive IsValue : Data → Prop
  | bool (b : Bool) : IsValue (.bool b)
  | integer (n : Int) (low : Int64.minValue.toInt ≤ n) (high : n ≤ Int64.maxValue.toInt) :
      IsValue (.integer n)
  | float (shown : Text) : IsValue (.float shown)
  | string (t : Text) : IsValue (.string t)
  | list (items : List Data) (each : ∀ d ∈ items, IsValue d) : IsValue (.list items)
  | table (members : List (Text × Data)) (distinct : (members.map Prod.fst).Nodup)
      (each : ∀ m ∈ members, IsValue m.2) : IsValue (.table members)

theorem isValue_table_iff {ms : List (Text × Data)} :
    IsValue (.table ms) ↔ (ms.map Prod.fst).Nodup ∧ ∀ m ∈ ms, IsValue m.2 := by
  constructor
  · rintro (_ | _ | _ | _ | _ | ⟨_, hdistinct, heach⟩)
    exact ⟨hdistinct, heach⟩
  · rintro ⟨hdistinct, heach⟩
    exact .table ms hdistinct heach

section Keys

variable {α : Type} {key : Text} {value : α} {ms : List (Text × α)}

theorem lookup_eq_none_iff : ms.lookup key = none ↔ key ∉ ms.map Prod.fst := by
  rw [List.lookup_eq_none_iff, List.mem_map]
  constructor
  · rintro h ⟨m, hm, rfl⟩
    exact bne_iff_ne.1 (h m hm) rfl
  · intro h m hm
    exact bne_iff_ne.2 fun heq => h ⟨m, hm, heq.symm⟩

theorem mem_of_lookup (h : ms.lookup key = some value) : (key, value) ∈ ms := by
  obtain ⟨before, after, rfl, -⟩ := List.lookup_eq_some_iff.1 h
  exact List.mem_append_right _ List.mem_cons_self

theorem lookup_of_mem (hdistinct : (ms.map Prod.fst).Nodup) (h : (key, value) ∈ ms) :
    ms.lookup key = some value := by
  induction ms with
  | nil => cases h
  | cons m ms ih =>
    obtain ⟨hfirst, hrest⟩ := List.nodup_cons.1 hdistinct
    rw [Json.lookup_cons]
    rcases List.mem_cons.1 h with rfl | hm
    · rw [if_pos rfl]
    · have hkey : key ≠ m.1 := fun heq => hfirst (heq ▸ List.mem_map_of_mem hm)
      rw [if_neg hkey, ih hrest hm]

end Keys

theorem bounded?_isValue {n m : Int} (h : bounded? n = some m) : IsValue (.integer m) := by
  unfold bounded? at h
  split at h
  · next hn =>
    cases h
    rw [Bool.and_eq_true, decide_eq_true_iff, decide_eq_true_iff] at hn
    exact .integer n hn.1 hn.2
  · cases h

theorem integer?_isValue {s rest : Text} {d : Data} (h : integer? s = some (d, rest)) :
    IsValue d := by
  have hread {digits : Scan Text} {value : Text × Text → Int}
      (hdigits : (digits.bind fun p => (bounded? (value p)).map fun n => (Data.integer n, p.2)) =
        some (d, rest)) : IsValue d := by
    obtain ⟨p, -, hp⟩ := Option.bind_eq_some_iff.1 hdigits
    obtain ⟨n, hn, heq⟩ := Option.map_eq_some_iff.1 hp
    cases heq
    exact bounded?_isValue hn
  unfold integer? at h
  dsimp only at h
  split at h <;> exact hread h

theorem float?_isValue {s rest : Text} {d : Data} (h : float? s = some (d, rest)) : IsValue d := by
  have hshown {shown : Option Text} {r : Text}
      (hmap : shown.map (fun t => (Data.float t, r)) = some (d, rest)) : IsValue d := by
    obtain ⟨t, -, heq⟩ := Option.map_eq_some_iff.1 hmap
    cases heq
    exact .float t
  unfold float? at h
  generalize sign s = signed at h
  obtain ⟨negative, r⟩ := signed
  dsimp only at h
  split at h
  · cases h
    exact .float _
  · cases h
    exact .float _
  · split at h
    · cases h
    · split at h
      · split at h
        · cases h
        · exact hshown h
      · split at h
        · cases h
        · exact hshown h

theorem number?_isValue {s rest : Text} {d : Data} (h : number? s = some (d, rest)) :
    IsValue d := by
  unfold number? at h
  split at h
  · cases h
    refine isValue_table_iff.2 ⟨List.nodup_singleton _, fun m hm => ?_⟩
    rw [List.mem_singleton.1 hm]
    exact .string _
  · rcases Option.or_eq_some_iff.1 h with hfloat | ⟨-, hinteger⟩
    · exact float?_isValue hfloat
    · exact integer?_isValue hinteger

theorem dataOfMembers_eq (ms : Members) :
    dataOfMembers ms = ms.map fun m => (m.1, m.2.data) := by
  induction ms with
  | nil => rfl
  | cons m ms ih => rw [dataOfMembers, ih, List.map_cons]

theorem dataOfTables_eq (items : List Members) :
    dataOfTables items = items.map fun ms => .table (dataOfMembers ms) := by
  induction items with
  | nil => rfl
  | cons ms items ih => rw [dataOfTables, ih, List.map_cons]

/-- Members that TOML can express, as they stand while a document is read. -/
def IsTable (ms : Members) : Prop := IsValue (.table (dataOfMembers ms))

theorem isTable_iff {ms : Members} :
    IsTable ms ↔ (ms.map Prod.fst).Nodup ∧ ∀ m ∈ ms, IsValue m.2.data := by
  rw [IsTable, isValue_table_iff, dataOfMembers_eq, List.map_map, List.forall_mem_map]
  rfl

theorem isTable_nil : IsTable [] := isTable_iff.2 ⟨List.nodup_nil, by simp⟩

theorem isValue_tables_iff {items : List Members} :
    IsValue (Item.tables items).data ↔ ∀ ms ∈ items, IsTable ms := by
  rw [Item.data, dataOfTables_eq]
  constructor
  · rintro (_ | _ | _ | _ | ⟨_, heach⟩)
    exact fun ms hms => heach _ (List.mem_reverse.2 (List.mem_map_of_mem hms))
  · intro h
    refine .list _ fun d hd => ?_
    obtain ⟨ms, hms, rfl⟩ := List.mem_map.1 (List.mem_reverse.1 hd)
    exact h ms hms

section Tables

variable {α : Type} {key : Text} {item : Item} {ms ns : Members}

theorem IsTable.isValue (hms : IsTable ms) (h : ms.lookup key = some item) : IsValue item.data :=
  (isTable_iff.1 hms).2 _ (mem_of_lookup h)

theorem IsTable.concat (hms : IsTable ms) (hkey : ms.lookup key = none) (hitem : IsValue item.data) :
    IsTable (ms ++ [(key, item)]) := by
  obtain ⟨hdistinct, heach⟩ := isTable_iff.1 hms
  have hfresh : key ∉ ms.map Prod.fst := lookup_eq_none_iff.1 hkey
  refine isTable_iff.2 ⟨?_, ?_⟩
  · rw [List.map_append]
    refine List.nodup_append.2 ⟨hdistinct, List.nodup_singleton _, fun k hk l hl heq => ?_⟩
    rw [List.map_singleton, List.mem_singleton] at hl
    rw [heq, hl] at hk
    exact hfresh hk
  · rw [List.forall_mem_append]
    exact ⟨heach, List.forall_mem_singleton.2 hitem⟩

theorem IsTable.replace (hms : IsTable ms) (hitem : IsValue item.data) :
    IsTable (replace key item ms) := by
  obtain ⟨hdistinct, heach⟩ := isTable_iff.1 hms
  refine isTable_iff.2 ⟨?_, ?_⟩
  · have hkeys : (Toml.replace key item ms).map Prod.fst = ms.map Prod.fst := by
      rw [Toml.replace, List.map_map]
      refine List.map_congr_left fun m _ => ?_
      rw [Function.comp_apply]
      split
      · next hm => exact hm.symm
      · rfl
    rwa [hkeys]
  · rw [Toml.replace, List.forall_mem_map]
    intro m hm
    split
    · exact hitem
    · exact heach m hm

theorem IsTable.filter (hms : IsTable ms) (keep : Text × Item → Bool) : IsTable (ms.filter keep) := by
  obtain ⟨hdistinct, heach⟩ := isTable_iff.1 hms
  exact isTable_iff.2 ⟨hdistinct.sublist (List.filter_sublist.map _),
    fun m hm => heach m ((List.mem_filter.1 hm).1)⟩

theorem IsTable.add? (hms : IsTable ms) (h : add? key item ms = some ns)
    (hitem : IsValue item.data) : IsTable ns := by
  unfold Toml.add? at h
  split at h
  · cases h
  · next hkey =>
    cases h
    exact hms.concat (Option.not_isSome_iff_eq_none.1 hkey) hitem

/-- A change of the table that a path leads to keeps all of the tables, and gives what the change
of that table alone gives. -/
theorem IsTable.update {dotted : Bool} {change : Bool → Members → Option (α × Members)}
    {Given : α → Prop} (hchange : ∀ own inner a after, IsTable inner →
      change own inner = some (a, after) → Given a ∧ IsTable after)
    {path : List Text} {own : Bool} {a : α} (hms : IsTable ms)
    (h : update dotted change path own ms = some (a, ns)) : Given a ∧ IsTable ns := by
  induction path generalizing own ms a ns with
  | nil => exact hchange own ms a ns hms h
  | cons k ks ih =>
    rw [Toml.update] at h
    -- the key is new, or has a value that is no table, or is there with tables or a table
    split at h
    · next hk =>
      obtain ⟨⟨a, inner⟩, hinner, heq⟩ := Option.map_eq_some_iff.1 h
      cases heq
      exact (ih isTable_nil hinner).imp_right (hms.concat hk ·)
    · cases h
    · cases h
    · next last before hk =>
      obtain ⟨⟨a, inner⟩, hinner, heq⟩ := Option.map_eq_some_iff.1 h
      cases heq
      obtain ⟨hlast, hbefore⟩ := List.forall_mem_cons.1 (isValue_tables_iff.1 (hms.isValue hk))
      refine (ih hlast hinner).imp_right fun hafter => hms.replace ?_
      exact isValue_tables_iff.2 (List.forall_mem_cons.2 ⟨hafter, hbefore⟩)
    · next hk =>
      split at h
      · cases h
      · obtain ⟨⟨a, inner⟩, hinner, heq⟩ := Option.map_eq_some_iff.1 h
        cases heq
        exact (ih (hms.isValue hk) hinner).imp_right hms.replace

/-- A change that gives nothing else. -/
theorem IsTable.change {dotted : Bool} {change : Bool → Members → Option (Unit × Members)}
    (hchange : ∀ own inner after, IsTable inner → change own inner = some ((), after) →
      IsTable after)
    {path : List Text} {own : Bool} (hms : IsTable ms)
    (h : Toml.update dotted change path own ms = some ((), ns)) : IsTable ns :=
  have hboth (own : Bool) (inner : Members) (a : Unit) (after : Members) (hinner : IsTable inner)
      (hafter : change own inner = some (a, after)) : a = () ∧ IsTable after :=
    ⟨rfl, hchange own inner after hinner hafter⟩
  (hms.update hboth h).2

theorem IsTable.addValue? {path : List Text} {value : Data} (hms : IsTable ms)
    (hvalue : IsValue value) (h : addValue? path key value ms = some ns) : IsTable ns := by
  obtain ⟨⟨⟨⟩, after⟩, hafter, rfl⟩ := Option.map_eq_some_iff.1 h
  refine hms.change (fun own inner after hinner hadd => ?_) hafter
  split at hadd
  · cases hadd
  · obtain ⟨after, hafter, heq⟩ := Option.map_eq_some_iff.1 hadd
    cases heq
    exact hinner.add? hafter hvalue

end Tables

theorem items?_isValue {value? : Text → Scan Data} {rounds : Nat} {s rest : Text} {ds : List Data}
    (hvalue : ∀ s d rest, value? s = some (d, rest) → IsValue d)
    (h : items? value? rounds s = some (ds, rest)) : ∀ d ∈ ds, IsValue d := by
  induction rounds generalizing s ds rest with
  | zero => cases h
  | succ n ih =>
    rw [items?] at h
    split at h
    · cases h
      exact List.forall_mem_nil _
    · obtain ⟨⟨d, r⟩, hd, h⟩ := Option.bind_eq_some_iff.1 h
      dsimp only at h
      split at h
      · obtain ⟨⟨ds, r⟩, hds, heq⟩ := Option.map_eq_some_iff.1 h
        cases heq
        exact List.forall_mem_cons.2 ⟨hvalue _ _ _ hd, ih hds⟩
      · cases h
        exact List.forall_mem_singleton.2 (hvalue _ _ _ hd)
      · cases h

theorem members?_isTable {value? : Text → Scan Data} {rounds : Nat} {s rest : Text}
    {ms ns : Members} (hvalue : ∀ s d rest, value? s = some (d, rest) → IsValue d)
    (hms : IsTable ms) (h : members? value? rounds ms s = some (ns, rest)) : IsTable ns := by
  induction rounds generalizing s ms with
  | zero => cases h
  | succ n ih =>
    rw [members?] at h
    obtain ⟨⟨⟨path, key⟩, r⟩, -, h⟩ := Option.bind_eq_some_iff.1 h
    dsimp only at h
    split at h
    · obtain ⟨⟨d, r⟩, hd, h⟩ := Option.bind_eq_some_iff.1 h
      obtain ⟨after, hafter, h⟩ := Option.bind_eq_some_iff.1 h
      have htable : IsTable after := hms.addValue? (hvalue _ _ _ hd) hafter
      split at h
      · exact ih htable h
      · cases h
        exact htable
      · cases h
    · cases h

theorem word?_isValue {word : String} {b : Bool} {s rest : Text} {d : Data}
    (h : word? word (.bool b) s = some (d, rest)) : IsValue d := by
  obtain ⟨r, -, heq⟩ := Option.map_eq_some_iff.1 h
  cases heq
  exact .bool b

theorem value?_isValue {depth : Nat} {s rest : Text} {d : Data}
    (h : value? depth s = some (d, rest)) : IsValue d := by
  induction depth generalizing s d rest with
  | zero => cases h
  | succ n ih =>
    have hinner (s : Text) (d : Data) (rest : Text) : value? n s = some (d, rest) → IsValue d := ih
    unfold value? at h
    split at h
    · cases h
    · split_ifs at h
      · -- a string
        obtain ⟨⟨t, r⟩, -, heq⟩ := Option.map_eq_some_iff.1 h
        cases heq
        exact .string t
      · -- an array
        obtain ⟨⟨ds, r⟩, hds, heq⟩ := Option.map_eq_some_iff.1 h
        cases heq
        exact .list ds (items?_isValue hinner hds)
      · -- an inline table
        split at h
        · cases h
          exact isTable_nil
        · obtain ⟨⟨ms, r⟩, hms, heq⟩ := Option.map_eq_some_iff.1 h
          cases heq
          exact members?_isTable hinner isTable_nil hms
      · exact word?_isValue h
      · exact word?_isValue h
      · exact float?_isValue h
      · exact number?_isValue h

/-- The tables of a document while it is read, the open one among them. -/
structure Builder.Sound (b : Builder) : Prop where
  root : IsTable b.root
  current : IsTable b.current

namespace Builder.Sound

variable {b after : Builder}

theorem close? {ms : Members} (hb : b.Sound) (h : b.close? = some ms) : IsTable ms := by
  unfold Builder.close? at h
  split at h
  · cases h
    exact hb.current
  · obtain ⟨⟨⟨⟩, ms⟩, hms, rfl⟩ := Option.map_eq_some_iff.1 h
    refine hb.root.change (fun own inner after hinner hplace => ?_) hms
    split at hplace
    · split at hplace
      · next hkey =>
        cases hplace
        exact hinner.concat hkey
          (isValue_tables_iff.2 (List.forall_mem_singleton.2 hb.current))
      · next hkey =>
        cases hplace
        exact hinner.replace (isValue_tables_iff.2
          (List.forall_mem_cons.2 ⟨hb.current, isValue_tables_iff.1 (hinner.isValue hkey)⟩))
      · cases hplace
    · obtain ⟨after, hafter, heq⟩ := Option.map_eq_some_iff.1 hplace
      cases heq
      exact hinner.add? hafter hb.current

theorem openTable? {path : List Text} (hb : b.Sound) (h : b.openTable? path = some after) :
    after.Sound := by
  unfold Builder.openTable? at h
  split at h
  · cases h
  · obtain ⟨root, hroot, h⟩ := Option.bind_eq_some_iff.1 h
    obtain ⟨⟨inner, rest⟩, htaken, rfl⟩ := Option.map_eq_some_iff.1 h
    -- the taken members are those of a table as well
    suffices hboth : IsTable inner ∧ IsTable rest from ⟨hboth.2, hboth.1⟩
    refine (hb.close? hroot).update (fun own ms a after hms htake => ?_) htaken
    split at htake
    · cases htake
      exact ⟨isTable_nil, hms⟩
    · next hkey =>
      cases htake
      exact ⟨hms.isValue hkey, hms.filter _⟩
    · cases htake

theorem openArray? {path : List Text} (hb : b.Sound) (h : b.openArray? path = some after) :
    after.Sound := by
  unfold Builder.openArray? at h
  split at h
  · cases h
  · obtain ⟨root, hroot, h⟩ := Option.bind_eq_some_iff.1 h
    obtain ⟨⟨⟨⟩, rest⟩, hchecked, rfl⟩ := Option.map_eq_some_iff.1 h
    refine ⟨(hb.close? hroot).change (fun own ms after hms hcheck => ?_) hchecked, isTable_nil⟩
    split at hcheck
    · next hkey =>
      cases hcheck
      exact hms.concat hkey (isValue_tables_iff.2 (List.forall_mem_nil _))
    · cases hcheck
      exact hms
    · cases hcheck

theorem addValue? {path : List Text} {key : Text} {value : Data} (hb : b.Sound)
    (hvalue : IsValue value) (h : b.addValue? path key value = some after) : after.Sound := by
  obtain ⟨current, hcurrent, rfl⟩ := Option.map_eq_some_iff.1 h
  exact ⟨hb.root, hb.current.addValue? hvalue hcurrent⟩

theorem header? {s rest : Text} (hb : b.Sound) (h : header? b s = some (after, rest)) :
    after.Sound := by
  unfold Toml.header? at h
  split at h
  all_goals
    obtain ⟨⟨path, r⟩, -, h⟩ := Option.bind_eq_some_iff.1 h
    dsimp only at h
    split at h
  · obtain ⟨opened, hopened, h⟩ := Option.bind_eq_some_iff.1 h
    obtain ⟨r, -, heq⟩ := Option.map_eq_some_iff.1 h
    cases heq
    exact hb.openArray? hopened
  · cases h
  · obtain ⟨opened, hopened, h⟩ := Option.bind_eq_some_iff.1 h
    obtain ⟨r, -, heq⟩ := Option.map_eq_some_iff.1 h
    cases heq
    exact hb.openTable? hopened
  · cases h

theorem keyValue? {s rest : Text} (hb : b.Sound) (h : keyValue? b s = some (after, rest)) :
    after.Sound := by
  obtain ⟨⟨⟨path, key⟩, r⟩, -, h⟩ := Option.bind_eq_some_iff.1 h
  dsimp only at h
  split at h
  · obtain ⟨⟨d, r⟩, hd, h⟩ := Option.bind_eq_some_iff.1 h
    obtain ⟨added, hadded, h⟩ := Option.bind_eq_some_iff.1 h
    obtain ⟨r, -, heq⟩ := Option.map_eq_some_iff.1 h
    cases heq
    exact hb.addValue? (value?_isValue hd) hadded
  · cases h

theorem lines? {rounds : Nat} {s : Text} (hb : b.Sound) (h : lines? rounds b s = some after) :
    after.Sound := by
  induction rounds generalizing b s with
  | zero => cases h
  | succ n ih =>
    rw [Toml.lines?] at h
    split at h
    · cases h
      exact hb
    · obtain ⟨r, -, h⟩ := Option.bind_eq_some_iff.1 h
      exact ih hb h
    · obtain ⟨⟨opened, r⟩, hopened, h⟩ := Option.bind_eq_some_iff.1 h
      exact ih (hb.header? hopened) h
    · split at h
      · obtain ⟨r, -, h⟩ := Option.bind_eq_some_iff.1 h
        exact ih hb h
      · obtain ⟨⟨added, r⟩, hadded, h⟩ := Option.bind_eq_some_iff.1 h
        exact ih (hb.keyValue? hadded) h

end Builder.Sound

/-- Whatever is read from a document is data that TOML can express. -/
theorem parse?_isValue {s : Text} {ms : List (Text × Data)} (h : parse? s = some ms) :
    IsValue (.table ms) := by
  unfold parse? at h
  obtain ⟨members, hmembers, rfl⟩ := Option.map_eq_some_iff.1 h
  obtain ⟨b, hb, hclosed⟩ := Option.bind_eq_some_iff.1 hmembers
  have hempty : Builder.empty.Sound := ⟨isTable_nil, isTable_nil⟩
  exact (hempty.lines? hb).close? hclosed

end Folio.Toml
