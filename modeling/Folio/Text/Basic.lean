namespace Folio

/-- The text of documents, pages, paths and messages. -/
abbrev Text := List Char

/-- Texts are compared as lists; named once for all the lists that texts are looked up in. -/
instance Text.lawfulBEq : LawfulBEq Text := inferInstance

namespace Text

/-- The characters with the property White_Space, as inclusive ranges of code points. -/
def blankRanges : List (Nat × Nat) :=
  [(0x9, 0xD), (0x20, 0x20), (0x85, 0x85), (0xA0, 0xA0), (0x1680, 0x1680), (0x2000, 0x200A),
    (0x2028, 0x2029), (0x202F, 0x202F), (0x205F, 0x205F), (0x3000, 0x3000)]

def isBlank (c : Char) : Bool :=
  blankRanges.any fun r => r.1 ≤ c.toNat && c.toNat ≤ r.2

def trimStart (t : Text) : Text := t.dropWhile isBlank

def trimEnd (t : Text) : Text := (t.reverse.dropWhile isBlank).reverse

/-- The text without the blanks at its two ends. -/
def trim (t : Text) : Text := trimEnd (trimStart t)

/-- The rest of a text after a leading part, when it starts with that part. -/
def stripPrefix? : Text → Text → Option Text
  | [], t => some t
  | _ :: _, [] => none
  | p :: ps, c :: cs => if p = c then stripPrefix? ps cs else none

theorem length_dropWhile_le (test : Char → Bool) (t : Text) :
    (t.dropWhile test).length ≤ t.length := (List.dropWhile_sublist test).length_le

theorem stripPrefix?_length {p t r : Text} (h : stripPrefix? p t = some r) :
    r.length ≤ t.length := by
  fun_induction stripPrefix? p t <;> grind

/-- The rest of a text before a closing part, when it ends with that part. -/
def stripSuffix? (s t : Text) : Option Text :=
  (stripPrefix? s.reverse t.reverse).map List.reverse

/-- The pieces between the occurrences of a separator; one more than there are separators. -/
def splitOn (sep : Char) : Text → List Text
  | [] => [[]]
  | c :: cs =>
    if c = sep then [] :: splitOn sep cs
    else match splitOn sep cs with
      | [] => [[c]]
      | p :: ps => (c :: p) :: ps

theorem splitOn_ne_nil (sep : Char) (t : Text) : splitOn sep t ≠ [] := by
  cases t with
  | nil => simp [splitOn]
  | cons c cs =>
    unfold splitOn
    split
    · simp
    · split <;> simp

/-- The pieces with a separator between each two. -/
def joinWith (sep : Text) : List Text → Text
  | [] => []
  | [p] => p
  | p :: ps => p ++ sep ++ joinWith sep ps

theorem joinWith_cons {sep p : Text} {ps : List Text} (h : ps ≠ []) :
    joinWith sep (p :: ps) = p ++ sep ++ joinWith sep ps := by
  cases ps with
  | nil => exact absurd rfl h
  | cons q qs => rfl

theorem joinWith_append {sep : Text} {ps qs : List Text} (hp : ps ≠ []) (hq : qs ≠ []) :
    joinWith sep (ps ++ qs) = joinWith sep ps ++ sep ++ joinWith sep qs := by
  induction ps with
  | nil => exact absurd rfl hp
  | cons p ps ih =>
    by_cases h : ps = []
    · subst h
      rw [List.singleton_append, joinWith_cons hq]
      rfl
    · rw [List.cons_append, joinWith_cons (by simp [h]), joinWith_cons h, ih h]
      simp

/-- Joining undoes splitting. -/
theorem joinWith_splitOn (sep : Char) (t : Text) : joinWith [sep] (splitOn sep t) = t := by
  induction t with
  | nil => rfl
  | cons c cs ih =>
    unfold splitOn
    split
    · rename_i hc
      rw [joinWith_cons (splitOn_ne_nil sep cs), ih, hc]
      rfl
    · split
      · rename_i hn
        exact absurd hn (splitOn_ne_nil sep cs)
      · rename_i p ps hs
        rw [hs] at ih
        rw [← ih]
        cases ps <;> rfl

/-- What stands before and after the first character that satisfies a test. -/
def splitFirst? (test : Char → Bool) : Text → Option (Text × Text)
  | [] => none
  | c :: cs =>
    if test c then some ([], cs)
    else (splitFirst? test cs).map fun (a, b) => (c :: a, b)

/-- A line without the carriage return that may close it. -/
def dropReturn (t : Text) : Text := (stripSuffix? ['\r'] t).getD t

/-- The lines of a text. A line feed ends a line, and a carriage return right before it belongs to
the ending; a text that ends with a line feed has no empty last line. -/
def lines (t : Text) : List Text :=
  let pieces := splitOn '\n' t
  pieces.dropLast.map dropReturn ++ pieces.getLast?.toList.filter (· ≠ [])

/-- The size of a text in bytes of UTF-8. -/
def byteSize (t : Text) : Nat := t.foldl (fun size c => size + c.utf8Size) 0

/-- Texts are ordered by their code points, the shorter of two with a common start first; this is
also the order of their UTF-8 bytes. -/
def le : Text → Text → Bool
  | [], _ => true
  | _ :: _, [] => false
  | a :: as, b :: bs => a.toNat < b.toNat || (a == b && le as bs)

def lowerAscii (c : Char) : Char := c.toLower

/-- Equality up to the case of ASCII letters. -/
def eqIgnoreAsciiCase (a b : Text) : Bool := a.map lowerAscii == b.map lowerAscii

def isAsciiAlphanumeric (c : Char) : Bool := c.isAlphanum

/-- The decimal numeral of a number. -/
def ofNat (n : Nat) : Text := Nat.toDigits 10 n

def ofInt : Int → Text
  | .ofNat n => ofNat n
  | .negSucc n => '-' :: ofNat (n + 1)

end Text
end Folio
