import Folio.Json.Number
import Folio.Decimal.Shortest

/-! Reading JSON text. Each reader takes the input that is left and returns a result with the rest
of it; a failure tells how much was left. Arrays and objects nest at most 127 deep.
Loops over items and members take a bound on the number of rounds; each round consumes input, so
the length of the input is bound enough. -/
namespace Folio.Json

/-- White space between the tokens of JSON. -/
def isSpace (c : Char) : Bool := c = ' ' || c = '\n' || c = '\t' || c = '\r'

def skipSpace (s : Text) : Text := s.dropWhile isSpace

/-- The depth of nesting allowed for a whole text, plus one. -/
def depthLimit : Nat := 128

/-- The rest of a word whose first letter has been read. -/
def literal : Text → Text → Except Failure Text
  | [], s => .ok s
  | _ :: _, [] => .error (failHere .eofInValue [])
  | w :: ws, c :: cs => if w = c then literal ws cs else .error (failAt .expectedIdent (c :: cs))

def hexValue? (c : Char) : Option Nat :=
  if c.isDigit then some (c.toNat - '0'.toNat)
  else if 'a' ≤ c && c ≤ 'f' then some (c.toNat - 'a'.toNat + 10)
  else if 'A' ≤ c && c ≤ 'F' then some (c.toNat - 'A'.toNat + 10)
  else none

/-- The failure of four hexadecimal digits: they are not there, or the input is too short. -/
def badHex (s : Text) : Failure :=
  if s.byteSize < 4 then ⟨.eofInString, 0⟩ else ⟨.invalidEscape, s.byteSize - 4⟩

def readHex4 : Text → Reading Nat
  | a :: b :: c :: d :: rest =>
    match hexValue? a, hexValue? b, hexValue? c, hexValue? d with
    | some a', some b', some c', some d' =>
      .ok (a' * 4096 + b' * 256 + c' * 16 + d', rest)
    | _, _, _, _ => .error (badHex (a :: b :: c :: d :: rest))
  | s => .error (badHex s)

def isHighSurrogate (n : Nat) : Bool := 0xD800 ≤ n && n ≤ 0xDBFF

def isLowSurrogate (n : Nat) : Bool := 0xDC00 ≤ n && n ≤ 0xDFFF

/-- The second half of a surrogate pair with its introducing backslash and letter. -/
def readLowSurrogate (high : Nat) : Text → Reading Char
  | '\\' :: 'u' :: s =>
    match readHex4 s with
    | .error e => .error e
    | .ok (low, rest) =>
      if isLowSurrogate low then
        .ok (Char.ofNat ((high - 0xD800) * 1024 + (low - 0xDC00) + 0x10000), rest)
      else .error (failHere .loneSurrogate rest)
  | '\\' :: s => .error (if s.isEmpty then failHere .eofInString [] else failAt .missingSurrogate s)
  | s => .error (if s.isEmpty then failHere .eofInString [] else failAt .missingSurrogate s)

/-- The character of an escape by code, after its letter. -/
def readCodeEscape (s : Text) : Reading Char :=
  match readHex4 s with
  | .error e => .error e
  | .ok (n, rest) =>
    if isLowSurrogate n then .error (failHere .loneSurrogate rest)
    else if isHighSurrogate n then readLowSurrogate n rest
    else .ok (Char.ofNat n, rest)

/-- The character that a letter after a backslash stands for. -/
def simpleEscape? (c : Char) : Option Char :=
  if c = '"' || c = '\\' || c = '/' then some c
  else if c = 'b' then some (Char.ofNat 8)
  else if c = 'f' then some (Char.ofNat 12)
  else if c = 'n' then some '\n'
  else if c = 'r' then some '\r'
  else if c = 't' then some '\t'
  else none

/-- The character of an escape, after its backslash. -/
def readEscape : Text → Reading Char
  | [] => .error (failHere .eofInString [])
  | c :: cs =>
    if c = 'u' then readCodeEscape cs
    else match simpleEscape? c with
      | some x => .ok (x, cs)
      | none => .error (failAt .invalidEscape (c :: cs))

theorem readHex4_length {s rest : Text} {n : Nat} (h : readHex4 s = .ok (n, rest)) :
    rest.length < s.length := by
  unfold readHex4 at h
  split at h
  · split at h
    · injection h with h; injection h with _ h; subst h; simp only [List.length_cons]; omega
    · cases h
  · cases h

theorem readLowSurrogate_length {s rest : Text} {high : Nat} {c : Char}
    (h : readLowSurrogate high s = .ok (c, rest)) : rest.length < s.length := by
  unfold readLowSurrogate at h
  split at h
  · split at h
    · cases h
    · next hx =>
      have := readHex4_length hx
      split at h
      · injection h with h; injection h with _ h; subst h; simp only [List.length_cons]; omega
      · cases h
  · cases h
  · cases h

theorem readCodeEscape_length {s rest : Text} {c : Char} (h : readCodeEscape s = .ok (c, rest)) :
    rest.length < s.length := by
  unfold readCodeEscape at h
  split at h
  · cases h
  · next hx =>
    have := readHex4_length hx
    split at h
    · cases h
    · split at h
      · have := readLowSurrogate_length h; omega
      · injection h with h; injection h with _ h; subst h; assumption

theorem readEscape_length {s rest : Text} {c : Char} (h : readEscape s = .ok (c, rest)) :
    rest.length < s.length := by
  unfold readEscape at h
  split at h
  · cases h
  · split at h
    · have := readCodeEscape_length h; simp only [List.length_cons]; omega
    · split at h
      · injection h with h; injection h with _ h; subst h; simp
      · cases h

/-- The characters of a string, after its opening quotation mark, up to and with the closing one. -/
def readStringBody (s : Text) : Reading Text :=
  match s with
  | [] => .error (failHere .eofInString [])
  | c :: cs =>
    if c = '"' then .ok ([], cs)
    else if c = '\\' then
      match _h : readEscape cs with
      | .error e => .error e
      | .ok (x, rest) =>
        match readStringBody rest with
        | .error e => .error e
        | .ok (xs, rest') => .ok (x :: xs, rest')
    else if c.toNat < 32 then .error (failAt .controlCharacter (c :: cs))
    else
      match readStringBody cs with
      | .error e => .error e
      | .ok (xs, rest) => .ok (c :: xs, rest)
termination_by s.length
decreasing_by
  · have := readEscape_length _h; simp only [List.length_cons]; omega
  · simp

/-- The items of an array up to its closing bracket, which is left unread. -/
def readItems (item : Text → Reading α) : (rounds : Nat) → (first : Bool) → Text → Reading (List α)
  | 0, _, s => .error (failHere .eofInArray s)
  | n + 1, first, s =>
    let more : Text → Reading (List α) := fun s =>
      match item s with
      | .error e => .error e
      | .ok (x, rest) => match readItems item n false rest with
        | .error e => .error e
        | .ok (xs, rest') => .ok (x :: xs, rest')
    match skipSpace s with
    | [] => .error (failAt .eofInArray [])
    | c :: cs =>
      if c = ']' then .ok ([], c :: cs)
      else if first then more (c :: cs)
      else if c = ',' then
        match skipSpace cs with
        | [] => .error (failAt .eofInValue [])
        | d :: ds => if d = ']' then .error (failAt .trailingComma (d :: ds)) else more (d :: ds)
      else .error (failAt .expectedItemEnd (c :: cs))

/-- The end of an array after the last item that was asked for. -/
def closeArray (s : Text) : Except Failure Text :=
  match skipSpace s with
  | [] => .error (failAt .eofInArray [])
  | c :: cs =>
    if c = ']' then .ok cs
    else if c = ',' then
      match skipSpace cs with
      | d :: ds =>
        .error (failAt (if d = ']' then .trailingComma else .trailingCharacters) (d :: ds))
      | [] => .error (failAt .trailingCharacters [])
    else .error (failAt .trailingCharacters (c :: cs))

/-- The colon between a key and its value. -/
def readColon (s : Text) : Except Failure Text :=
  match skipSpace s with
  | [] => .error (failAt .eofInObject [])
  | c :: cs => if c = ':' then .ok cs else .error (failAt .expectedColon (c :: cs))

/-- The members of an object up to and with its closing brace. `step` takes what has been read so
far, the key of a member and the input from its value on. -/
def foldMembers (step : σ → Text → Text → Reading σ) :
    (rounds : Nat) → (first : Bool) → σ → Text → Reading σ
  | 0, _, _, s => .error (failHere .eofInObject s)
  | n + 1, first, state, s =>
    let more : Text → Reading σ := fun s =>
      match readStringBody s with
      | .error e => .error e
      | .ok (key, rest) => match readColon rest with
        | .error e => .error e
        | .ok value => match step state key value with
          | .error e => .error e
          | .ok (state', rest') => foldMembers step n false state' rest'
    match skipSpace s with
    | [] => .error (failAt .eofInObject [])
    | c :: cs =>
      if c = '\x7d' then .ok (state, cs)
      else if first then
        if c = '"' then more cs else .error (failAt .keyNotString (c :: cs))
      else if c = ',' then
        match skipSpace cs with
        | [] => .error (failAt .eofInValue [])
        | d :: ds =>
          if d = '"' then more ds
          else .error (failAt (if d = '\x7d' then .trailingComma else .keyNotString) (d :: ds))
      else .error (failAt .expectedMemberEnd (c :: cs))

/-- A value, with room for `depth - 1` levels of arrays and objects in it. -/
def readValue : (depth : Nat) → Text → Reading Json
  | 0, s => .error (failAt .tooDeep s)
  | d + 1, s =>
    match skipSpace s with
    | [] => .error (failAt .eofInValue [])
    | c :: cs =>
      if c = 'n' then (literal "ull".toList cs).map fun rest => (.null, rest)
      else if c = 't' then (literal "rue".toList cs).map fun rest => (.bool true, rest)
      else if c = 'f' then (literal "alse".toList cs).map fun rest => (.bool false, rest)
      else if c = '-' then (readNumber true cs).map fun (n, rest) => (.number n, rest)
      else if isDigit c then (readNumber false (c :: cs)).map fun (n, rest) => (.number n, rest)
      else if c = '"' then (readStringBody cs).map fun (t, rest) => (.string t, rest)
      else if c = '[' then
        if d = 0 then .error (failAt .tooDeep (c :: cs))
        else match readItems (readValue d) (cs.length + 1) true cs with
          | .error e => .error e
          | .ok (items, rest) => (closeArray rest).map fun rest' => (.array items, rest')
      else if c = '\x7b' then
        if d = 0 then .error (failAt .tooDeep (c :: cs))
        else
          let step : List (Text × Json) → Text → Text → Reading (List (Text × Json)) :=
            fun members key value =>
              (readValue d value).map fun (j, rest) => (members ++ [(key, j)], rest)
          (foldMembers step (cs.length + 1) true [] cs).map fun (ms, rest) => (.object ms, rest)
      else .error (failAt .expectedValue (c :: cs))

/-- Nothing but white space is left. -/
def atEnd (s : Text) : Except Failure Unit :=
  match skipSpace s with
  | [] => .ok ()
  | c :: cs => .error (failAt .trailingCharacters (c :: cs))

/-- A reader for the whole of a text. -/
def whole (read : Text → Reading α) (s : Text) : Except Error α :=
  match read s with
  | .error e => .error (e.locate s)
  | .ok (x, rest) => match atEnd rest with
    | .error e => .error (e.locate s)
    | .ok () => .ok x

def parse (s : Text) : Except Error Json := whole (readValue depthLimit) s

/-- The failure of a reader that expected something else than the value that `c :: cs` starts
with. Scalars are read first, arrays and objects are not. -/
def unexpected (expected : Text) (c : Char) (cs : Text) : Failure :=
  let wrong (found : Found) (rest : Text) : Failure :=
    failHere (.mismatch (.type found expected)) rest
  let number (r : Reading Number) : Failure :=
    match r with
    | .error e => e
    | .ok (.natural n, rest) => wrong (.integer (Text.ofNat n)) rest
    | .ok (.negative n, rest) => wrong (.integer ('-' :: Text.ofNat n)) rest
    | .ok (.float x, rest) => wrong (.float (Decimal.data x)) rest
  let word (w : Text) (found : Found) : Failure :=
    match literal w cs with
    | .error e => e
    | .ok rest => wrong found rest
  if c = 'n' then word "ull".toList .null
  else if c = 't' then word "rue".toList (.bool true)
  else if c = 'f' then word "alse".toList (.bool false)
  else if c = '-' then number (readNumber true cs)
  else if isDigit c then number (readNumber false (c :: cs))
  else if c = '"' then
    match readStringBody cs with
    | .error e => e
    | .ok (t, rest) => wrong (.string t) rest
  else if c = '[' then wrong .sequence (c :: cs)
  else if c = '\x7b' then wrong .map (c :: cs)
  else failAt .expectedValue (c :: cs)

/-- A string. -/
def readText (s : Text) : Reading Text :=
  match skipSpace s with
  | [] => .error (failAt .eofInValue [])
  | c :: cs =>
    if c = '"' then readStringBody cs else .error (unexpected "a string".toList c cs)

/-- The members of an object. -/
def readObject (s : Text) : Reading (List (Text × Json)) :=
  match skipSpace s with
  | [] => .error (failAt .eofInValue [])
  | c :: cs =>
    if c = '\x7b' then
      match readValue depthLimit (c :: cs) with
      | .ok (.object members, rest) => .ok (members, rest)
      | .ok (_, rest) => .error (failHere .expectedValue rest)
      | .error e => .error e
    else .error (unexpected "a map".toList c cs)

end Folio.Json
