import Folio.Json.Reader

/-! Stepping over values that nobody asked for. They may nest to any depth, and their strings and
numbers only have to look like such. The rounds of a loop are bounded as in `Folio.Json.Reader`. -/
namespace Folio.Json

def skipHex4 : Text → Except Failure Text
  | a :: b :: c :: d :: rest =>
    if [a, b, c, d].all fun x => (hexValue? x).isSome then .ok rest
    else .error (badHex (a :: b :: c :: d :: rest))
  | s => .error (badHex s)

/-- A string after its opening quotation mark. -/
def skipString : (rounds : Nat) → Text → Except Failure Text
  | 0, s => .error (failHere .eofInString s)
  | _ + 1, [] => .error (failHere .eofInString [])
  | n + 1, c :: cs =>
    if c = '"' then .ok cs
    else if c = '\\' then
      match cs with
      | [] => .error (failHere .eofInString [])
      | d :: ds =>
        if d = 'u' then (skipHex4 ds).bind (skipString n)
        else if (simpleEscape? d).isSome then skipString n ds
        else .error (failAt .invalidEscape cs)
    else if c.toNat < 32 then .error (failAt .controlCharacter (c :: cs))
    else skipString n cs

mutual

def skipValue : (rounds : Nat) → Text → Except Failure Text
  | 0, s => .error (failAt .eofInValue s)
  | n + 1, s =>
    match skipSpace s with
    | [] => .error (failAt .eofInValue [])
    | c :: cs =>
      if c = 'n' then literal "ull".toList cs
      else if c = 't' then literal "rue".toList cs
      else if c = 'f' then literal "alse".toList cs
      else if c = '-' then skipNumber cs
      else if isDigit c then skipNumber (c :: cs)
      else if c = '"' then skipString (cs.length + 1) cs
      else if c = '[' then
        match skipSpace cs with
        | ']' :: rest => .ok rest
        | r => skipItems n r
      else if c = '\x7b' then
        match skipSpace cs with
        | '\x7d' :: rest => .ok rest
        | r => skipMembers n r
      else .error (failAt .expectedValue (c :: cs))

/-- The items of an array from one of them on, with the closing bracket. -/
def skipItems : (rounds : Nat) → Text → Except Failure Text
  | 0, s => .error (failHere .eofInArray s)
  | n + 1, s => (skipValue n s).bind fun rest =>
    match skipSpace rest with
    | [] => .error (failAt .eofInArray [])
    | c :: cs =>
      if c = ',' then skipItems n cs
      else if c = ']' then .ok cs
      else .error (failAt .expectedItemEnd (c :: cs))

/-- The members of an object from one of them on, with the closing brace. -/
def skipMembers : (rounds : Nat) → Text → Except Failure Text
  | 0, s => .error (failHere .eofInObject s)
  | n + 1, s =>
    match skipSpace s with
    | [] => .error (failAt .eofInObject [])
    | c :: cs =>
      if c = '"' then
        (skipString (cs.length + 1) cs).bind fun rest =>
        (readColon rest).bind fun rest =>
        (skipValue n rest).bind fun rest =>
          match skipSpace rest with
          | [] => .error (failAt .eofInObject [])
          | c :: cs =>
            if c = ',' then skipMembers n cs
            else if c = '\x7d' then .ok cs
            else .error (failAt .expectedMemberEnd (c :: cs))
      else .error (failAt .keyNotString (c :: cs))

end

/-- Step over the value that comes next. -/
def skip (s : Text) : Except Failure Text := skipValue (2 * s.length + 2) s

end Folio.Json
