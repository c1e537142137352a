import Timetable.Hex

/-!
# Recognising JSON objects

The parameters of a schedule are a JSON object. Nobody looks inside, so there is no need to read a
value out of the text: `Json.isObject` reads the text once, character by character, and keeps what
may come next and which objects and arrays are still open.
-/

namespace Timetable.Json

/-- What is still open. -/
inductive Enclosure
  | object
  | array
deriving DecidableEq, Repr

/-- How far a number has been read. -/
inductive NumberPart
  | minus
  | zero
  | whole
  | point
  | fraction
  | exponent
  | exponentSign
  | power
deriving DecidableEq, Repr

/-- What may come next. -/
inductive Expectation
  | object
  | value
  | valueOrEnd
  | key
  | keyOrEnd
  | colon
  | commaOrEnd
  /-- The rest of a text, which is a key or a value. -/
  | text (isKey : Bool)
  /-- What follows a backslash in a text. -/
  | escape (isKey : Bool)
  /-- Some hexadecimal digits of an escape in a text. -/
  | hex (isKey : Bool) (digits : Nat)
  /-- The rest of a word. -/
  | word (rest : List Char)
  | number (part : NumberPart)
deriving DecidableEq, Repr

/-- A place in a text. -/
structure Place where
  expected : Expectation
  /-- What this place is inside of, innermost first. -/
  enclosing : List Enclosure
deriving DecidableEq, Repr

/-- Whether a character may stand between the parts of a value. -/
def isBlank (c : Char) : Bool := c = ' ' || c = '\t' || c = '\n' || c = '\r'

/-- The beginning of a value. -/
def beginValue (c : Char) (enclosing : List Enclosure) : Option Place :=
  if c = '\x7b' then some ⟨.keyOrEnd, .object :: enclosing⟩
  else if c = '[' then some ⟨.valueOrEnd, .array :: enclosing⟩
  else if c = '"' then some ⟨.text false, enclosing⟩
  else if c = '-' then some ⟨.number .minus, enclosing⟩
  else if c = '0' then some ⟨.number .zero, enclosing⟩
  else if c.isDigit then some ⟨.number .whole, enclosing⟩
  else if c = 't' then some ⟨.word "rue".toList, enclosing⟩
  else if c = 'f' then some ⟨.word "alse".toList, enclosing⟩
  else if c = 'n' then some ⟨.word "ull".toList, enclosing⟩
  else none

/-- What comes after a value: a comma and more, or the end of what it stands in. -/
def afterValue (c : Char) (enclosing : List Enclosure) : Option Place :=
  if isBlank c then some ⟨.commaOrEnd, enclosing⟩
  else
    match enclosing with
    | .object :: outer =>
      if c = ',' then some ⟨.key, enclosing⟩
      else if c = '\x7d' then some ⟨.commaOrEnd, outer⟩
      else none
    | .array :: outer =>
      if c = ',' then some ⟨.value, enclosing⟩
      else if c = ']' then some ⟨.commaOrEnd, outer⟩
      else none
    | [] => none

/-- How a number goes on with a character, if it does. -/
def continueNumber (p : NumberPart) (c : Char) : Option NumberPart :=
  match p with
  | .minus => if c = '0' then some .zero else if c.isDigit then some .whole else none
  | .zero => if c = '.' then some .point else if c = 'e' || c = 'E' then some .exponent else none
  | .whole =>
    if c.isDigit then some .whole
    else if c = '.' then some .point
    else if c = 'e' || c = 'E' then some .exponent
    else none
  | .point => if c.isDigit then some .fraction else none
  | .fraction =>
    if c.isDigit then some .fraction else if c = 'e' || c = 'E' then some .exponent else none
  | .exponent =>
    if c.isDigit then some .power else if c = '+' || c = '-' then some .exponentSign else none
  | .exponentSign | .power => if c.isDigit then some .power else none

/-- Whether a number may end here. -/
def NumberPart.isComplete : NumberPart → Bool
  | zero | whole | fraction | power => true
  | minus | point | exponent | exponentSign => false

/-- What is expected after a text. -/
def afterText (isKey : Bool) : Expectation := if isKey then .colon else .commaOrEnd

/-- The place after one more character, if the character may stand there. -/
def Place.next (p : Place) (c : Char) : Option Place :=
  match p.expected with
  | .object => if isBlank c then some p else if c = '\x7b' then beginValue c p.enclosing else none
  | .value => if isBlank c then some p else beginValue c p.enclosing
  | .valueOrEnd =>
    if isBlank c then some p
    else if c = ']' then afterValue c p.enclosing
    else beginValue c p.enclosing
  | .key =>
    if isBlank c then some p
    else if c = '"' then some { p with expected := .text true }
    else none
  | .keyOrEnd =>
    if isBlank c then some p
    else if c = '"' then some { p with expected := .text true }
    else if c = '\x7d' then afterValue c p.enclosing
    else none
  | .colon =>
    if isBlank c then some p
    else if c = ':' then some { p with expected := .value }
    else none
  | .commaOrEnd => afterValue c p.enclosing
  | .text isKey =>
    if c = '"' then some { p with expected := afterText isKey }
    else if c = '\\' then some { p with expected := .escape isKey }
    else if c.toNat < 0x20 then none
    else some p
  | .escape isKey =>
    if c = 'u' then some { p with expected := .hex isKey 4 }
    else if c ∈ ['"', '\\', '/', 'b', 'f', 'n', 'r', 't'] then
      some { p with expected := .text isKey }
    else none
  | .hex isKey digits =>
    if Hex.isDigit c then
      some { p with expected := if digits ≤ 1 then .text isKey else .hex isKey (digits - 1) }
    else none
  | .word [] => afterValue c p.enclosing
  | .word (w :: ws) => if c = w then some { p with expected := .word ws } else none
  | .number part =>
    match continueNumber part c with
    | some part => some { p with expected := .number part }
    | none => if part.isComplete then afterValue c p.enclosing else none

/-- Whether a text is a JSON object. -/
def isObject (text : String) : Bool :=
  text.toList.foldlM Place.next ⟨.object, []⟩ == some ⟨.commaOrEnd, []⟩

end Timetable.Json
