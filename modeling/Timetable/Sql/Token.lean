import Timetable.Hex

/-!
# Tokens of statements

`Token.pieces` cuts the text of statements into pieces, which together are the text
(`flatMap_text_pieces`). Blanks and comments are pieces that mean nothing; `Token.ofText` leaves
them out. Cutting never fails: what cannot be a token is a piece of the kind `broken`, and the
reader of a statement refuses it where it comes to it.
-/

namespace Timetable.Sql

/-- What a piece of a text is. -/
inductive TokenKind
  /-- Blanks or a comment. -/
  | blank
  /-- A word without quotes. -/
  | word
  /-- A name in quotes or brackets. -/
  | quoted
  /-- A number, a parameter, a row of bytes or an operator. -/
  | mark
  /-- What cannot be a token. -/
  | broken
deriving DecidableEq, Repr

/-- A piece of a text. -/
structure Token where
  kind : TokenKind
  text : List Char
deriving DecidableEq, Repr

namespace Token

/-! ### Classes of characters -/

/-- Whether a character continues blanks. -/
def isBlank (c : Char) : Bool := c = ' ' || ('\t' ≤ c && c ≤ '\r')

/-- Whether a character begins blanks, which a vertical tab does not. -/
def beginsBlank (c : Char) : Bool := isBlank c && c ≠ '\x0b'

/-- Whether a character may begin a word. -/
def beginsWord (c : Char) : Bool := c.isAlpha || c = '_' || '\x7f' < c

/-- Whether a character may stand in a word. -/
def isWordPart (c : Char) : Bool := beginsWord c || c.isDigit || c = '$'

/-- The quotes in which a name may stand: the single, the double and the back quote. -/
def isQuote (c : Char) : Bool := c ∈ ['\x27', '\x22', '\x60']

/-! ### Lengths -/

/-- How many characters of a class a text begins with. -/
def run (p : Char → Bool) (cs : List Char) : Nat := (cs.takeWhile p).length

/-- How many characters there are up to the end of a comment between `/*` and `*/`. -/
def commentLength : List Char → Nat
  | [] => 0
  | '*' :: '/' :: _ => 2
  | _ :: cs => commentLength cs + 1

/-- How many characters there are up to the closing quote and with it. Two quotes in a row stand
for one and close nothing. -/
def closing? (q : Char) : List Char → Option Nat
  | [] => none
  | [c] => if c = q then some 1 else none
  | c :: d :: cs =>
    if c ≠ q then (closing? q (d :: cs)).map (· + 1)
    else if d = q then (closing? q cs).map (· + 2)
    else some 1

/-- How many characters a point and digits take. -/
def fractionLength : List Char → Nat
  | '.' :: cs => 1 + run Char.isDigit cs
  | _ => 0

/-- How many characters an exponent of ten takes. -/
def exponentLength : List Char → Nat
  | e :: s :: cs =>
    if e ≠ 'e' ∧ e ≠ 'E' then 0
    else if s.isDigit then 2 + run Char.isDigit cs
    else if (s = '+' ∨ s = '-') ∧ 0 < run Char.isDigit cs then 2 + run Char.isDigit cs
    else 0
  | _ => 0

/-- How many characters a decimal number takes. -/
def decimalLength (s : List Char) : Nat :=
  let whole := run Char.isDigit s
  let fixed := whole + fractionLength (s.drop whole)
  fixed + exponentLength (s.drop fixed)

/-- What a text with a number in front begins with. A decimal number with the rest of a word behind
it is broken. -/
def number (s : List Char) : TokenKind × Nat :=
  let isHex := match s with
    | '0' :: x :: d :: _ => (x = 'x' || x = 'X') && Hex.isDigit d
    | _ => false
  if isHex then (.mark, 2 + run Hex.isDigit (s.drop 2))
  else
    let length := decimalLength s
    match run isWordPart (s.drop length) with
    | 0 => (.mark, length)
    | more => (.broken, length + more)

/-- What the text behind `x` and a quote makes of them: a row of bytes if there are pairs of digits
up to the next quote. -/
def bytes (cs : List Char) : TokenKind × Nat :=
  let body := cs.takeWhile (· ≠ '\x27')
  let isClosed := body.length < cs.length
  let isRow := isClosed && body.all Hex.isDigit && body.length % 2 = 0
  (if isRow then .mark else .broken, body.length + if isClosed then 1 else 0)

/-- What the text behind the sign of a parameter makes of it: a name, which may hold double colons
and end with something in parentheses. -/
def parameter (isNamed : Bool) : List Char → TokenKind × Nat
  | ':' :: ':' :: cs =>
    let (kind, more) := parameter isNamed cs
    (kind, more + 2)
  | c :: cs =>
    if isWordPart c then
      let (kind, more) := parameter true cs
      (kind, more + 1)
    else if c = '(' ∧ isNamed then
      let inner := run (fun d => !isBlank d && d ≠ ')') cs
      if cs[inner]? = some ')' then (.mark, inner + 2) else (.broken, inner + 1)
    else (if isNamed then .mark else .broken, 0)
  | [] => (if isNamed then .mark else .broken, 0)

/-- The operators, of which one that begins with another stands before it. -/
def operators : List String :=
  ["->>", "->", "==", "<=", "<>", "<<", ">=", ">>", "!=", "||", ";", "(", ")", "+", "-", "*", "/",
    "%", ",", "~", "&", "|", "=", "<", ">", "."]

/-! ### Cutting -/

/-- What kind of piece a character begins, and how many of the characters behind it belong to the
piece. -/
def shape (c : Char) (cs : List Char) : TokenKind × Nat :=
  if beginsBlank c then (.blank, run isBlank cs)
  else if c = '\ufeff' then (.blank, 0)
  else if c = '-' ∧ cs.head? = some '-' then (.blank, run (· ≠ '\n') cs)
  else if c = '/' ∧ cs.head? = some '*' ∧ 1 < cs.length then
    (.blank, 1 + commentLength (cs.drop 1))
  else if (c = 'x' ∨ c = 'X') ∧ cs.head? = some '\x27' then
    let (kind, length) := bytes (cs.drop 1)
    (kind, 1 + length)
  else if beginsWord c then (.word, run isWordPart cs)
  else if isQuote c then
    match closing? c cs with
    | some length => (.quoted, length)
    | none => (.broken, cs.length)
  else if c = '[' then
    if ']' ∈ cs then (.quoted, run (· ≠ ']') cs + 1) else (.broken, cs.length)
  else if c.isDigit ∨ (c = '.' ∧ (cs.head?.map Char.isDigit).getD false) then
    let (kind, length) := number (c :: cs)
    (kind, length - 1)
  else if c = '?' then (.mark, run Char.isDigit cs)
  else if c ∈ ['$', '@', '#', ':'] then parameter false cs
  else
    match operators.find? (·.toList.isPrefixOf (c :: cs)) with
    | some operator => (.mark, operator.length - 1)
    | none => (.broken, 0)

/-- How far the statement has come that a piece belongs to. -/
inductive Progress
  /-- There is nothing of it yet. -/
  | nothing
  /-- There is nothing of it yet, and right before it another statement ended. -/
  | ended
  | begun
deriving DecidableEq, Repr

/-- How far the statement has come behind a piece. A semicolon ends a statement that has begun. -/
def Progress.next (p : Progress) (t : Token) : Progress :=
  if t.kind = .blank then (if p = .begun then .begun else .nothing)
  else if t.text = [';'] then (if p = .begun then .ended else .nothing)
  else .begun

/-- What kind of piece a character begins, as in `shape`, except that behind the end of a statement
every blank begins blanks. -/
def shapeIn (p : Progress) (c : Char) (cs : List Char) : TokenKind × Nat :=
  if p = .ended ∧ isBlank c then (.blank, run isBlank cs) else shape c cs

/-- Cuts a text into pieces. -/
def pieces (p : Progress) : List Char → List Token
  | [] => []
  | c :: cs =>
    let (kind, more) := shapeIn p c cs
    let t : Token := ⟨kind, c :: cs.take more⟩
    t :: pieces (p.next t) (cs.drop more)
termination_by cs => cs.length
decreasing_by simp only [List.length_drop, List.length_cons]; omega

/-- Nothing is lost in cutting. -/
theorem flatMap_text_pieces (p : Progress) (cs : List Char) : (pieces p cs).flatMap text = cs := by
  fun_induction pieces p cs with
  | case1 => rfl
  | case2 p c cs kind more h t ih => simp [ih, t]

theorem text_ne_nil {t : Token} {p : Progress} {cs : List Char} (h : t ∈ pieces p cs) :
    t.text ≠ [] := by
  fun_induction pieces p cs with
  | case1 => simp at h
  | case2 p c cs kind more _ u ih =>
    rcases List.mem_cons.1 h with rfl | h
    · simp [u]
    · exact ih h

/-- The pieces of a text that mean something. -/
def ofText (s : String) : List Token := (pieces .nothing s.toList).filter (·.kind ≠ .blank)

/-! ### Names -/

/-- The words that cannot be names unless they stand in quotes. -/
def reserved : List String :=
  ["add", "all", "alter", "and", "as", "autoincrement", "between", "case", "check", "collate",
    "commit", "constraint", "create", "default", "deferrable", "delete", "distinct", "drop",
    "else", "escape", "except", "exists", "foreign", "from", "group", "having", "in", "index",
    "insert", "intersect", "into", "is", "isnull", "join", "limit", "not", "nothing", "notnull",
    "null", "on", "or", "order", "primary", "references", "returning", "select", "set", "table",
    "then", "to", "transaction", "union", "unique", "update", "using", "values", "when", "where"]

/-- Whether a token is a word, in upper or lower case. -/
def isWord (t : Token) (word : String) : Bool :=
  t.kind = .word && (String.ofList t.text).toLower = word

/-- What a text between two quotes stands for. -/
def unquote (q : Char) : List Char → List Char
  | c :: d :: cs => if c = q ∧ d = q then q :: unquote q cs else c :: unquote q (d :: cs)
  | cs => cs

/-- The name that a token stands for. -/
def name? (t : Token) : Option String :=
  match t.kind, t.text with
  | .word, _ => if reserved.any t.isWord then none else some (String.ofList t.text)
  | .quoted, q :: cs =>
    some (String.ofList (if q = '[' then cs.dropLast else unquote q cs.dropLast))
  | _, _ => none

end Token

end Timetable.Sql
