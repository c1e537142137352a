import Timetable.Hex
import Timetable.Numeral
import Timetable.Relational.Walk

/-!
# Addresses of databases

An address is what follows `file:` in the path of a database: an authority between two slashes and
the next, a path, parameters behind a question mark, and a note behind a hash sign, which means
nothing. In the path and in the parameters two hexadecimal digits behind a percent sign stand for a
byte. The bytes of the path need not be those of a text, while parameters are read as texts.
`Address.ofText` takes an address apart, and `Address.settings` says what its parameters ask for.
-/

namespace Timetable.Relational

/-- Why an address cannot be followed. -/
inductive AddressFault
  /-- The database is said to be on another machine. -/
  | foreignAuthority (authority : String)
  | noSuchMode (value : String)
  /-- A mode that allows more than one before it. -/
  | modeNotAllowed (value : String)
  | noSuchCache (value : String)
  | noSuchSystem (name : String)
deriving DecidableEq, Repr

/-- The words for a fault. -/
def AddressFault.message : AddressFault → String
  | foreignAuthority authority => "invalid uri authority: " ++ authority
  | noSuchMode value => "no such access mode: " ++ value
  | modeNotAllowed value => "access mode not allowed: " ++ value
  | noSuchCache value => "no such cache mode: " ++ value
  | noSuchSystem name => "no such vfs: " ++ name

/-! ### Taking addresses apart -/

/-- A path with parameters, each a name and a value. -/
structure Address where
  path : Path
  parameters : List (String × String)
deriving DecidableEq, Repr

namespace Address

/-- The bytes that a part of an address stands for. -/
def bytes : List Char → List UInt8
  | '%' :: h :: l :: cs =>
    match Hex.value? h, Hex.value? l with
    | some high, some low => UInt8.ofNat (high * 16 + low) :: bytes cs
    | _, _ => '%'.toUInt8 :: bytes (h :: l :: cs)
  | c :: cs => String.utf8EncodeChar c ++ bytes cs
  | [] => []

/-- What a part of an address stands for, up to its first zero byte. -/
def decode (cs : List Char) : List UInt8 := (bytes cs).takeWhile (· ≠ 0)

/-- The characters that bytes stand for; one that belongs to no character stands for U+FFFD. -/
def characters : List UInt8 → List Char
  | [] => []
  | b :: bs =>
    match ((b :: bs).take 4).toByteArray.utf8DecodeChar? 0 with
    | some c => c :: characters (bs.drop (c.utf8Size - 1))
    | none => '\ufffd' :: characters bs
termination_by bs => bs.length
decreasing_by
  · simp only [List.length_drop, List.length_cons]; omega
  · simp only [List.length_cons]; omega

/-- The text that a part of an address stands for. -/
def text (cs : List Char) : String := String.ofList (characters (decode cs))

/-- What stands before the first of some character, and what behind it. -/
def cut (c : Char) (cs : List Char) : List Char × List Char :=
  (cs.takeWhile (· ≠ c), (cs.dropWhile (· ≠ c)).drop 1)

/-- The authority of an address and the rest. -/
def authority : List Char → List Char × List Char
  | '/' :: '/' :: cs => (cs.takeWhile (· ≠ '/'), cs.dropWhile (· ≠ '/'))
  | cs => ([], cs)

/-- The name and the value of a parameter. -/
def parameter (cs : List Char) : String × String :=
  let (name, value) := cut '=' cs
  (text name, text value)

/-- Takes an address apart. A parameter without a name is left out. -/
def ofText (cs : List Char) : Except AddressFault Address :=
  let (authority, cs) := authority cs
  let name := String.ofList authority
  if name = "" ∨ name = "localhost" then
    let (path, parameters) := cut '?' (cut '#' cs).1
    .ok ⟨decode path, ((parameters.splitOn '&').map parameter).filter (·.1 ≠ "")⟩
  else .error (.foreignAuthority name)

end Address

/-! ### Parameters -/

/-- What a client may do with a database. -/
inductive Access
  | read
  | write
  /-- To write it, and to make it if there is none. -/
  | create
deriving DecidableEq, Repr

/-- How an address wants a database to be opened. -/
inductive Mode
  | access (a : Access)
  /-- As a new one that only its client sees. -/
  | memory
deriving DecidableEq, Repr

namespace Mode

/-- The mode with a name. -/
def ofText? : String → Option Mode
  | "ro" => some (.access .read)
  | "rw" => some (.access .write)
  | "rwc" => some (.access .create)
  | "memory" => some .memory
  | _ => none

/-- Whether a mode may be asked for after another. -/
def mayFollow : Mode → Mode → Bool
  | access .create, access before => before = .create
  | access .write, access before => before ≠ .read
  | _, _ => true

end Mode

/-- How a database is to be looked for. -/
structure Settings where
  mode : Mode
  /-- The name of the file system. -/
  system : String
deriving DecidableEq, Repr

namespace Settings

/-- What is done if nothing is asked for. -/
def usual : Settings := ⟨.access .create, "unix"⟩

/-- The file system that keeps its files in memory. -/
def memorySystem : String := "memdb"

/-- The names of the file systems. -/
def systems : List String := ["unix", "unix-dotfile", "unix-excl", "unix-none", memorySystem]

/-- Does what a parameter asks for; one with another name asks for nothing. -/
def apply (s : Settings) (name value : String) : Except AddressFault Settings :=
  match name with
  | "mode" =>
    match Mode.ofText? value with
    | none => .error (.noSuchMode value)
    | some mode =>
      if mode.mayFollow s.mode then .ok { s with mode } else .error (.modeNotAllowed value)
  | "cache" => if value ∈ ["shared", "private"] then .ok s else .error (.noSuchCache value)
  | "vfs" => .ok { s with system := value }
  | _ => .ok s

end Settings

namespace Address

/-- How the database at an address is to be looked for. Of two parameters with one name the later
one wins. -/
def settings (a : Address) : Except AddressFault Settings := do
  let s ← a.parameters.foldlM (fun s p => s.apply p.1 p.2) Settings.usual
  if s.system ∈ Settings.systems then return s else throw (.noSuchSystem s.system)

/-- Whether a value says yes. A number does if its lowest byte is not zero, unless it is too large
for a signed word of 32 bits. -/
def isYes (value : String) : Bool :=
  let isWord (n : Nat) : Bool := n < 0x80000000 && n % 256 ≠ 0
  match value.toList with
  | c :: cs =>
    if c.isDigit then
      match c, cs with
      | '0', x :: ds =>
        if (x = 'x' || x = 'X') && (ds.head?.map Hex.isDigit).getD false then
          isWord (Hex.number (ds.takeWhile Hex.isDigit))
        else isWord (Numeral.value ((c :: cs).takeWhile Char.isDigit))
      | _, _ => isWord (Numeral.value ((c :: cs).takeWhile Char.isDigit))
    else value.toLower ∈ ["on", "yes", "true"]
  | [] => false

/-- Whether the database is said never to change. Here the first parameter with the name wins. -/
def isImmutable (a : Address) : Bool := ((a.parameters.lookup "immutable").map isYes).getD false

/-- The path of the file whose permissions a new file is to have. -/
def model? (a : Address) : Option Path := (a.parameters.lookup "modeof").map Path.ofText

end Address

end Timetable.Relational
