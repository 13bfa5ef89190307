import PipelineExpansion.Json.Numeral
import PipelineExpansion.Text.Pieces
import PipelineExpansion.Text.Quoted

/-!
# Reading JSON

A text is read from its start to its end, and a reader of each kind of value says what it expects. So what
is wrong with the shape of a text is found together with what is wrong with its kinds, and whichever
comes first is reported, with its place. Places are offsets in bytes.
-/

namespace PipelineExpansion.Json

/-- What is wrong with a text, and where. -/
structure Fault where
  message : String
  place : Nat
deriving DecidableEq, Repr

/-- The line and the column of an offset: the number of lines begun, and of bytes in the last one. -/
def lineAndColumn (source : String) (place : Nat) : Nat × Nat :=
  go 1 0 place source.toList
where
  go (line column : Nat) (left : Nat) : List Char → Nat × Nat
    | [] => (line, column)
    | c :: rest =>
      if left = 0 then (line, column)
      else if c = '\n' then go (line + 1) 0 (left - 1) rest
      else go line (column + min left c.utf8Size) (left - c.utf8Size) rest

/-- The wording of a fault in a text. -/
def Fault.text (source : String) (f : Fault) : String :=
  let (line, column) := lineAndColumn source f.place
  f.message ++ " at line " ++ toString line ++ " column " ++ toString column

/-- The characters still to be read, and the offset of the first. -/
structure Input where
  place : Nat
  rest : List Char

/-- A step of reading. -/
abbrev Reading (α : Type) := StateT Input (Except Fault) α

namespace Reading

/-- Fails behind what has been read. -/
def failHere {α : Type} (message : String) : Reading α := do
  throw ⟨message, (← get).place⟩

/-- Fails within the next character, at its second byte if it has one. -/
def failAtNext {α : Type} (message : String) : Reading α := do
  let i ← get
  throw ⟨message, if i.rest.isEmpty then i.place else i.place + 1⟩

/-- The next character, which is not taken. -/
def look? : Reading (Option Char) := return (← get).rest.head?

/-- Takes a character, if there is one. -/
def step : Reading Unit := modify fun i =>
  match i.rest with
  | [] => i
  | c :: rest => ⟨i.place + c.utf8Size, rest⟩

/-- Skips blanks; the character behind them. -/
def peek? : Reading (Option Char) := do
  modify fun i =>
    let blank (c : Char) := c = ' ' || c = '\n' || c = '\t' || c = '\r'
    ⟨i.place + (i.rest.takeWhile blank).length, i.rest.dropWhile blank⟩
  look?

/-- Takes the rest of a word. -/
def word : List Char → Reading Unit
  | [] => return
  | c :: cs => do
    match ← look? with
    | none => failHere "EOF while parsing a value"
    | some d =>
      if c ≠ d then failAtNext "expected ident"
      step
      word cs

/-- Takes digits. -/
def digits : Reading (List Char) := do
  let i ← get
  let ds := i.rest.takeWhile Char.isDigit
  set (Input.mk (i.place + ds.length) (i.rest.drop ds.length))
  return ds

/-- Takes digits, at least one; `ended` is what is wrong if the text ends instead. -/
def someDigits (ended : String) : Reading (List Char) := do
  let ds ← digits
  if ds.isEmpty then
    failAtNext (if (← look?).isNone then ended else "invalid number")
  return ds

/-- Takes the digits in front of a point: one zero, or digits that start with another. -/
def wholeDigits (ended : String) : Reading (List Char) := do
  if (← look?) = some '0' then
    step
    if ((← look?).any Char.isDigit) then failAtNext "invalid number"
    return ['0']
  else someDigits ended

/-- Takes a numeral; `ended` is what is wrong if the text ends within it. -/
def numeral (ended : String) : Reading Numeral := do
  let negative := (← look?) = some '-'
  if negative then step
  let whole ← wholeDigits ended
  let pointed := (← look?) = some '.'
  let mut fraction := []
  if pointed then
    step
    fraction ← someDigits ended
  if !(← look?).any (fun c => c = 'e' || c = 'E') then
    return ⟨negative, whole, fraction, (false, []), !pointed⟩
  step
  let sign ← look?
  if sign.any (fun c => c = '-' || c = '+') then step
  let exponent ← someDigits ended
  return ⟨negative, whole, fraction, (sign = some '-', exponent), false⟩

/-- Takes a number. -/
def number : Reading Json := do
  let n ← numeral "EOF while parsing a value"
  match n.value? with
  | some value => return value
  | none => throw ⟨"number out of range", (← get).place - n.unread⟩

/-- Takes four hexadecimal digits. Whether there are any is found out four bytes on. -/
def hex : Reading Nat := do
  let i ← get
  let ds := i.rest.take 4
  if Text.byteLength ds < 4 then
    throw ⟨"EOF while parsing a string", i.place + Text.byteLength ds⟩
  let digit? (c : Char) : Option Nat :=
    if c.isDigit then some (c.toNat - '0'.toNat)
    else if 'a' ≤ c && c ≤ 'f' then some (c.toNat - 'a'.toNat + 10)
    else if 'A' ≤ c && c ≤ 'F' then some (c.toNat - 'A'.toNat + 10)
    else none
  match ds.foldlM (fun n c => (digit? c).map (16 * n + ·)) 0 with
  | some n =>
    set (Input.mk (i.place + 4) (i.rest.drop 4))
    return n
  | none => throw ⟨"invalid escape", i.place + 4⟩

/-- The character that a letter stands for behind a backslash. -/
def escapedLetter? : Char → Option Char
  | '"' => some '"'
  | '\\' => some '\\'
  | '/' => some '/'
  | 'b' => some '\x08'
  | 'f' => some '\x0c'
  | 'n' => some '\n'
  | 'r' => some '\r'
  | 't' => some '\t'
  | _ => none

/-- Takes the next character of an escape that a character has to follow. -/
def expect (c : Char) : Reading Unit := do
  match ← look? with
  | none => failHere "EOF while parsing a string"
  | some d =>
    if c ≠ d then failAtNext "unexpected end of hex escape"
    step

/-- Takes the digits of an escaped character, and the escape of the second half of one beyond 16 bits. -/
def escapedNumber : Reading Char := do
  let n ← hex
  if n < 0xd800 || 0xe000 ≤ n then return Char.ofNat n
  if 0xdc00 ≤ n then failHere "lone leading surrogate in hex escape"
  expect '\\'
  expect 'u'
  let low ← hex
  if low < 0xdc00 || 0xe000 ≤ low then failHere "lone leading surrogate in hex escape"
  return Char.ofNat (0x10000 + (n - 0xd800) * 0x400 + (low - 0xdc00))

/-- Takes what follows a backslash; `number` takes what follows a `u`. -/
def escaped {α : Type} (number : Reading α) (letter : Char → α) : Reading α := do
  match ← look? with
  | none => failHere "EOF while parsing a string"
  | some 'u' =>
    step
    number
  | some c =>
    match escapedLetter? c with
    | none => failAtNext "invalid escape"
    | some d =>
      step
      return letter d

/-- What is wrong with a character that a text may not hold as it is. -/
def controlFound : String := "control character (\\u0000-\\u001F) found while parsing a string"

/-- Takes a text behind its opening quote, of at most `n` characters. -/
def text : Nat → List Char → Reading String
  | 0, _ => failHere "EOF while parsing a string"
  | n + 1, read => do
    match ← look? with
    | none => failHere "EOF while parsing a string"
    | some '"' =>
      step
      return String.ofList read.reverse
    | some '\\' =>
      step
      text n ((← escaped escapedNumber id) :: read)
    | some c =>
      if c.toNat < 0x20 then failAtNext controlFound
      step
      text n (c :: read)

/-- Takes a text behind its opening quote, which is not looked at. Halves of characters are not put
together. -/
def skipText : Nat → Reading Unit
  | 0 => failHere "EOF while parsing a string"
  | n + 1 => do
    match ← look? with
    | none => failHere "EOF while parsing a string"
    | some '"' => step
    | some '\\' =>
      step
      escaped (do let _ ← hex) fun _ => ()
      skipText n
    | some c =>
      if c.toNat < 0x20 then failHere controlFound
      step
      skipText n

/-- The number of characters left, and one more. -/
def left : Reading Nat := return (← get).rest.length + 1

/-- Takes a text with its quotes. -/
def quoted : Reading String := do
  step
  text (← left) []

/-- Takes a text with its quotes, which is not looked at. -/
def skipQuoted : Reading Unit := do
  step
  skipText (← left)

/-- Takes a value that is no collection; the kinds that have a text of their own are given. -/
def scalarOf {α : Type} (null : α) (boolean : Bool → α) (text number : Reading α) : Reading α := do
  match ← peek? with
  | none => failAtNext "EOF while parsing a value"
  | some 'n' => do word ['n', 'u', 'l', 'l']; return null
  | some 't' => do word ['t', 'r', 'u', 'e']; return boolean true
  | some 'f' => do word ['f', 'a', 'l', 's', 'e']; return boolean false
  | some '"' => text
  | some c => if c.isDigit || c = '-' then number else failAtNext "expected value"

/-- Takes a value that is no collection. -/
def scalar : Reading Json := scalarOf .null .boolean (do return .text (← quoted)) number

/-- Takes a value that is no collection, which is not looked at. -/
def skipScalar : Reading Unit :=
  scalarOf () (fun _ => ()) skipQuoted do
    let _ ← numeral "invalid number"

/-- How a value that is no collection is named in diagnostics. -/
def describe : Json → String
  | .boolean b => "boolean `" ++ (if b then "true" else "false") ++ "`"
  | .whole n => "integer `" ++ toString n ++ "`"
  | .number n => "floating point `" ++ numberText n ++ "`"
  | .text s => "string " ++ Text.quoted s
  | _ => "null"

/-- Refuses the next value, which is of another kind than is expected. -/
def refuse {α : Type} (expected : String) : Reading α := do
  let found ← match ← peek? with
    | some '[' => pure "sequence"
    | some '\x7b' => pure "map"
    | _ => do pure (describe (← scalar))
  failHere ("invalid type: " ++ found ++ ", expected " ++ expected)

/-! ### Collections -/

/-- Whether an item of an array follows, `first` if none has been taken. The comma in front of it is
taken. -/
def itemFollows (first : Bool) : Reading Bool := do
  match ← peek? with
  | none => failAtNext "EOF while parsing a list"
  | some ']' => return false
  | some c =>
    if first then return true
    if c ≠ ',' then failAtNext "expected `,` or `]`"
    step
    match ← peek? with
    | none => failAtNext "EOF while parsing a value"
    | some ']' => failAtNext "trailing comma"
    | some _ => return true

/-- Takes the end of an array. -/
def endArray : Reading Unit := do
  match ← peek? with
  | none => failAtNext "EOF while parsing a list"
  | some ']' => step
  | some ',' =>
    step
    failAtNext (if (← peek?) = some ']' then "trailing comma" else "trailing characters")
  | some _ => failAtNext "trailing characters"

/-- Takes the items of an array behind its opening bracket, and its end. -/
def itemsFrom {α : Type} (item : Reading α) : Nat → Bool → Reading (List α)
  | 0, _ => failAtNext "EOF while parsing a list"
  | n + 1, first => do
    if ← itemFollows first then
      let value ← item
      return value :: (← itemsFrom item n false)
    else
      endArray
      return []

/-- Takes an array. -/
def arrayOf {α : Type} (item : Reading α) : Reading (List α) := do
  step
  itemsFrom item (← left) true

/-- Takes the name of the next member of an object, `first` if none has been taken; none at the end of the
object, which is taken. -/
def nameFollows (first : Bool) : Reading (Option String) := do
  match ← peek? with
  | none => failAtNext "EOF while parsing an object"
  | some '\x7d' =>
    step
    return none
  | some c =>
    if !first then
      if c ≠ ',' then failAtNext "expected `,` or `\x7d`"
      step
    match ← peek? with
    | none => failAtNext "EOF while parsing a value"
    | some '"' => return some (← quoted)
    | some '\x7d' => failAtNext "trailing comma"
    | some _ => failAtNext "key must be a string"

/-- Takes the colon in front of the value of a member. -/
def colon : Reading Unit := do
  match ← peek? with
  | none => failAtNext "EOF while parsing an object"
  | some ':' => step
  | some _ => failAtNext "expected `:`"

/-- Takes the members of an object behind its opening brace, and its end. -/
def membersFrom {σ : Type} (member : σ → String → Reading σ) : Nat → Bool → σ → Reading σ
  | 0, _, _ => failAtNext "EOF while parsing an object"
  | n + 1, first, acc => do
    match ← nameFollows first with
    | none => return acc
    | some name => membersFrom member n false (← member acc name)

/-- Takes an object; `member` is given the name of each member and takes its colon and its value. -/
def objectOf {σ : Type} (acc : σ) (member : σ → String → Reading σ) : Reading σ := do
  step
  membersFrom member (← left) true acc

mutual

/-- Takes a value of any kind, which is not looked at. -/
def skipValue : Nat → Reading Unit
  | 0 => failAtNext "EOF while parsing a value"
  | n + 1 => do
    match ← peek? with
    | some '[' => do
      step
      skipItems n true
    | some '\x7b' => do
      step
      skipMembers n true
    | _ => skipScalar

/-- Takes the items of an array that is not looked at. -/
def skipItems : Nat → Bool → Reading Unit
  | 0, _ => failAtNext "EOF while parsing a list"
  | n + 1, first => do
    match ← peek? with
    | none => failAtNext "EOF while parsing a list"
    | some ']' => do
      step
    | some c => do
      if !first then
        if c ≠ ',' then failAtNext "expected `,` or `]`"
        step
      skipValue n
      skipItems n false

/-- Takes the members of an object that is not looked at. -/
def skipMembers : Nat → Bool → Reading Unit
  | 0, _ => failAtNext "EOF while parsing an object"
  | n + 1, first => do
    match ← peek? with
    | none => failAtNext "EOF while parsing an object"
    | some '\x7d' => do
      step
    | some c => do
      if !first then
        if c ≠ ',' then failAtNext "expected `,` or `\x7d`"
        step
      match ← peek? with
      | none => failAtNext "EOF while parsing an object"
      | some '"' => do
        skipQuoted
        colon
        skipValue n
        skipMembers n false
      | some _ => failAtNext "key must be a string"

end

/-- Takes a value of any kind. -/
def skip : Reading Unit := do skipValue (2 * (← left))

end Reading

/-- Reads a text as one value. -/
def read {α : Type} (value : Reading α) (source : String) : Except Fault α :=
  let whole : Reading α := do
    let v ← value
    match ← Reading.peek? with
    | none => return v
    | some _ => Reading.failAtNext "trailing characters"
  (whole.run ⟨0, source.toList⟩).map (·.1)

end PipelineExpansion.Json
