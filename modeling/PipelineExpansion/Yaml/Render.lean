import PipelineExpansion.Yaml.Tree

/-!
# The text of a tree

Collections are written in block form, a sequence within a mapping at the column of its key. A text is
written plain where it can be read back, in single quotes where it looks like another scalar or holds an
indicator, in double quotes where it holds characters that must be escaped, and as a literal block where
it has several lines.
-/

namespace PipelineExpansion.Yaml

/-! ### How a text is read back -/

/-- Whether a text is a number of two or more digits that begins with zero, after a sign. -/
def isZeroLed (s : String) : Bool :=
  match s.toList with
  | '-' :: '0' :: d :: ds | '+' :: '0' :: d :: ds | '0' :: d :: ds => (d :: ds).all Char.isDigit
  | _ => false

/-- A whole number in a base without a sign. -/
private def magnitudeIn? (base : Nat) (cs : List Char) : Option Nat :=
  if cs.isEmpty then none
  else cs.foldlM (fun n c =>
    if isHexDigit c && hexValue c < base then some (n * base + hexValue c) else none) 0

/-- The base a number prefix stands for, and the digits behind it. -/
private def baseOf : List Char → Option (Nat × List Char)
  | '0' :: 'x' :: ds => some (16, ds)
  | '0' :: 'o' :: ds => some (8, ds)
  | '0' :: 'b' :: ds => some (2, ds)
  | _ => none

/-- Whether a text reads as a whole number in base 16, 8 or 2, within 128 bits. -/
private def isPrefixed (cs : List Char) : Bool :=
  let (negative, body) : Bool × List Char :=
    match cs with
    | '-' :: rest => (true, rest)
    | '+' :: rest => (false, rest)
    | rest => (false, rest)
  match baseOf body with
  | none => false
  | some (base, digits) =>
    match magnitudeIn? base digits with
    | none => false
    | some n => if negative then n ≤ Nat.pow 2 127 else n < Nat.pow 2 128

/-- Whether a text reads as a decimal number that is finite. -/
private def isDecimal (s : String) : Bool :=
  let body :=
    match s.toList with
    | '+' :: rest => rest
    | rest => rest
  let secondSign :=
    match s.toList with
    | '+' :: '+' :: _ | '+' :: '-' :: _ => true
    | _ => false
  if secondSign then false
  else
    match Binary64.ofString? (String.ofList body) with
    | some n => n.isFinite
    | none => false

/-- Whether a text would be read back as something else than a text, were it written plain. -/
def looksOther (s : String) : Bool :=
  s.isEmpty
    || ["~", "null", "Null", "NULL", "true", "True", "TRUE", "false", "False", "FALSE",
        ".inf", ".Inf", ".INF", "+.inf", "+.Inf", "+.INF", "-.inf", "-.Inf", "-.INF",
        ".nan", ".NaN", ".NAN"].contains s
    || isZeroLed s || isPrefixed s.toList || isDecimal s

/-! ### What a text admits -/

/-- A character that is written as it is. -/
private def isPrintable (c : Char) : Bool :=
  c = '\n' || (' ' ≤ c && c ≤ '~') || ('\u00a0' ≤ c && c ≤ '\ud7ff')
    || ('\ue000' ≤ c && c ≤ '\ufffd' && c ≠ '\ufeff') || '\uffff' < c

/-- A line break, those beyond ASCII included. -/
private def breaksLine (c : Char) : Bool := ['\r', '\n', '\x85', '\u2028', '\u2029'].contains c

/-- A blank, a line break or the end of a text. -/
private def separates (c : Char) : Bool := c = ' ' || c = '\t' || c = '\x00' || breaksLine c

/-- The ways in which a text can be written, and whether it has several lines. -/
structure Admitted where
  multiline : Bool
  plain : Bool
  single : Bool
  block : Bool

/-- Whether a character may not begin a plain text, given the one behind it. -/
private def barsStart (c next : Char) : Bool :=
  ['#', ',', '[', ']', '\x7b', '\x7d', '&', '*', '!', '|', '>', '\'', '"', '%', '@', '`'].contains c
    || (['?', ':', '-'].contains c && separates next)

/-- Whether a character may not stand inside a plain text, given its neighbours. -/
private def barsInside (before c next : Char) : Bool :=
  (c = ':' && separates next) || (c = '#' && separates before)

/-- Whether a property holds of a character inside a list and its two neighbours. -/
private def anyInside (p : Char → Char → Char → Bool) : Char → List Char → Bool
  | _, [] => false
  | before, c :: rest => p before c (rest.headD '\x00') || anyInside p c rest

/-- Whether two neighbours satisfy a property. -/
private def anyPair (p : Char → Char → Bool) (cs : List Char) : Bool :=
  (cs.zip (cs.drop 1)).any fun (a, b) => p a b

/-- What a text admits. -/
def admits (cs : List Char) : Admitted :=
  match cs with
  | [] => ⟨false, true, true, false⟩
  | c :: rest =>
    let marker := [['-', '-', '-'], ['.', '.', '.']].contains (cs.take 3)
    let indicator := marker || barsStart c (rest.headD '\x00') || anyInside barsInside c rest
    let special := cs.any (!isPrintable ·)
    let lines := cs.any breaksLine
    let last := (c :: rest).getLast (by simp)
    let edge := c = ' ' || last = ' '
    let spaceAfterBreak := anyPair (fun a b => breaksLine a && b = ' ') cs
    let spaceBeforeBreak := anyPair (fun a b => a = ' ' && breaksLine b) cs
    let ruined := spaceBeforeBreak || special
    { multiline := lines
      plain := !(edge || spaceAfterBreak || ruined || lines || indicator)
      single := !(spaceAfterBreak || ruined)
      block := !(last = ' ' || ruined) }

/-! ### Writing -/

/-- The state of writing: the text so far, the column, whether the last character separates, and whether
the line holds only indentation and indicators. -/
structure Page where
  text : String
  column : Nat
  separated : Bool
  indenting : Bool

namespace Page

/-- An empty page. -/
def start : Page := ⟨"", 0, true, true⟩

/-- Writes a character. -/
private def put (p : Page) (c : Char) : Page :=
  { p with text := p.text.push c, column := p.column + 1 }

/-- Writes a line break, a line feed or one beyond ASCII. -/
private def endLine (p : Page) (c : Char) : Page := { p with text := p.text.push c, column := 0 }

/-- Moves to a column on a fresh line, unless the page stands there. -/
private def indentTo (p : Page) (indent : Nat) : Page :=
  let p :=
    if !p.indenting || indent < p.column || (p.column = indent && !p.separated) then p.endLine '\n'
    else p
  let missing := indent - p.column
  { text := p.text ++ String.ofList (List.replicate missing ' ')
    column := p.column + missing, separated := true, indenting := true }

/-- Writes an indicator, with a space in front where one is needed. -/
private def indicator (p : Page) (s : String) (needsSpace keepsIndent : Bool) : Page :=
  let p := if needsSpace && !p.separated then p.put ' ' else p
  { text := p.text ++ s, column := p.column + s.length, separated := false,
    indenting := p.indenting && keepsIndent }

/-- Ends a scalar. -/
private def endScalar (p : Page) : Page := { p with separated := false, indenting := false }

/-- Writes a plain scalar. -/
private def plain (p : Page) (s : String) : Page :=
  let p := if !p.separated && !s.isEmpty then p.put ' ' else p
  endScalar { p with text := p.text ++ s, column := p.column + s.length }

/-- Writes the characters of a single-quoted scalar; `broken` says that a line break came before. -/
private def singleRest (indent : Nat) : Page → Bool → List Char → Page
  | p, broken, [] => if broken then p.indentTo indent else p
  | p, broken, c :: rest =>
    if breaksLine c then
      let p := if !broken && c = '\n' then p.endLine '\n' else p
      singleRest indent { p.endLine c with indenting := true } true rest
    else if c = ' ' then singleRest indent (p.put c) broken rest
    else
      let p := if broken then p.indentTo indent else p
      let p := if c = '\'' then p.put '\'' else p
      singleRest indent { p.put c with indenting := false } false rest

/-- Writes a scalar in single quotes. -/
private def single (p : Page) (indent : Nat) (s : String) : Page :=
  let p := singleRest indent (p.indicator "'" true false) false s.toList
  endScalar (p.indicator "'" false false)

/-- The number of a character in capital hexadecimal digits. -/
private def hexDigits (width n : Nat) : List Char :=
  let digits := (Nat.toDigits 16 n).map Char.toUpper
  List.replicate (width - digits.length) '0' ++ digits

/-- A character within double quotes. -/
private def escaped (c : Char) : List Char :=
  if isPrintable c && !breaksLine c && c ≠ '"' && c ≠ '\\' then [c]
  else
    '\\' ::
      match c with
      | '\x00' => ['0']
      | '\x07' => ['a']
      | '\x08' => ['b']
      | '\t' => ['t']
      | '\n' => ['n']
      | '\x0b' => ['v']
      | '\x0c' => ['f']
      | '\r' => ['r']
      | '\x1b' => ['e']
      | '"' => ['"']
      | '\\' => ['\\']
      | '\x85' => ['N']
      | '\u2028' => ['L']
      | '\u2029' => ['P']
      | c =>
        if c.toNat ≤ 0xFF then 'x' :: hexDigits 2 c.toNat
        else if c.toNat ≤ 0xFFFF then 'u' :: hexDigits 4 c.toNat
        else 'U' :: hexDigits 8 c.toNat

/-- Writes a scalar in double quotes. -/
private def double (p : Page) (s : String) : Page :=
  let p := p.indicator "\"" true false
  let body := String.ofList (s.toList.flatMap escaped)
  let p := { p with text := p.text ++ body, column := p.column + body.length }
  endScalar (p.indicator "\"" false false)

/-- The hint that tells which line breaks end a block. -/
private def chompingHint (cs : List Char) : String :=
  match cs.reverse with
  | [] => "-"
  | last :: before =>
    if !breaksLine last then "-"
    else
      match before with
      | [] => "+"
      | c :: _ => if breaksLine c then "+" else ""

/-- Writes the lines of a block; `broken` says that a line begins. -/
private def blockRest (indent : Nat) : Page → Bool → List Char → Page
  | p, _, [] => p
  | p, broken, c :: rest =>
    if breaksLine c then blockRest indent { p.endLine c with indenting := true } true rest
    else
      let p := if broken then p.indentTo indent else p
      blockRest indent { p.put c with indenting := false } false rest

/-- Writes a literal block. One that begins with a blank states its indentation. -/
private def block (p : Page) (indent : Nat) (s : String) : Page :=
  let cs := s.toList
  let p := p.indicator "|" true false
  let p :=
    match cs with
    | c :: _ => if c = ' ' || breaksLine c then p.indicator "2" false false else p
    | [] => p
  let hint := chompingHint cs
  let p := if hint.isEmpty then p else p.indicator hint false false
  let p := { p.endLine '\n' with separated := true, indenting := true }
  blockRest indent p true cs

/-- Writes a text. -/
private def textScalar (p : Page) (indent : Nat) (s : String) : Page :=
  let a := admits s.toList
  if s.toList.contains '\n' && a.block then p.block indent s
  else if !s.toList.contains '\n' && !looksOther s && a.plain then p.plain s
  else if !s.toList.contains '\n' && a.single then p.single indent s
  else p.double s

/-- Whether a key is written on one line with its colon. -/
private def isSimpleKey (s : String) : Bool := !s.toList.any breaksLine && s.utf8ByteSize ≤ 128

/-- The indentation of what a node at an indentation holds; there is none at the root. -/
private def deeper (indent : Option Nat) : Nat :=
  match indent with
  | some n => n + 2
  | none => 0

/-- The indentation of a scalar's further lines. -/
private def scalarIndent (indent : Option Nat) : Nat :=
  match indent with
  | some n => n + 2
  | none => 2

mutual

/-- Writes a node in a collection of an indentation; `inMapping` says that it is a key or a value. -/
private def node (p : Page) (indent : Option Nat) (inMapping : Bool) : Tree → Page
  | .plain text => p.plain text
  | .text s => p.textScalar (scalarIndent indent) s
  | .sequence [] => (p.indicator "[" true false).indicator "]" false false
  | .sequence items =>
    let inner := if inMapping && !p.indenting then indent.getD 0 else deeper indent
    p.items inner items
  | .mapping [] => (p.indicator "\x7b" true false).indicator "\x7d" false false
  | .mapping entries => p.entries (deeper indent) entries

/-- Writes the items of a sequence, each behind a hyphen. -/
private def items (p : Page) (indent : Nat) : List Tree → Page
  | [] => p
  | t :: rest =>
    ((((p.indentTo indent).indicator "-" true true).node (some indent) false t).items indent rest)

/-- Writes the entries of a mapping. A long key, or one of several lines, stands behind a question mark. -/
private def entries (p : Page) (indent : Nat) : List (String × Tree) → Page
  | [] => p
  | (key, t) :: rest =>
    let p := p.indentTo indent
    let p :=
      if isSimpleKey key then (p.textScalar (indent + 2) key).indicator ":" false false
      else
        let p := (p.indicator "?" true true).textScalar (indent + 2) key
        (p.indentTo indent).indicator ":" true true
    (p.node (some indent) true t).entries indent rest

end

end Page

/-- The text of a document. -/
def Tree.render (t : Tree) : String := ((Page.start.node none false t).indentTo 0).text

end PipelineExpansion.Yaml
