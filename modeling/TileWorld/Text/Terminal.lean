/-!
# Control sequences of a terminal

A text for a terminal holds sequences that the terminal obeys instead of
showing them. A sequence starts with an escape character, and the
characters after it decide its kind and thereby where it ends. Text that
goes elsewhere is written without them, and without control characters
other than blanks.

`plain` answers what is left of a text. A blank inside a sequence is shown,
and so is everything that follows the blank without a gap; the sequence goes on
at the next character that is not shown. `styled` sets off a part of a text
by control sequences, which `plain` takes away again.
-/

namespace TileWorld.Text

/-- What part of which sequence the next character belongs to. -/
inductive ControlState where
  /-- No sequence: the character is text. -/
  | text
  /-- The character after the escape, which decides the kind. -/
  | escape
  /-- A short sequence that goes on until its final character. -/
  | intermediate
  /-- A control sequence, which sets a colour, for instance. -/
  | control
  /-- A device control string, before any of its parameters. -/
  | device
  | deviceParameters
  | deviceIntermediate
  /-- A string that goes on until it is terminated. -/
  | body
  /-- A command to the operating system, which a bell ends as well. -/
  | command
  deriving DecidableEq, Repr

/-- The code of the character lies between two bounds. -/
def codeIn (lowest largest : Nat) (c : Char) : Bool :=
  lowest ≤ c.toNat && c.toNat ≤ largest

def isAscii (c : Char) : Bool :=
  c.toNat < 0x80

/-- A byte of the character's encoding, the first excepted, is that of the
string terminator. Such a byte holds six bits of the code. -/
def hasTerminator (c : Char) : Bool :=
  let n := c.toNat
  !isAscii c && (n % 64 == 28 || (0x800 ≤ n && n / 64 % 64 == 28) ||
    (0x10000 ≤ n && n / 4096 % 64 == 28))

namespace ControlState

/-- The kind of sequence that a character after the escape starts. -/
def afterEscape (c : Char) : ControlState :=
  if codeIn 0x20 0x2F c then .intermediate
  else if !codeIn 0x30 0x7E c then .escape
  else
    match c with
    | '[' => .control
    | ']' => .command
    | 'P' => .device
    | 'X' | '^' | '_' => .body
    | _ => .text

/-- The part of a device control string that a character starts, if it
starts one. -/
def devicePart? (c : Char) : Option ControlState :=
  if codeIn 0x40 0x7E c then some .body
  else if codeIn 0x20 0x2F c then some .deviceIntermediate
  else none

/-- The state after a character. An escape starts a sequence and two other
characters cancel one, whatever the state. -/
def next (s : ControlState) (c : Char) : ControlState :=
  match c with
  | '\x18' | '\x1A' => .text
  | '\x1B' => .escape
  | _ =>
    match s with
    | .text => .text
    | .escape => afterEscape c
    | .intermediate => if codeIn 0x30 0x7E c then .text else s
    | .control => if codeIn 0x40 0x7E c then .text else s
    | .device => (devicePart? c).getD (if codeIn 0x30 0x3F c then .deviceParameters else s)
    | .deviceParameters => (devicePart? c).getD (if codeIn 0x3C 0x3F c then .body else s)
    | .deviceIntermediate => if codeIn 0x30 0x7E c then .body else s
    | .body => if hasTerminator c then .text else s
    | .command => if c = '\x07' then .text else s

/-- The character is a blank of ASCII other than the space. -/
def isBlankControl (c : Char) : Bool :=
  c == '\t' || c == '\n' || c == '\x0C' || c == '\r'

/-- A character in this state is shown. -/
def shows (s : ControlState) (c : Char) : Bool :=
  match s with
  | .text => isBlankControl c || (0x20 ≤ c.toNat && c != '\x7F')
  | .escape | .intermediate | .control => isBlankControl c
  | _ => false

end ControlState

/-- What is shown of a text that starts in a state. After a character that
was shown, the next is taken as text even if a sequence is still open, and
a character beyond ASCII that is shown there ends the sequence. -/
def plainAfter (s : ControlState) (afterShown : Bool) : List Char → List Char
  | [] => []
  | c :: rest =>
    if (if afterShown then ControlState.text else s).shows c then
      c :: plainAfter (if isAscii c then s else .text) true rest
    else plainAfter (s.next c) false rest

/-- The text without control sequences and without control characters
other than blanks. -/
def plain (text : String) : String :=
  String.ofList (plainAfter .text false text.toList)

/-- A way to set off a part of a text. -/
inductive Style where
  | bold
  | red
  | yellow
  deriving DecidableEq, Repr

/-- Number of the style in a control sequence. -/
def Style.code : Style → Nat
  | bold => 1
  | red => 31
  | yellow => 33

/-- The control sequence that sets the style of a number. -/
def styleMark (code : Nat) : String :=
  s!"\x1B[{code}m"

/-- The text in some styles, with a return to the plain style after it. -/
def styled (styles : List Style) (text : String) : String :=
  String.join (styles.map fun style => styleMark style.code) ++ text ++ styleMark 0

end TileWorld.Text
