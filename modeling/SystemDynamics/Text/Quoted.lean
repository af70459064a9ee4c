import SystemDynamics.Text.Word
import SystemDynamics.Text.Hidden.Ranges

namespace SystemDynamics.Text

def isHidden (c : Char) : Bool :=
  if c.toNat < 0x80 then c.toNat < 0x20 || c.toNat == 0x7F else inRanges Hidden.ranges c

def codePoint (c : Char) : List Char :=
  ['\\', 'u', '\x7b'] ++ Nat.toDigits 16 c.toNat ++ ['\x7d']

def escape (c : Char) : List Char :=
  match c with
  | '"' => ['\\', '"']
  | '\\' => ['\\', '\\']
  | '\n' => ['\\', 'n']
  | '\r' => ['\\', 'r']
  | '\t' => ['\\', 't']
  | '\x00' => ['\\', '0']
  | _ => if isHidden c then codePoint c else [c]

def inQuotes (escape : Char → List Char) (text : String) : String :=
  String.ofList ('"' :: text.toList.flatMap escape ++ ['"'])

/-- A text between quotes, with what a reader could not see written as an escape. -/
def quoted (text : String) : String :=
  inQuotes escape text

def quotedPath (path : String) : String :=
  inQuotes (fun c ↦ if c = '\x27' then ['\\', c] else escape c) path

end SystemDynamics.Text
