import Novella.Text.Invisible

/-!
# Text in messages

A message shows a text between double quotes with every character visible: quotes,
backslashes and the common controls get a backslash, and any other invisible character is
given by its code point.
-/

namespace Novella.Text

def hexDigits (n : Nat) : List Char := Nat.toDigits 16 n

def showChar (c : Char) : List Char :=
  match c with
  | '"' => ['\\', '"']
  | '\\' => ['\\', '\\']
  | '\n' => ['\\', 'n']
  | '\r' => ['\\', 'r']
  | '\t' => ['\\', 't']
  | '\x00' => ['\\', '0']
  | _ => if isInvisible c then ['\\', 'u', '{'] ++ hexDigits c.toNat ++ ['}'] else [c]

def shown (text : String) : String :=
  String.ofList ('"' :: (text.toList.flatMap showChar ++ ['"']))

def shown? : Option String → String
  | none => "None"
  | some text => "Some(" ++ shown text ++ ")"

end Novella.Text
