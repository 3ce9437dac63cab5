import Recycler.Text.Hidden

/-!
# Quoted text

A text inside a printed value stands between double quotes. The quote and the backslash are
escaped by a backslash, the four common controls have a letter, and every other character that
would not show is written as its code point in lower-case hexadecimal between braces.

The apostrophe is left alone, since it never closes the quotes.
-/

namespace Recycler.Text

/-- The hexadecimal digits of `n`, lower case and without leading zeros. -/
def hex (n : Nat) : List Char := Nat.toDigits 16 n

/-- A character written by its code point. -/
def codePoint (c : Char) : List Char :=
  ['\\', 'u', '\x7b'] ++ hex c.toNat ++ ['\x7d']

/-- A character that cannot stand for itself between quotes: a control of the ASCII range or a
hidden character beyond it. -/
def needsCodePoint (c : Char) : Bool :=
  c.toNat < 32 || (127 ≤ c.toNat && isHidden c)

/-- One character as it stands between the quotes. -/
def escape (c : Char) : List Char :=
  if c = '"' then ['\\', '"']
  else if c = '\\' then ['\\', '\\']
  else if c = '\n' then ['\\', 'n']
  else if c = '\r' then ['\\', 'r']
  else if c = '\t' then ['\\', 't']
  else if c = '\x00' then ['\\', '0']
  else if needsCodePoint c then codePoint c
  else [c]

/-- The body of a quoted text: each character escaped on its own. -/
def escapeAll : List Char → List Char
  | [] => []
  | c :: cs => escape c ++ escapeAll cs

@[simp] theorem escapeAll_nil : escapeAll [] = [] := rfl

theorem escapeAll_cons (c : Char) (cs : List Char) :
    escapeAll (c :: cs) = escape c ++ escapeAll cs := rfl

/-- Escaping works character by character. -/
theorem escapeAll_append (cs ds : List Char) :
    escapeAll (cs ++ ds) = escapeAll cs ++ escapeAll ds := by
  induction cs with
  | nil => rfl
  | cons c cs ih => rw [List.cons_append, escapeAll_cons, escapeAll_cons, ih, List.append_assoc]

/-- A text between double quotes, escaped. -/
def quote (s : String) : String :=
  String.ofList ('"' :: escapeAll s.toList ++ ['"'])

end Recycler.Text
