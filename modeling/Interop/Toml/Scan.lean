import Interop.Number.Parser

/-!
# Characters, keys and strings of TOML

Scanners take the characters that are left and give what they found with the characters after it,
or nothing if what stands there is not allowed.

* `basicString`, `literalString`: strings on one line, after their opening quote.
* `longBasicString`, `longLiteralString`: strings between tripled quotes, after the opening ones.
* `keyPath`: a key, which dots divide into parts.
-/

namespace Interop.Toml

/-! ## Characters -/

def isSpace (c : Char) : Bool := c = ' ' || c = '\t'

/-- Whether a comment or literal text may hold the character: no control character but the tab. -/
def isPrintable (c : Char) : Bool := c = '\t' || ' ' ≤ c && c ≤ '~' || '\u0080' ≤ c

def isBareKeyChar (c : Char) : Bool :=
  'a' ≤ c && c ≤ 'z' || 'A' ≤ c && c ≤ 'Z' || isDigit c || c = '-' || c = '_'

def skipSpaces (cs : List Char) : List Char := cs.dropWhile isSpace

/-- Takes a line feed, alone or after a carriage return. -/
def newline? : List Char → Option (List Char)
  | '\n' :: cs => some cs
  | '\r' :: '\n' :: cs => some cs
  | _ => none

/-- Takes the rest of a line: spaces, a comment, and the newline unless the text ends. -/
def lineEnd? (cs : List Char) : Option (List Char) :=
  let cs := match skipSpaces cs with
    | '#' :: cs => cs.dropWhile isPrintable
    | cs => cs
  if cs.isEmpty then some [] else newline? cs

/-- Skips spaces, newlines and comments; `comment` says whether a comment is being read. -/
def skipVoid (comment : Bool) : List Char → Option (List Char)
  | '\n' :: cs => skipVoid false cs
  | '\r' :: '\n' :: cs => skipVoid false cs
  | c :: cs =>
    if comment then (if isPrintable c then skipVoid true cs else none)
    else if isSpace c then skipVoid false cs
    else if c = '#' then skipVoid true cs
    else some (c :: cs)
  | [] => some []

/-! ## Strings -/

/-- The character of a run of hexadecimal digits, if it is one. -/
def escaped? (digits : List Char) : Option Char :=
  let n := hexDigitsValue digits
  if digits.all isHexDigit && n.isValidChar then some (Char.ofNat n) else none

/-- Reads up to the closing quote. The characters so far are in `found`, the last one first. -/
def basicString (found : List Char) : List Char → Option (String × List Char)
  | '"' :: cs => some (String.ofList found.reverse, cs)
  | '\\' :: 'b' :: cs => basicString ('\x08' :: found) cs
  | '\\' :: 't' :: cs => basicString ('\t' :: found) cs
  | '\\' :: 'n' :: cs => basicString ('\n' :: found) cs
  | '\\' :: 'f' :: cs => basicString ('\x0c' :: found) cs
  | '\\' :: 'r' :: cs => basicString ('\r' :: found) cs
  | '\\' :: '"' :: cs => basicString ('"' :: found) cs
  | '\\' :: '\\' :: cs => basicString ('\\' :: found) cs
  | '\\' :: 'u' :: a :: b :: c :: d :: cs =>
    match escaped? [a, b, c, d] with
    | some x => basicString (x :: found) cs
    | none => none
  | '\\' :: 'U' :: a :: b :: c :: d :: e :: f :: g :: h :: cs =>
    match escaped? [a, b, c, d, e, f, g, h] with
    | some x => basicString (x :: found) cs
    | none => none
  | '\\' :: _ => none
  | c :: cs => if isPrintable c then basicString (c :: found) cs else none
  | [] => none

def literalString (found : List Char) : List Char → Option (String × List Char)
  | '\'' :: cs => some (String.ofList found.reverse, cs)
  | c :: cs => if isPrintable c then literalString (c :: found) cs else none
  | [] => none

/-- Takes the newline that may follow the opening quotes of a long string. -/
def skipNewline (cs : List Char) : List Char := (newline? cs).getD cs

/-- What a backslash at the end of a line asks for: after it, the newline has to come; after the
newline, spaces and newlines are skipped. -/
inductive Folding where
  | off
  | newlineDue
  | skipping
  deriving DecidableEq

/-- Reads up to the closing quotes. One or two quotes before them belong to the text. -/
def longBasicString (folding : Folding) (found : List Char) :
    List Char → Option (String × List Char)
  | [] => none
  | '\n' :: cs =>
    if folding = .off then longBasicString .off ('\n' :: found) cs
    else longBasicString .skipping found cs
  | '\r' :: '\n' :: cs =>
    if folding = .off then longBasicString .off ('\n' :: found) cs
    else longBasicString .skipping found cs
  | c :: cs =>
    if folding ≠ .off && isSpace c then longBasicString folding found cs
    else if folding = .newlineDue then none
    else
      match c, cs with
      | '"', '"' :: '"' :: '"' :: '"' :: cs =>
        some (String.ofList ('"' :: '"' :: found).reverse, cs)
      | '"', '"' :: '"' :: '"' :: cs => some (String.ofList ('"' :: found).reverse, cs)
      | '"', '"' :: '"' :: cs => some (String.ofList found.reverse, cs)
      | '\\', 'b' :: cs => longBasicString .off ('\x08' :: found) cs
      | '\\', 't' :: cs => longBasicString .off ('\t' :: found) cs
      | '\\', 'n' :: cs => longBasicString .off ('\n' :: found) cs
      | '\\', 'f' :: cs => longBasicString .off ('\x0c' :: found) cs
      | '\\', 'r' :: cs => longBasicString .off ('\r' :: found) cs
      | '\\', '"' :: cs => longBasicString .off ('"' :: found) cs
      | '\\', '\\' :: cs => longBasicString .off ('\\' :: found) cs
      | '\\', 'u' :: a :: b :: c :: d :: cs =>
        match escaped? [a, b, c, d] with
        | some x => longBasicString .off (x :: found) cs
        | none => none
      | '\\', 'U' :: a :: b :: c :: d :: e :: f :: g :: h :: cs =>
        match escaped? [a, b, c, d, e, f, g, h] with
        | some x => longBasicString .off (x :: found) cs
        | none => none
      | '\\', cs => longBasicString .newlineDue found cs
      | c, cs => if isPrintable c then longBasicString .off (c :: found) cs else none

def longLiteralString (found : List Char) : List Char → Option (String × List Char)
  | '\'' :: '\'' :: '\'' :: '\'' :: '\'' :: cs =>
    some (String.ofList ('\'' :: '\'' :: found).reverse, cs)
  | '\'' :: '\'' :: '\'' :: '\'' :: cs => some (String.ofList ('\'' :: found).reverse, cs)
  | '\'' :: '\'' :: '\'' :: cs => some (String.ofList found.reverse, cs)
  | '\n' :: cs => longLiteralString ('\n' :: found) cs
  | '\r' :: '\n' :: cs => longLiteralString ('\n' :: found) cs
  | c :: cs => if isPrintable c then longLiteralString (c :: found) cs else none
  | [] => none

/-- Reads a string that may be long. -/
def string? : List Char → Option (String × List Char)
  | '"' :: '"' :: '"' :: cs => longBasicString .off [] (skipNewline cs)
  | '"' :: cs => basicString [] cs
  | '\'' :: '\'' :: '\'' :: cs => longLiteralString [] (skipNewline cs)
  | '\'' :: cs => literalString [] cs
  | _ => none

/-! ## Keys -/

/-- Reads one part of a key: a string on one line, or characters that need no quotes. -/
def simpleKey? : List Char → Option (String × List Char)
  | '"' :: cs => basicString [] cs
  | '\'' :: cs => literalString [] cs
  | cs =>
    let (key, rest) := cs.span isBareKeyChar
    if key.isEmpty then none else some (String.ofList key, rest)

/-- The number from which nested values and the parts of a key are too many. -/
def nestingLimit : Nat := 80

/-- Reads at most `count` parts with dots between them: all but the last one, and the last one. -/
def keyParts : Nat → List Char → Option (List String × String × List Char)
  | 0, _ => none
  | count + 1, cs =>
    (simpleKey? (skipSpaces cs)).bind fun (part, cs) =>
      match skipSpaces cs with
      | '.' :: cs => (keyParts count cs).map fun (path, key, cs) => (part :: path, key, cs)
      | cs => some ([], part, cs)

/-- Reads a key with the spaces around it: the path before its last part, and that part. -/
def keyPath (cs : List Char) : Option (List String × String × List Char) :=
  keyParts (nestingLimit - 1) cs

end Interop.Toml
