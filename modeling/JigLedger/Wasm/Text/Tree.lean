import JigLedger.Text.Hex
import JigLedger.Wasm.Module

/-!
# Trees of the text format

The text of a module is a tree: words, strings, and lists in parentheses. Blanks and comments stand
between them. The scanner is a machine that is fed one character after the other.
-/

namespace JigLedger.Wasm.Text

/-- A tree of the text format. -/
inductive Tree where
  | word (w : String)
  | text (bytes : Bytes)
  | list (items : List Tree)
deriving Repr

/-- What the text consists of. -/
inductive Token where
  | opening
  | closing
  | word (w : String)
  | text (bytes : Bytes)
deriving DecidableEq, Repr

/-- How much of an escape in a string has been read. -/
inductive Escape where
  | none
  | begun
  /-- One of two digits. -/
  | digit (high : Nat)
  /-- The digits of a code point are about to begin. -/
  | codeStart
  | code (value : Nat)

/-- Where the scanner stands. -/
inductive Mode where
  /-- Between tokens; `fresh` when a token may begin right here. -/
  | between (fresh : Bool)
  /-- In a word whose characters so far run backwards. -/
  | word (read : List Char)
  /-- In a string whose bytes so far run backwards. -/
  | string (read : Bytes) (escape : Escape)
  /-- After an opening parenthesis that may begin a comment. -/
  | paren
  /-- After a semicolon that begins a comment. -/
  | semicolon
  | lineComment
  /-- In a comment inside so many others, after a character. -/
  | comment (depth : Nat) (last : Char)

/-- A scanner and the tokens so far, which run backwards. -/
structure Scanner where
  tokens : List Token
  mode : Mode

/-- Characters that can be part of a word. -/
def isWordChar (c : Char) : Bool :=
  '!' ≤ c && c ≤ '~' && !"\"(),;[]\x7b\x7d".toList.contains c

/-- The value of a hexadecimal digit. -/
def hexValue? (c : Char) : Option Nat :=
  if c.toNat < 128 then Hex.digitValue? (UInt8.ofNat c.toNat) else none

/-- The character that an escape stands for. -/
def escaped? : Char → Option Char
  | 't' => some '\t'
  | 'n' => some '\n'
  | 'r' => some '\r'
  | '"' => some '"'
  | '\'' => some '\''
  | '\\' => some '\\'
  | _ => none

/-- The bytes of a character, put in front of bytes that run backwards. -/
def pushChar (read : Bytes) (c : Char) : Bytes := (utf8 c.toString).reverse ++ read

namespace Scanner

/-- Gives up. -/
def fail {α : Type} (reason : String) : Except ModuleFault α := .error (.malformed reason)

/-- The scanner inside a string after one more character. -/
def inString (s : Scanner) (read : Bytes) (escape : Escape) (c : Char) :
    Except ModuleFault Scanner :=
  let continuing (read : Bytes) (escape : Escape) : Except ModuleFault Scanner :=
    .ok { s with mode := .string read escape }
  match escape with
  | .none =>
    if c = '"' then .ok ⟨.text read.reverse :: s.tokens, .between false⟩
    else if c = '\\' then continuing read .begun
    else if c.toNat < 32 ∨ c.toNat = 127 then fail "control character in string"
    else continuing (pushChar read c) .none
  | .begun =>
    match escaped? c with
    | some e => continuing (pushChar read e) .none
    | none =>
      if c = 'u' then continuing read .codeStart
      else
        match hexValue? c with
        | some high => continuing read (.digit high)
        | none => fail "invalid string escape"
  | .digit high =>
    match hexValue? c with
    | some low => continuing (UInt8.ofNat (16 * high + low) :: read) .none
    | none => fail "invalid hex digit"
  | .codeStart => if c = '\x7b' then continuing read (.code 0) else fail "invalid string escape"
  | .code value =>
    if c = '\x7d' then
      if h : value.isValidChar then continuing (pushChar read (Char.ofNatAux value h)) .none
      else fail "invalid code point"
    else
      match hexValue? c with
      | some digit =>
        if value < 0x110000 then continuing read (.code (16 * value + digit))
        else fail "invalid code point"
      | none => fail "invalid hex digit"

/-- The scanner between tokens after one more character. -/
def inBetween (s : Scanner) (fresh : Bool) (c : Char) : Except ModuleFault Scanner :=
  if c = ' ' ∨ c = '\n' ∨ c = '\t' ∨ c = '\r' then .ok { s with mode := .between true }
  else if c = '(' then .ok { s with mode := .paren }
  else if c = ')' then .ok ⟨.closing :: s.tokens, .between true⟩
  else if c = ';' then .ok { s with mode := .semicolon }
  else if !fresh then fail "missing blank between tokens"
  else if c = '"' then .ok { s with mode := .string [] .none }
  else if isWordChar c then .ok { s with mode := .word [c] }
  else fail "unexpected character"

/-- The tokens with a word that is complete. -/
def endWord (s : Scanner) (read : List Char) : Scanner :=
  ⟨.word (String.ofList read.reverse) :: s.tokens, .between false⟩

/-- The scanner after one more character. -/
def feed (s : Scanner) (c : Char) : Except ModuleFault Scanner :=
  match s.mode with
  | .between fresh => s.inBetween fresh c
  | .word read =>
    if isWordChar c then .ok { s with mode := .word (c :: read) }
    else (s.endWord read).inBetween false c
  | .string read escape => s.inString read escape c
  | .paren =>
    if c = ';' then .ok { s with mode := .comment 0 ' ' }
    else inBetween ⟨.opening :: s.tokens, .between true⟩ true c
  | .semicolon =>
    if c = ';' then .ok { s with mode := .lineComment } else fail "unexpected character"
  | .lineComment => .ok (if c = '\n' then { s with mode := .between true } else s)
  | .comment depth last =>
    if last = '(' ∧ c = ';' then .ok { s with mode := .comment (depth + 1) ' ' }
    else if last = ';' ∧ c = ')' then
      .ok { s with mode := if depth = 0 then .between true else .comment (depth - 1) ' ' }
    else .ok { s with mode := .comment depth c }

/-- The tokens at the end of the text. -/
def finish (s : Scanner) : Except ModuleFault (List Token) :=
  match s.mode with
  | .between _ | .lineComment => .ok s.tokens.reverse
  | .word read => .ok (s.endWord read).tokens.reverse
  | .paren => .ok (.opening :: s.tokens).reverse
  | _ => fail "unexpected end of text"

end Scanner

/-- The tokens of a text. -/
def tokens (cs : List Char) : Except ModuleFault (List Token) := do
  (← cs.foldlM Scanner.feed ⟨[], .between true⟩).finish

/-- Puts trees together. `outer` are the lists that are open, the innermost first, and `read` the
trees of the innermost one; both run backwards. -/
def treesFrom (outer : List (List Tree)) (read : List Tree) :
    List Token → Except ModuleFault (List Tree)
  | [] => if outer.isEmpty then .ok read.reverse else .error (.malformed "expected )")
  | .word w :: rest => treesFrom outer (.word w :: read) rest
  | .text bs :: rest => treesFrom outer (.text bs :: read) rest
  | .opening :: rest => treesFrom (read :: outer) [] rest
  | .closing :: rest =>
    match outer with
    | earlier :: outer => treesFrom outer (.list read.reverse :: earlier) rest
    | [] => .error (.malformed "unexpected )")

/-- The trees of a text, and the number of its tokens. -/
def trees (cs : List Char) : Except ModuleFault (List Tree × Nat) := do
  let ts ← tokens cs
  return (← treesFrom [] [] ts, ts.length)

end JigLedger.Wasm.Text
