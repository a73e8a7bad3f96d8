import EventScript.Source
import EventScript.Number.Notation
import EventScript.Text.Quoted

/-! # Tokens

A token has a kind, a decoded value, the text it was written as, and its span.  Three kinds carry
layout: `newline` ends a statement, `indent` and `dedent` open and close an indented block; all
three are written by no character of their own.
-/

namespace EventScript

/-- The kinds of token. -/
inductive TokenKind
  | number | string | boolean | null | identifier
  | letWord | setWord | fnWord
  | ifWord | elifWord | elseWord | forWord | whileWord | matchWord
  | returnWord | breakWord | continueWord
  | onWord | emitWord
  | importWord | fromWord
  | schemaWord | extendsWord
  | inWord | whenWord | andWord | orWord | notWord | thenWord
  | leftParen | rightParen | leftBracket | rightBracket | leftBrace | rightBrace
  | colon | comma | dot | arrow | assign
  | plus | minus | star | slash | percent
  | less | greater | lessEqual | greaterEqual | equal | notEqual
  | atSign | hashSign | dollarSign
  | indent | dedent | newline
  | endOfFile
  deriving Repr, DecidableEq, Inhabited

namespace TokenKind

/-- The name of a kind in diagnostics. -/
def name : TokenKind → String
  | number => "NUMBER" | string => "STRING" | boolean => "BOOLEAN" | null => "NULL"
  | identifier => "IDENTIFIER"
  | letWord => "LET" | setWord => "SET" | fnWord => "FN"
  | ifWord => "IF" | elifWord => "ELIF" | elseWord => "ELSE" | forWord => "FOR"
  | whileWord => "WHILE" | matchWord => "MATCH" | returnWord => "RETURN"
  | breakWord => "BREAK" | continueWord => "CONTINUE"
  | onWord => "ON" | emitWord => "EMIT"
  | importWord => "IMPORT" | fromWord => "FROM"
  | schemaWord => "SCHEMA" | extendsWord => "EXTENDS"
  | inWord => "IN" | whenWord => "WHEN" | andWord => "AND" | orWord => "OR" | notWord => "NOT"
  | thenWord => "THEN"
  | leftParen => "LPAREN" | rightParen => "RPAREN" | leftBracket => "LBRACKET"
  | rightBracket => "RBRACKET" | leftBrace => "LBRACE" | rightBrace => "RBRACE"
  | colon => "COLON" | comma => "COMMA" | dot => "DOT" | arrow => "ARROW" | assign => "ASSIGN"
  | plus => "PLUS" | minus => "MINUS" | star => "STAR" | slash => "SLASH" | percent => "PERCENT"
  | less => "LT" | greater => "GT" | lessEqual => "LE" | greaterEqual => "GE"
  | equal => "EQ" | notEqual => "NE"
  | atSign => "AT" | hashSign => "HASH" | dollarSign => "DOLLAR"
  | indent => "INDENT" | dedent => "DEDENT" | newline => "NEWLINE"
  | endOfFile => "EOF"

/-- The reserved words. -/
def keywords : List (String × TokenKind) :=
  [("let", letWord), ("set", setWord), ("fn", fnWord),
   ("if", ifWord), ("elif", elifWord), ("else", elseWord), ("for", forWord),
   ("while", whileWord), ("match", matchWord), ("return", returnWord), ("break", breakWord),
   ("continue", continueWord), ("on", onWord), ("emit", emitWord), ("import", importWord),
   ("from", fromWord), ("schema", schemaWord), ("extends", extendsWord), ("in", inWord),
   ("when", whenWord), ("and", andWord), ("or", orWord), ("not", notWord), ("then", thenWord),
   ("true", boolean), ("false", boolean), ("null", null)]

/-- The kind of a word: a reserved word, or else an identifier. -/
def ofWord (word : String) : TokenKind := (keywords.lookup word).getD identifier

/-- The kinds of the reserved words. -/
def isKeyword (k : TokenKind) : Bool := keywords.any (·.2 == k)

/-- The kinds after which a minus is a subtraction and not a sign. -/
def endsOperand : TokenKind → Bool
  | number | string | boolean | null | identifier | rightParen | rightBracket | rightBrace => true
  | _ => false

/-- The kinds that carry layout only. -/
def isLayout : TokenKind → Bool
  | indent | dedent | newline => true
  | _ => false

end TokenKind

/-- The value of a literal. -/
inductive Literal
  | null
  | bool (b : Bool)
  | number (n : Number)
  | text (s : String)

namespace Literal

/-- A literal as the outline of a program shows it. -/
def outline : Literal → String
  | null => "None"
  | bool b => if b then "True" else "False"
  | number n => n.literal
  | text s => Text.quoted s

end Literal

/-- A token with its decoded value, its text and its span. -/
structure Token where
  kind : TokenKind
  value : Literal
  lexeme : String
  span : Span

namespace Token

/-- The kind of a token, with its value where the kind alone does not tell it. -/
def text (t : Token) : String :=
  match t.kind with
  | .number | .string | .identifier => s!"{t.kind.name}({t.value.outline})"
  | kind => kind.name

/-- The text of an identifier or string token; the lexeme of any other. -/
def word (t : Token) : String :=
  match t.value with
  | .text s => s
  | _ => t.lexeme

end Token

end EventScript
