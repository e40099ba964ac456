import Offside.Location
import Offside.Token.Error
import Offside.Token.Number

/-!
# Tokens

The words and signs of the language, the kinds of token, and how each is named: by its spelling in
a text, by a short name in a token listing, and in words inside an error message.

## Main definitions

* `Offside.Keyword`, `Offside.Symbol`: the reserved words and the operators and punctuation.
* `Offside.Kind`: the kinds of token.
* `Offside.Token`: a kind at the place of its first character.
* `Offside.Kind.spelling?`, `Offside.Kind.name`, `Offside.Kind.inWords`: the names of a kind.

## Main results

* `Offside.Keyword.ofSpelling?_spelling`: a reserved word is found by its spelling.
* `Offside.Symbol.spelling_injective`: different signs are spelled differently.
-/

namespace Offside

/-- Reserved words. -/
inductive Keyword
  | defWord | externWord | returnWord | ifWord | elifWord | elseWord | forWord | inWord
  | rangeWord | whileWord | doWord | breakWord | continueWord | printWord | typeWord
  | structWord | matchWord | caseWord | notWord | andWord | orWord
  deriving DecidableEq, Repr

namespace Keyword

/-- Every reserved word. -/
def all : List Keyword :=
  [defWord, externWord, returnWord, ifWord, elifWord, elseWord, forWord, inWord, rangeWord,
    whileWord, doWord, breakWord, continueWord, printWord, typeWord, structWord, matchWord,
    caseWord, notWord, andWord, orWord]

/-- The spelling of a reserved word. -/
def spelling : Keyword → String
  | defWord => "def"
  | externWord => "extern"
  | returnWord => "return"
  | ifWord => "if"
  | elifWord => "elif"
  | elseWord => "else"
  | forWord => "for"
  | inWord => "in"
  | rangeWord => "range"
  | whileWord => "while"
  | doWord => "do"
  | breakWord => "break"
  | continueWord => "continue"
  | printWord => "print"
  | typeWord => "type"
  | structWord => "struct"
  | matchWord => "match"
  | caseWord => "case"
  | notWord => "not"
  | andWord => "and"
  | orWord => "or"

/-- The reserved word with a given spelling. -/
def ofSpelling? (word : String) : Option Keyword := all.find? fun keyword => keyword.spelling == word

theorem ofSpelling?_spelling (keyword : Keyword) :
    ofSpelling? keyword.spelling = some keyword := by cases keyword <;> decide

theorem spelling_of_ofSpelling? {word : String} {keyword : Keyword}
    (h : ofSpelling? word = some keyword) : keyword.spelling = word := by
  simpa using List.find?_some h

end Keyword

/-- Operators and punctuation. -/
inductive Symbol
  | plus | minus | star | slash | percent
  | equal | notEqual | less | lessEqual | greater | greaterEqual
  | assign | bang | ampersand | bar | caret | tilde | arrow
  | openParen | closeParen | openBracket | closeBracket | comma | colon | dot
  deriving DecidableEq, Repr

namespace Symbol

/-- Every operator and punctuation sign. -/
def all : List Symbol :=
  [plus, minus, star, slash, percent, equal, notEqual, less, lessEqual, greater, greaterEqual,
    assign, bang, ampersand, bar, caret, tilde, arrow, openParen, closeParen, openBracket,
    closeBracket, comma, colon, dot]

/-- The spelling of a sign. -/
def spelling : Symbol → String
  | plus => "+"
  | minus => "-"
  | star => "*"
  | slash => "/"
  | percent => "%"
  | equal => "=="
  | notEqual => "!="
  | less => "<"
  | lessEqual => "<="
  | greater => ">"
  | greaterEqual => ">="
  | assign => "="
  | bang => "!"
  | ampersand => "&"
  | bar => "|"
  | caret => "^"
  | tilde => "~"
  | arrow => "->"
  | openParen => "("
  | closeParen => ")"
  | openBracket => "["
  | closeBracket => "]"
  | comma => ","
  | colon => ":"
  | dot => "."

/-- The sign written with one character. -/
def ofChar? (c : Char) : Option Symbol := all.find? fun symbol => symbol.spelling.toList == [c]

/-- The sign written with two characters. -/
def ofPair? (c d : Char) : Option Symbol := all.find? fun symbol => symbol.spelling.toList == [c, d]

theorem spelling_injective {a b : Symbol} (h : a.spelling = b.spelling) : a = b := by
  revert h
  cases a <;> cases b <;> decide

end Symbol

/-- The kinds of token. -/
inductive Kind
  | endOfInput
  | endOfLine
  /-- A line that opens a block. -/
  | indent
  /-- A block that closes. -/
  | dedent
  /-- Characters or a margin that were refused. -/
  | invalid (cause : LexicalError)
  | identifier (name : String)
  /-- A literal with its spelling and its value. -/
  | number (text : String) (value : Number)
  | keyword (word : Keyword)
  | symbol (sign : Symbol)
  deriving DecidableEq, Repr

namespace Kind

/-- The kind of an identifier-like word: reserved words are not identifiers. -/
def ofWord (word : String) : Kind :=
  match Keyword.ofSpelling? word with
  | some reserved => .keyword reserved
  | none => .identifier word

/-- Whether the kind stands for refused characters. -/
def isInvalid : Kind → Bool
  | invalid _ => true
  | _ => false

/-- The fixed spelling of reserved words and signs. -/
def spelling? : Kind → Option String
  | keyword word => some word.spelling
  | symbol sign => some sign.spelling
  | _ => none

/-- The short name of a kind in a token listing. -/
def name : Kind → String
  | endOfInput => "eof"
  | endOfLine => "eol"
  | indent => "indent"
  | dedent => "dedent"
  | invalid _ => "error"
  | identifier _ => "identifier"
  | number _ _ => "number"
  | keyword word => word.spelling
  | symbol sign => sign.spelling

/-- What an error message calls a token of this kind. -/
def inWords : Kind → String
  | endOfInput => "end of input"
  | endOfLine => "newline"
  | indent => "indent"
  | dedent => "dedent"
  | invalid _ => "invalid token"
  | identifier name => s!"identifier '{name}'"
  | number text _ => s!"number '{text}'"
  | keyword word => s!"'{word.spelling}'"
  | symbol sign => s!"'{sign.spelling}'"

end Kind

/-- A kind at the place of its first character. A line end is placed at the start of the line
that follows it. -/
structure Token where
  kind : Kind
  location : Location
  deriving DecidableEq, Repr

end Offside
