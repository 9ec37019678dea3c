import MacroLift.Location

namespace MacroLift

inductive Keyword where
  | constKw
  | structKw
  | unionKw
  | staticKw
  | volatileKw
  | ifKw
  | elseKw
  | doKw
  | whileKw
  deriving Repr, DecidableEq

namespace Keyword

def spelling : Keyword → String
  | .constKw => "const"
  | .structKw => "struct"
  | .unionKw => "union"
  | .staticKw => "static"
  | .volatileKw => "volatile"
  | .ifKw => "if"
  | .elseKw => "else"
  | .doKw => "do"
  | .whileKw => "while"

def all : List Keyword :=
  [.constKw, .structKw, .unionKw, .staticKw, .volatileKw, .ifKw, .elseKw, .doKw, .whileKw]

def ofSpelling? (word : String) : Option Keyword :=
  all.find? fun keyword => keyword.spelling == word

end Keyword

inductive Punct where
  | ellipsis
  | shiftLeftAssign
  | shiftRightAssign
  | paste
  | arrow
  | increment
  | decrement
  | shiftLeft
  | shiftRight
  | lessEq
  | greaterEq
  | equal
  | notEqual
  | logicalAnd
  | logicalOr
  | plusAssign
  | minusAssign
  | starAssign
  | slashAssign
  | percentAssign
  | andAssign
  | orAssign
  | xorAssign
  | leftParen
  | rightParen
  | leftBrace
  | rightBrace
  | leftBracket
  | rightBracket
  | semicolon
  | comma
  | colon
  | question
  | dot
  | plus
  | minus
  | star
  | slash
  | percent
  | ampersand
  | pipe
  | caret
  | tilde
  | bang
  | assign
  | less
  | greater
  | hash
  deriving Repr, DecidableEq

namespace Punct

def chars : Punct → List Char
  | .ellipsis => ['.', '.', '.']
  | .shiftLeftAssign => ['<', '<', '=']
  | .shiftRightAssign => ['>', '>', '=']
  | .paste => ['#', '#']
  | .arrow => ['-', '>']
  | .increment => ['+', '+']
  | .decrement => ['-', '-']
  | .shiftLeft => ['<', '<']
  | .shiftRight => ['>', '>']
  | .lessEq => ['<', '=']
  | .greaterEq => ['>', '=']
  | .equal => ['=', '=']
  | .notEqual => ['!', '=']
  | .logicalAnd => ['&', '&']
  | .logicalOr => ['|', '|']
  | .plusAssign => ['+', '=']
  | .minusAssign => ['-', '=']
  | .starAssign => ['*', '=']
  | .slashAssign => ['/', '=']
  | .percentAssign => ['%', '=']
  | .andAssign => ['&', '=']
  | .orAssign => ['|', '=']
  | .xorAssign => ['^', '=']
  | .leftParen => ['(']
  | .rightParen => [')']
  | .leftBrace => ['\x7b']
  | .rightBrace => ['\x7d']
  | .leftBracket => ['[']
  | .rightBracket => [']']
  | .semicolon => [';']
  | .comma => [',']
  | .colon => [':']
  | .question => ['?']
  | .dot => ['.']
  | .plus => ['+']
  | .minus => ['-']
  | .star => ['*']
  | .slash => ['/']
  | .percent => ['%']
  | .ampersand => ['&']
  | .pipe => ['|']
  | .caret => ['^']
  | .tilde => ['~']
  | .bang => ['!']
  | .assign => ['=']
  | .less => ['<']
  | .greater => ['>']
  | .hash => ['#']

def spelling (p : Punct) : String :=
  String.ofList p.chars

/-- Every punctuator, longer ones first. -/
def all : List Punct :=
  [.ellipsis, .shiftLeftAssign, .shiftRightAssign, .paste, .arrow, .increment, .decrement, .shiftLeft,
   .shiftRight, .lessEq, .greaterEq, .equal, .notEqual, .logicalAnd, .logicalOr, .plusAssign, .minusAssign,
   .starAssign, .slashAssign, .percentAssign, .andAssign, .orAssign, .xorAssign, .leftParen, .rightParen,
   .leftBrace, .rightBrace, .leftBracket, .rightBracket, .semicolon, .comma, .colon, .question, .dot, .plus,
   .minus, .star, .slash, .percent, .ampersand, .pipe, .caret, .tilde, .bang, .assign, .less, .greater, .hash]

def ofText? (text : List Char) : Option Punct :=
  all.find? fun p => p.chars.isPrefixOf text

theorem mem_all (p : Punct) : p ∈ all := by
  cases p <;> decide

theorem chars_ne_nil (p : Punct) : p.chars ≠ [] := by
  cases p <;> simp [chars]

end Punct

/-- One unit of a macro's text. Numbers keep their suffix letters; string and character literals keep their
    quotes and escapes. -/
inductive Lexeme where
  | name (text : String)
  | number (text : String)
  | string (text : String)
  | character (text : String)
  | keyword (k : Keyword)
  | punct (p : Punct)
  deriving Repr, DecidableEq

def Lexeme.text : Lexeme → String
  | .name text | .number text | .string text | .character text => text
  | .keyword k => k.spelling
  | .punct p => p.spelling

def Lexeme.ofWord (word : String) : Lexeme :=
  match Keyword.ofSpelling? word with
  | some k => .keyword k
  | none => .name word

structure Token where
  lexeme : Lexeme
  pos : Pos
  deriving Repr, DecidableEq

theorem Keyword.ofSpelling?_spelling (k : Keyword) : ofSpelling? k.spelling = some k := by
  cases k <;> decide

end MacroLift
