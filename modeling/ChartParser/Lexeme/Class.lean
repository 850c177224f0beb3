namespace ChartParser

/-- A class of lexemes, told by their text alone. -/
inductive LexemeClass where
  | any
  | empty
  | digits
  | digitsOrNothing
  | lowerLetters
  | letters
  | oneOf (lexemes : List String)
  | startingWith (beginning : String)
  | ofLength (characters : Nat)
  | ofByteSize (bytes : Nat)

namespace LexemeClass

/-- Is the lexeme made of characters of this kind, and of at least one? -/
def isRun (kind : Char → Bool) (lexeme : String) : Bool :=
  !lexeme.toList.isEmpty && lexeme.toList.all kind

/-- Letters and digits are those of ASCII. -/
def accepts : LexemeClass → String → Bool
  | any, _ => true
  | empty, _ => false
  | digits, lexeme => isRun Char.isDigit lexeme
  | digitsOrNothing, lexeme => lexeme.toList.all Char.isDigit
  | lowerLetters, lexeme => isRun Char.isLower lexeme
  | letters, lexeme => isRun Char.isAlpha lexeme
  | oneOf lexemes, lexeme => lexemes.contains lexeme
  | startingWith beginning, lexeme => beginning.toList.isPrefixOf lexeme.toList
  | ofLength characters, lexeme => lexeme.length == characters
  | ofByteSize bytes, lexeme => lexeme.utf8ByteSize == bytes

end LexemeClass

end ChartParser
