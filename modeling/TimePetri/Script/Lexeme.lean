import TimePetri.Script.Token

namespace TimePetri.Script

def isBlank (c : Char) : Bool := c = ' ' || c = '\t' || c = '\r' || c = '\n'

def isIdentStart (c : Char) : Bool := c.isAlpha

def isIdentChar (c : Char) : Bool := c.isAlphanum || c = '_' || c = '\'' || c = '.'

def keywords : List (String × Kind) :=
  [("tr",.transition),("pl",.place),("net",.net),("pr",.priority),("nt",.note)]

-- A token of the characters at hand: what was skipped before it, what it is made
-- of, and what follows it. The three parts make up the whole.
structure Lexeme where
  kind : Kind
  shown : List Char
  lead : List Char
  body : List Char
  rest : List Char

def Lexeme.source (lexeme : Lexeme) : List Char := lexeme.lead ++ lexeme.body ++ lexeme.rest

def Lexeme.grow (shown body : List Char) (lexeme : Lexeme) : Lexeme :=
  { lexeme with shown := shown ++ lexeme.shown, body := body ++ lexeme.body }

def Lexeme.skip (lead : List Char) (lexeme : Lexeme) : Lexeme := { lexeme with lead := lead ++ lexeme.lead }

def accept (kind : Kind) (shown body rest : List Char) : Lexeme := ⟨kind,shown,[],body,rest⟩

def reject (rest : List Char) : Lexeme := ⟨.illegal,rest.take 1,[],rest.take 1,rest.drop 1⟩

def trivia (inComment : Bool) : List Char → List Char × List Char
  | [] => ([],[])
  | c :: cs =>
    if inComment && c ≠ '\n' && c ≠ '\r' then skipped c (trivia true cs)
    else if isBlank c then skipped c (trivia false cs)
    else if c = '#' then skipped c (trivia true cs)
    else ([],c :: cs)
where
  skipped (c : Char) (parts : List Char × List Char) : List Char × List Char := (c :: parts.1,parts.2)

def numeral (cs : List Char) : List Char × List Char :=
  match cs.takeWhile Char.isDigit, cs.dropWhile Char.isDigit with
  | [], rest => ([],rest)
  | digits, [] => (digits,[])
  | digits, c :: rest => if isMultiplier c then (digits ++ [c],rest) else (digits,c :: rest)

def wordKind (word : String) : Kind := (keywords.lookup word).getD .ident

-- Keywords are reserved in any mix of cases.
def lexWord (cs : List Char) : Lexeme :=
  let word := cs.takeWhile isIdentChar
  let rest := cs.dropWhile isIdentChar
  match wordKind (String.ofList (word.map Char.toLower)) with
  | .ident => accept .ident word word rest
  | kind => accept kind (word.map Char.toLower) word rest

-- A name in braces, after its opening brace. It has to close on its line, braces
-- inside it are escaped, and nothing but a brace or a backslash can be.
def lexBraced (kind : Kind) : List Char → Lexeme
  | [] => reject []
  | '}' :: cs => accept kind ['}'] ['}'] cs
  | '\\' :: c :: cs =>
    if c = '{' || c = '}' || c = '\\' then (lexBraced kind cs).grow ['\\',c] ['\\',c]
    else accept .illegal ['\\',c] ['\\',c] cs
  | c :: cs =>
    if c = '\n' || c = '\r' || c = '{' then accept .illegal [] [c] cs
    else if c = '\\' then accept .illegal [c] [c] cs
    else (lexBraced kind cs).grow [c] [c]

def lexBareLabel (cs : List Char) : Lexeme :=
  let word := cs.takeWhile (!isBlank ·)
  match cs.dropWhile (!isBlank ·) with
  | [] => accept .illegal "EOF".toList word []
  | rest => accept .label word word rest

def lexLabel : List Char → Lexeme
  | [] => accept .illegal "EOF".toList [] []
  | '{' :: cs => (lexBraced .label cs).grow ['{'] ['{']
  | c :: cs => if c = '}' || c = '\\' then reject (c :: cs) else lexBareLabel (c :: cs)

-- A weight shows its number only. The decoration is shown when no number follows.
def lexWeight (kind : Kind) (decoration : List Char) (cs : List Char) : Lexeme :=
  match numeral cs with
  | ([],rest) => (reject rest).grow decoration decoration
  | (number,rest) => accept kind number (decoration ++ number) rest

def lexTest : List Char → Lexeme
  | '-' :: cs => lexWeight .inhibitor ['?','-'] cs
  | cs => lexWeight .read ['?'] cs

def lexMarking (cs : List Char) : Lexeme :=
  match numeral cs with
  | ([],rest) => (reject rest).grow ['('] ['(']
  | (number,')' :: rest) => accept .marking number ('(' :: number ++ [')']) rest
  | (number,rest) => (reject rest).grow ('(' :: number) ('(' :: number)

-- An interval up to the bracket that ends it. Commas become blanks, blanks go, and
-- only digits and the sign of infinity are parts.
def lexInterval : List Char → Lexeme
  | [] => reject []
  | c :: cs =>
    if c = '[' || c = ']' then accept .interval [' ',c] [c] cs
    else if c = ',' then (lexInterval cs).grow [' '] [c]
    else if c.isDigit || c = 'w' then (lexInterval cs).grow [c] [c]
    else if isBlank c then (lexInterval cs).grow [] [c]
    else reject (c :: cs)

-- The first digit is taken alone, so a multiplier needs a second one before it.
def lexInt (c : Char) (cs : List Char) : Lexeme :=
  let parts := numeral cs
  accept .int (c :: parts.1) (c :: parts.1) parts.2

def lexMark : List Char → Lexeme
  | [] => accept .eof "EOF".toList [] []
  | '{' :: cs => (lexBraced .ident cs).grow ['{'] ['{']
  | ':' :: cs => (lexLabel (cs.dropWhile isBlank)).skip (':' :: cs.takeWhile isBlank)
  | '?' :: cs => lexTest cs
  | '*' :: cs => lexWeight .star ['*'] cs
  | '-' :: '>' :: cs => accept .arrow ['-','>'] ['-','>'] cs
  | '(' :: cs => lexMarking cs
  | '[' :: cs => (lexInterval cs).grow ['[',' '] ['[']
  | ']' :: cs => (lexInterval cs).grow [']',' '] [']']
  | '>' :: cs => accept .gt ['>'] ['>'] cs
  | '<' :: cs => accept .lt ['<'] ['<'] cs
  | c :: cs =>
    if isIdentStart c then lexWord (c :: cs)
    else if c.isDigit then lexInt c cs
    else reject (c :: cs)

def lex (cs : List Char) : Lexeme :=
  let parts := trivia false cs
  (lexMark parts.2).skip parts.1

end TimePetri.Script
