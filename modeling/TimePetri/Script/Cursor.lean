import TimePetri.Script.LexemeSource

namespace TimePetri.Script

-- What is ahead of a scanner, and the place of its next character. Characters are taken
-- one by one, and each that is taken moves the place on.
structure Cursor where
  rest : List Char
  here : Position
  deriving DecidableEq

namespace Cursor

def start (text : String) : Cursor := ⟨text.toList,.start⟩

def peek (cursor : Cursor) : Option Char := cursor.rest.head?

def bump (cursor : Cursor) : Option Char × Cursor :=
  match cursor.rest with
  | [] => (none,cursor)
  | c :: rest => (some c,⟨rest,cursor.here.step c⟩)

def runFrom (wanted : Char → Bool) (here : Position) : List Char → List Char × Cursor
  | [] => ([],⟨[],here⟩)
  | c :: rest =>
    if wanted c then
      let (taken,cursor) := runFrom wanted (here.step c) rest
      (c :: taken,cursor)
    else ([],⟨c :: rest,here⟩)

def run (wanted : Char → Bool) (cursor : Cursor) : List Char × Cursor := runFrom wanted cursor.here cursor.rest

theorem runFrom_exact (wanted : Char → Bool) (here : Position) (cs : List Char) : runFrom wanted here cs =
    (cs.takeWhile wanted,⟨cs.dropWhile wanted,here.after (cs.takeWhile wanted)⟩) := by
  induction cs generalizing here with
  | nil => rfl
  | cons c rest ih =>
    unfold runFrom
    cases here' : wanted c with
    | false => simp [here',Position.after]
    | true => simp [here',ih,Position.after]

theorem run_exact (wanted : Char → Bool) (cursor : Cursor) : cursor.run wanted =
    (cursor.rest.takeWhile wanted,
      ⟨cursor.rest.dropWhile wanted,cursor.here.after (cursor.rest.takeWhile wanted)⟩) :=
  runFrom_exact wanted cursor.here cursor.rest

theorem run_shorter (wanted : Char → Bool) (cursor : Cursor) :
    (cursor.run wanted).2.rest.length ≤ cursor.rest.length := by
  rw [run_exact]
  exact (List.dropWhile_sublist _).length_le

def inLine (c : Char) : Bool := c ≠ '\n' && c ≠ '\r'

def skip (cursor : Cursor) : Cursor :=
  let visible := (cursor.run isBlank).2
  if _ : visible.peek = some '#' then skip (visible.run inLine).2 else visible
termination_by cursor.rest.length
decreasing_by
  rename_i comment
  have first := run_shorter isBlank cursor
  have second : (visible.run inLine).2.rest.length < visible.rest.length := by
    rw [run_exact]
    cases same : visible.rest with
    | nil => rw [peek,same] at comment; cases comment
    | cons c rest =>
      rw [peek,same] at comment
      cases comment
      have shorter := (List.dropWhile_sublist inLine (l := rest)).length_le
      exact Nat.lt_succ_of_le shorter
  exact Nat.lt_of_lt_of_le second first

def ended (kind : Kind) (shown : List Char) (start : Position) (cursor : Cursor) : Token × Cursor :=
  (⟨kind,String.ofList shown,start⟩,cursor)

def numeral (cursor : Cursor) : List Char × Cursor :=
  let (digits,next) := cursor.run Char.isDigit
  match next.peek with
  | some c => if digits ≠ [] ∧ isMultiplier c then (digits ++ [c],next.bump.2) else (digits,next)
  | none => (digits,next)

def word (first : Char) (start : Position) (cursor : Cursor) : Token × Cursor :=
  let (more,next) := cursor.run isIdentChar
  let lower := (first :: more).map Char.toLower
  match wordKind (String.ofList lower) with
  | .ident => ended .ident (first :: more) start next
  | kind => ended kind lower start next

def bracedFrom (kind : Kind) (start : Position) (shown : List Char) (here : Position) : List Char → Token × Cursor
  | [] => ended .illegal shown start ⟨[],here⟩
  | '}' :: rest => ended kind (shown ++ ['}']) start ⟨rest,here.step '}'⟩
  | '\\' :: c :: rest =>
    let next := (here.step '\\').step c
    if c = '{' || c = '}' || c = '\\' then bracedFrom kind start (shown ++ ['\\',c]) next rest
    else ended .illegal (shown ++ ['\\',c]) start ⟨rest,next⟩
  | c :: rest =>
    if c = '\n' || c = '\r' || c = '{' then ended .illegal shown start ⟨rest,here.step c⟩
    else if c = '\\' then ended .illegal (shown ++ [c]) start ⟨rest,here.step c⟩
    else bracedFrom kind start (shown ++ [c]) (here.step c) rest

def braced (kind : Kind) (start : Position) (cursor : Cursor) : Token × Cursor :=
  bracedFrom kind start ['{'] cursor.here cursor.rest

-- A label has the place of its own first character, not that of its colon.
def label (cursor : Cursor) : Token × Cursor :=
  let visible := (cursor.run isBlank).2
  match visible.bump with
  | (none,next) => ended .illegal "EOF".toList visible.here next
  | (some '{',next) => next.braced .label visible.here
  | (some c,next) =>
    if c = '}' || c = '\\' then ended .illegal [c] visible.here next
    else
      let (more,last) := next.run (!isBlank ·)
      if last.peek = none then ended .illegal "EOF".toList visible.here last
      else ended .label (c :: more) visible.here last

def broken (shown : List Char) (start : Position) (cursor : Cursor) : Token × Cursor :=
  let (c,next) := cursor.bump
  ended .illegal (shown ++ c.toList) start next

def weight (kind : Kind) (decoration : List Char) (start : Position) (cursor : Cursor) : Token × Cursor :=
  let (number,next) := cursor.numeral
  if number = [] then next.broken decoration start else ended kind number start next

def test (start : Position) (cursor : Cursor) : Token × Cursor :=
  if cursor.peek = some '-' then cursor.bump.2.weight .inhibitor ['?','-'] start
  else cursor.weight .read ['?'] start

def marking (start : Position) (cursor : Cursor) : Token × Cursor :=
  let (number,next) := cursor.numeral
  if number ≠ [] ∧ next.peek = some ')' then ended .marking number start next.bump.2
  else next.broken ('(' :: number) start

def intervalFrom (start : Position) (shown : List Char) (here : Position) : List Char → Token × Cursor
  | [] => ended .illegal shown start ⟨[],here⟩
  | c :: rest =>
    if c = '[' || c = ']' then ended .interval (shown ++ [' ',c]) start ⟨rest,here.step c⟩
    else if c = ',' then intervalFrom start (shown ++ [' ']) (here.step c) rest
    else if c.isDigit || c = 'w' then intervalFrom start (shown ++ [c]) (here.step c) rest
    else if isBlank c then intervalFrom start shown (here.step c) rest
    else ended .illegal (shown ++ [c]) start ⟨rest,here.step c⟩

def interval (bracket : Char) (start : Position) (cursor : Cursor) : Token × Cursor :=
  intervalFrom start [bracket,' '] cursor.here cursor.rest

def mark (cursor : Cursor) : Token × Cursor :=
  let start := cursor.here
  match cursor.bump with
  | (none,next) => ended .eof "EOF".toList start next
  | (some '{',next) => next.braced .ident start
  | (some ':',next) => next.label
  | (some '?',next) => next.test start
  | (some '*',next) => next.weight .star ['*'] start
  | (some '-',next) =>
    if next.peek = some '>' then ended .arrow ['-','>'] start next.bump.2 else ended .illegal ['-'] start next
  | (some '(',next) => next.marking start
  | (some '[',next) => next.interval '[' start
  | (some ']',next) => next.interval ']' start
  | (some '>',next) => ended .gt ['>'] start next
  | (some '<',next) => ended .lt ['<'] start next
  | (some c,next) =>
    if isIdentStart c then next.word c start
    else if c.isDigit then
      let (more,last) := next.numeral
      ended .int (c :: more) start last
    else ended .illegal [c] start next

def next (cursor : Cursor) : Token × Cursor := cursor.skip.mark

def reached (text : String) : Nat → Cursor
  | 0 => start text
  | calls + 1 => (reached text calls).next.2

def scanned (text : String) (call : Nat) : Token := (reached text call).next.1

end Cursor

end TimePetri.Script
