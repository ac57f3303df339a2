import TimePetri.Interval.Basic
import TimePetri.Script.Token

namespace TimePetri.Script

inductive Expectation where
  | declaration
  | netName
  | transitionName
  | placeName
  | transitionOrOperator
  | transitionAfterOperator
  | noteName
  | noteLevel
  | noteText
  | transitionLabel
  | transitionInterval
  | transitionArrow
  | transitionOutput
  | placeLabel
  | placeMarking
  | placeArrow
  | placeInput
  deriving DecidableEq

def Expectation.text : Expectation → String
  | .declaration => "expected declaration"
  | .netName => "expected net name"
  | .transitionName => "expected transition name"
  | .placeName => "expected place name"
  | .transitionOrOperator => "expected transition or priority operator"
  | .transitionAfterOperator => "expected transition after priority operator"
  | .noteName => "expected note name"
  | .noteLevel => "expected note level"
  | .noteText => "expected note text"
  | .transitionLabel => "misplaced label in transition"
  | .transitionInterval => "misplaced time interval in transition"
  | .transitionArrow => "duplicate arrow in transition"
  | .transitionOutput => "read or inhibitor arc on output of transition"
  | .placeLabel => "misplaced label in place"
  | .placeMarking => "misplaced marking in place"
  | .placeArrow => "duplicate arrow in place"
  | .placeInput => "read or inhibitor arc on input of place"

inductive ReadFailure where
  | limit
  | notUtf8
  deriving DecidableEq

def ReadFailure.message : ReadFailure → String
  | .limit => "limit reached"
  | .notUtf8 => "stream did not contain valid UTF-8"

inductive ParseError where
  | lexical (token : Token)
  | unexpected (expected : Expectation) (token : Token)
  | number (token : Token) (cause : NumberError)
  | interval (token : Token) (transition : String) (cause : IntervalError)
  | undeclared (token : Token)
  | unreadable (cause : ReadFailure)
  | fault (cause : Fault)
  deriving DecidableEq

def ParseError.token? : ParseError → Option Token
  | lexical token => some token
  | unexpected _ token => some token
  | number token _ => some token
  | interval token _ _ => some token
  | undeclared token => some token
  | unreadable _ => none
  | fault _ => none

def ParseError.position? (e : ParseError) : Option Position := e.token?.map (·.position)

def Token.located (token : Token) : String := Text.quoted token.text ++ " at " ++ token.position.text

def ParseError.message : ParseError → String
  | lexical token => "illegal token " ++ token.located
  | unexpected expected token => expected.text ++ "; found " ++ token.located
  | number token cause => "bad weight or marking " ++ token.located ++ ": " ++ cause.message
  | interval token transition cause =>
    "bad time interval " ++ Text.quoted token.text ++ " for transition " ++ transition ++ " at " ++
      token.position.text ++ ": " ++ cause.message
  | undeclared token =>
    "transition " ++ token.text ++ " is used in a priority before being declared, at " ++ token.position.text
  | unreadable cause => "unable to read net: " ++ cause.message
  | fault cause => cause.message

end TimePetri.Script
