import TimePetri.Script.ParseError

namespace TimePetri.Script

inductive Use where
  | consume
  | produce
  | test
  | inhibit
  deriving DecidableEq

inductive Order where
  | above
  | below
  deriving DecidableEq

def Order.text : Order → String
  | .above => ">"
  | .below => "<"

-- The parts of the declarations of a net, in the order of the text. A part that
-- may turn out not to fit keeps the token that is reported then.
inductive Clause where
  | netName (name : String)
  | transition (name : String)
  | transitionLabel (transition label : String)
  | interval (transition : String) (interval : Interval) (token : Token)
  | place (name : String)
  | placeLabel (place label : String)
  | marking (place : String) (count : Int64) (token : Token)
  | arc (place transition : String) (use : Use) (weight : Int64) (token : Token)
  | mention (token : Token)
  | priority (first : List String) (order : Order) (second : List String)
  | note (text : String)
  deriving DecidableEq

end TimePetri.Script
