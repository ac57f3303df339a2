import TimePetri.Word

namespace TimePetri

-- Text is written piece by piece. A piece that meets a fault stops the writing,
-- and what was written before it stays written.
abbrev Piece := Except Fault String

structure Written where
  text : String
  fault : Option Fault

def written : List Piece → Written
  | [] => ⟨"",none⟩
  | .error fault :: _ => ⟨"",some fault⟩
  | .ok piece :: rest =>
    let later := written rest
    ⟨piece ++ later.text,later.fault⟩

inductive WriteFailure where
  | limit
  | flush
  deriving DecidableEq

def WriteFailure.message : WriteFailure → String
  | .limit => "limit reached"
  | .flush => "flush failed"

inductive WriteError where
  | refused (failure : WriteFailure)
  | fault (cause : Fault)
  deriving DecidableEq

structure Sink where
  limit : Option Nat
  failsFlush : Bool

def Sink.unbounded : Sink := ⟨none,false⟩

-- A sink that is full stops the writing before a later fault can, and only writing
-- that came to its end is flushed.
def Sink.accept (sink : Sink) (output : Written) : Except WriteError String :=
  if sink.limit.any (· < output.text.utf8ByteSize) then .error (.refused .limit)
  else
    match output.fault with
    | some fault => .error (.fault fault)
    | none => if sink.failsFlush then .error (.refused .flush) else .ok output.text

end TimePetri
