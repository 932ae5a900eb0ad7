import LetPrint.Bindings
import LetPrint.Failure

/-! What a running program leaves behind.

A run binds variables and prints values. Whoever starts it may also have each
value delivered as it is printed, to a sink, and a sink may refuse a value; the
run then ends, with that value printed and not delivered. -/
namespace LetPrint

/-- Why a sink refuses a value. -/
inductive Refusal where
  | full
  | integerTooLong
  /-- A failure of the sink's own, whatever it is. -/
  | other (failure : Failure)
deriving DecidableEq, Repr

def Refusal.failure : Refusal → Failure
  | full => .sinkFull
  | integerTooLong => .integerTooLong
  | other failure => failure

/-- A receiver of printed values: from the values that it has, whether it takes
another. -/
abbrev Sink := Array Int → Int → Except Refusal Unit

namespace Sink

/-- Takes every value. -/
def collecting : Sink := fun _ _ => .ok ()

/-- Takes as many values as there is room for. -/
def upTo (room : Nat) : Sink := fun values _ =>
  if values.size < room then .ok () else .error .full

/-- Takes every value that can be written on a line of bounded length. -/
def writing : Sink := fun _ value =>
  if Text.Decimal.fits value then .ok () else .error .integerTooLong

end Sink

/-- The variables of a run, the values it has printed, and those of them that its
sink has taken. -/
structure Store where
  bindings : Bindings Int
  printed : Array Int
  sunk : Array Int
deriving DecidableEq, Repr

namespace Store

def empty : Store :=
  ⟨∅, #[], #[]⟩

instance : EmptyCollection Store := ⟨empty⟩

/-- The store with a variable bound to a value. -/
def bind (s : Store) (name : String) (value : Int) : Store :=
  {s with bindings := s.bindings.insert name value}

/-- Prints a value and delivers it. -/
def print (sink : Option Sink) (value : Int) : EStateM Refusal Store Unit := fun s =>
  let s := {s with printed := s.printed.push value}
  match sink with
  | none => .ok () s
  | some sink =>
    match sink s.sunk value with
    | .ok () => .ok () {s with sunk := s.sunk.push value}
    | .error refusal => .error refusal s

end Store

end LetPrint
