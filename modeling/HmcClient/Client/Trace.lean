/-!
# The trace

Where the dumps of exchanges go: to a writer, or nowhere. A writer may be broken, so that every
text of at least one character fails to be written. A failure concerns the trace alone; nobody else
notices.
-/

namespace HmcClient

/-- A place to write texts to. -/
inductive Writer where
  | working
  | broken
  deriving DecidableEq, Repr

/-- The trace: where texts are written to now, and what has been written so far. -/
structure Sink where
  writer : Option Writer
  written : List String
  deriving DecidableEq, Repr

namespace Sink

/-- The trace that goes nowhere. -/
def off : Sink := ⟨none, []⟩

/-- The trace of a new client: if it is traced from the start, that goes to the error output. -/
def initial (traced : Bool) : Sink := ⟨if traced then some .working else none, []⟩

/-- Whether texts are written anywhere. -/
def isEnabled (s : Sink) : Bool := s.writer.isSome

/-- Whether writing a text fails. -/
def fails (s : Sink) (text : String) : Bool := s.writer == some .broken && !text.isEmpty

/-- The trace after a text has been given to it. -/
def write (s : Sink) (text : String) : Sink :=
  if s.writer = some .working then { s with written := s.written ++ [text] } else s

/-- All that has been written. -/
def text (s : Sink) : String := String.join s.written

/-- The trace with another writer. -/
def redirect (s : Sink) (writer : Option Writer) : Sink := { s with writer := writer }

end Sink

end HmcClient
