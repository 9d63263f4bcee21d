/-!
# Where output goes

A text that is written is offered to a sink, from the first byte on. The sink
takes all of it, or it breaks off: it has taken some of the bytes and gives a
reason not to take the next one. Now and then the sink is flushed, which may fail
as well. All its answers may depend on the bytes that it has taken so far and on
how often it was flushed.
-/

namespace CometLang

/-- So many of the bytes of a write were taken, and this is why the next one was not. -/
structure Refusal (size : Nat) where
  taken : Fin size
  message : String

/-- What an output answers, by the bytes taken and the number of flushes so far. -/
structure Sink where
  /-- Where a write of the bytes breaks off, if it does. -/
  refusal? :
    (written : Array UInt8) → (flushes : Nat) → (bytes : List UInt8) →
      Option (Refusal bytes.length)
  /-- Why a flush fails, if it does. -/
  flushError? :
    (written : Array UInt8) → (flushes : Nat) → Option String

namespace Sink

/-- Nothing is ever refused. -/
def TakesAll (sink : Sink) : Prop :=
  ∀ written flushes bytes, sink.refusal? written flushes bytes = none

theorem not_takesAll
    {sink : Sink}
    {written : Array UInt8}
    {flushes : Nat}
    {bytes : List UInt8}
    {refusal : Refusal bytes.length}
    (h : sink.refusal? written flushes bytes = some refusal) :
    ¬ sink.TakesAll := by
  intro hall
  rw [hall] at h
  cases h

/-- Takes everything, and is flushed without fail. -/
def willing : Sink where
  refusal? _ _ _ := none
  flushError? _ _ := none

/-- The same sink, but it takes everything. -/
def unbounded (sink : Sink) : Sink :=
  { sink with refusal? := fun _ _ _ => none }

/-- The same sink, but it takes the given number of bytes in all. -/
def bounded
    (sink : Sink)
    (limit : Nat) : Sink :=
  { sink with
    refusal? := fun written _ bytes =>
      if h : limit - written.size < bytes.length then
        some ⟨⟨limit - written.size, h⟩, "failed to write whole buffer"⟩
      else
        none }

end Sink
end CometLang
