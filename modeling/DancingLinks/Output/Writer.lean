/-! Writers that may take less than they are offered. A policy decides about each offer and each
flush; the writer remembers what it took. Writing all of a text means offering the rest again and
again until nothing is left, an offer is refused, or one is met with no byte taken. -/
namespace DancingLinks

abbrev Bytes := List UInt8

def bytesOf (text : String) : Bytes := text.toUTF8.data.toList

/-- What a writer does with its offers and flushes. The library that offers the bytes retries an
interrupted offer by itself, so an interruption is no answer here, and it relies on no writer
claiming more bytes than it was offered. -/
structure Policy where
  /-- How many bytes of an offer are taken, or the reason for a refusal, after so many offers and
  with so many bytes held. -/
  accept : (offers held : Nat) → (offer : Bytes) → Except String Nat
  refuseFlush : (flushes : Nat) → Option String
  /-- Whether the bytes taken go to the standard output. -/
  isStdout : Bool := false

namespace Policy

/-- Takes as much as fits into `capacity` bytes in all. Where nothing fits it refuses with the
reason `full`, or takes no byte if there is none. Every flush fails that has a reason to. -/
def bounded (capacity : Option Nat) (full flushFailure : Option String) : Policy where
  accept _ held offer :=
    match capacity with
    | none => .ok offer.length
    | some capacity =>
      if held < capacity then .ok (min (capacity - held) offer.length)
      else match full with
        | some reason => .error reason
        | none => .ok 0
  refuseFlush _ := flushFailure

def stdout : Policy := { bounded none none none with isStdout := true }

end Policy

structure Writer where
  policy : Policy
  held : Array UInt8
  offers : Nat
  flushes : Nat

namespace Writer

def ofPolicy (policy : Policy) : Writer := ⟨policy, #[], 0, 0⟩

def stalled : String := "failed to write whole buffer"

def write (writer : Writer) (offer : Bytes) : Except String Nat × Writer :=
  let answer := writer.policy.accept writer.offers writer.held.size offer
  let taken : Bytes := match answer with
    | .ok count => offer.take count
    | .error _ => []
  (answer, { writer with held := writer.held ++ taken, offers := writer.offers + 1 })

/-- Offers what is left of some bytes until nothing is; every offer but the last takes a byte. A
count beyond the offer would end the writing as if all of it had been taken. -/
def writeRest (writer : Writer) : Nat → Bytes → Option String × Writer
  | 0, _ => (none, writer)
  | bound + 1, rest =>
    if rest.isEmpty then (none, writer)
    else match writer.write rest with
      | (.error reason, writer) => (some reason, writer)
      | (.ok 0, writer) => (some stalled, writer)
      | (.ok count, writer) => writeRest writer bound (rest.drop count)

def writeAll (writer : Writer) (text : String) : Option String × Writer :=
  let bytes := bytesOf text
  writer.writeRest bytes.length bytes

def writeEach (writer : Writer) : List String → Option String × Writer
  | [] => (none, writer)
  | text :: rest =>
    match writer.writeAll text with
    | (some reason, writer) => (some reason, writer)
    | (none, writer) => writeEach writer rest

def printedSince (writer : Writer) (held : Nat) : Bytes :=
  if writer.policy.isStdout then writer.held.toList.drop held else []

def flush (writer : Writer) : Option String × Writer :=
  (writer.policy.refuseFlush writer.flushes, { writer with flushes := writer.flushes + 1 })

end Writer

end DancingLinks
