/-!
# Frames

A frame is the length of its payload in four bytes, the highest first, and then the payload. A
stream of frames is read from its start; `Frame.readAll` reads on until a frame is cut short or
announces more bytes than a reader takes.
-/

namespace PitFleet.Frame

/-- The longest payload that a reader takes. -/
def maxLength : Nat := 16 * 1024 * 1024

/-- The least length that does not fit in a header. -/
def lengthLimit : Nat := UInt32.size

def header (length : Nat) : List UInt8 :=
  [.ofNat (length / 0x1000000), .ofNat (length / 0x10000), .ofNat (length / 0x100), .ofNat length]

/-- The length that four bytes announce. -/
def announced (a b c d : UInt8) : Nat :=
  a.toNat * 0x1000000 + b.toNat * 0x10000 + c.toNat * 0x100 + d.toNat

/-- The frame of a payload, unless its length does not fit in a header. -/
def write? (payload : List UInt8) : Option (List UInt8) :=
  if payload.length < lengthLimit then some (header payload.length ++ payload) else none

inductive Fault
  | cut
  | tooLong (length : Nat)
  deriving DecidableEq, Repr

def Fault.message : Fault → String
  | cut => "unexpected end of stream"
  | tooLong length =>
    "frame length " ++ toString length ++ " exceeds " ++ toString maxLength

/-- What one reading leads to. -/
inductive Reading
  | payload (bytes rest : List UInt8)
  /-- A stream that is cut is used up; one that announces too much is used up to its header. -/
  | failed (fault : Fault) (rest : List UInt8)

def read : List UInt8 → Reading
  | a :: b :: c :: d :: stream =>
    let length := announced a b c d
    if maxLength < length then .failed (.tooLong length) stream
    else if stream.length < length then .failed .cut []
    else .payload (stream.take length) (stream.drop length)
  | _ => .failed .cut []

theorem length_lt_of_read {stream bytes rest : List UInt8}
    (h : read stream = .payload bytes rest) : rest.length < stream.length := by
  unfold read at h
  split at h
  · simp only at h
    split at h
    · cases h
    · split at h
      · cases h
      · cases h
        simp only [List.length_drop, List.length_cons]
        omega
  · cases h

/-- All payloads up to the first failure, the failure and what it leaves. -/
def readAll (stream : List UInt8) : List (List UInt8) × Fault × List UInt8 :=
  match _h : read stream with
  | .failed fault rest => ([], fault, rest)
  | .payload bytes rest =>
    let (payloads, fault, left) := readAll rest
    (bytes :: payloads, fault, left)
termination_by stream.length
decreasing_by exact length_lt_of_read _h

end PitFleet.Frame
