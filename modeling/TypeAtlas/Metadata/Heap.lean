import TypeAtlas.Metadata.Compressed
import TypeAtlas.Text.Utf8

/-!
The two heaps of a module. Strings are stored once each and end with a zero byte; blobs
carry their length in front. Offset zero is the empty string and the empty blob.
-/

namespace TypeAtlas.Metadata

structure StringHeap where
  bytes : Bytes := [0]
  /-- Every stored text with the offset it was given. -/
  offsets : List (String × Nat) := []

namespace StringHeap

/-- The text from an offset to the next zero byte. -/
def get (heap : StringHeap) (offset : Nat) : Except Malformed String :=
  if heap.bytes.length < offset then .error (.stringOutside offset)
  else
    let tail := heap.bytes.drop offset
    if tail.contains 0 then
      match Text.Utf8.decode? (tail.takeWhile (· != 0)) with
      | some text => .ok text
      | none => .error (.stringEncoding offset)
    else .error (.stringUnterminated offset)

/-- The offset of a text, appended where it is new. -/
def intern (heap : StringHeap) (text : String) : Nat × StringHeap :=
  if text.isEmpty then (0, heap)
  else match heap.offsets.lookup text with
    | some offset => (offset, heap)
    | none =>
      let offset := heap.bytes.length
      (offset, ⟨heap.bytes ++ Text.Utf8.encode text ++ [0], heap.offsets ++ [(text, offset)]⟩)

def size (heap : StringHeap) : Nat := heap.bytes.length

def isEmpty (heap : StringHeap) : Bool := heap.bytes.length ≤ 1

end StringHeap

structure BlobHeap where
  bytes : Bytes := [0]

namespace BlobHeap

def get (heap : BlobHeap) (offset : Nat) : Except Malformed Bytes :=
  if heap.bytes.length < offset then .error (.blobOutside offset)
  else match readCompressed.run (heap.bytes.drop offset) with
    | .error cause => .error cause
    | .ok (length, tail) =>
      if tail.length < length then .error (.blobOverrun offset) else .ok (tail.take length)

/-- Append a blob behind its length. -/
def push (heap : BlobHeap) (blob : Bytes) : Except Malformed (Nat × BlobHeap) :=
  if blob.isEmpty then .ok (0, heap)
  else do
    let length ← writeCompressed blob.length
    pure (heap.bytes.length, ⟨heap.bytes ++ length ++ blob⟩)

def size (heap : BlobHeap) : Nat := heap.bytes.length

def isEmpty (heap : BlobHeap) : Bool := heap.bytes.length ≤ 1

end BlobHeap

end TypeAtlas.Metadata
