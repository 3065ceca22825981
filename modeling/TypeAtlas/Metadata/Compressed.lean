import TypeAtlas.Fault

/-!
Compressed unsigned integers: one byte below `2^7`, two below `2^14`, four below `2^29`.
The leading bits of the first byte give the width.
-/

namespace TypeAtlas.Metadata

abbrev Bytes := List UInt8

/-- A reading step takes its value from the front of the bytes. -/
abbrev Read := StateT Bytes (Except Malformed)

/-- One step after another, as often as told. -/
def readTimes {α : Type} (step : Read α) : Nat → Read (List α)
  | 0 => pure []
  | n + 1 => do
    let value ← step
    let rest ← readTimes step n
    pure (value :: rest)

def readByte : Read UInt8
  | [] => .error .signatureEnded
  | byte :: rest => .ok (byte, rest)

/-- The largest value with a compressed form. -/
def compressedLimit : Nat := 0x1fffffff

def readCompressed : Read Nat := do
  let first ← readByte
  if first < 0x80 then
    pure first.toNat
  else if first < 0xc0 then
    let second ← readByte
    pure ((first.toNat - 0x80) * 0x100 + second.toNat)
  else if first < 0xe0 then
    let second ← readByte
    let third ← readByte
    let fourth ← readByte
    pure ((first.toNat - 0xc0) * 0x1000000 + second.toNat * 0x10000 + third.toNat * 0x100 + fourth.toNat)
  else
    throw (.leadByte first)

/-- The shortest form of a value. -/
def writeCompressed (value : Nat) : Except Malformed Bytes :=
  if value < 0x80 then
    .ok [value.toUInt8]
  else if value < 0x4000 then
    .ok [(0x80 + value / 0x100).toUInt8, value.toUInt8]
  else if value ≤ compressedLimit then
    .ok [(0xc0 + value / 0x1000000).toUInt8, (value / 0x10000).toUInt8, (value / 0x100).toUInt8,
      value.toUInt8]
  else
    .error (.tooLarge value)

/-- Put the compressed form of a number behind what is already written. What stands there stays
there when the number is refused. -/
def putCompressed (value : Nat) : ExceptT Malformed (StateM Bytes) Unit := do
  let form ← MonadExcept.ofExcept (writeCompressed value)
  modify (· ++ form)

end TypeAtlas.Metadata
