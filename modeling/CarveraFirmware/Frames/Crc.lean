import Mathlib

/-!
# CRC-16/CCITT

The table-driven checksum of `libs/CRC16.h`.
-/

namespace CarveraFirmware.Crc

/-- One round of `table_entry`: shift left, and fold the polynomial in when the top bit was set. -/
def tableRound (value : UInt16) : UInt16 :=
  if value &&& 0x8000 ≠ 0 then (value <<< 1) ^^^ 0x1021 else value <<< 1

/-- `table_entry(value)`: the eight rounds of one byte. -/
def tableEntry (value : UInt16) : UInt16 :=
  (List.range 8).foldl (fun v _ => tableRound v) (value <<< 8)

/-- The constant table `make_table()` builds, indexed by a byte. -/
def table (index : UInt8) : UInt16 := tableEntry index.toUInt16

/-- The loop body of `ccitt_update`. -/
def ccittByte (crc : UInt16) (byte : UInt8) : UInt16 :=
  (crc <<< 8) ^^^ table ((crc >>> 8) ^^^ byte.toUInt16).toUInt8

/-- `ccitt_update(crc, data, size)` over the bytes of `data`. -/
def ccittUpdate (crc : UInt16) (data : List UInt8) : UInt16 := data.foldl ccittByte crc

/-- `ccitt(data, size)`. -/
def ccitt (data : List UInt8) : UInt16 := ccittUpdate 0 data

@[simp] theorem ccittUpdate_nil (crc : UInt16) : ccittUpdate crc [] = crc := rfl

@[simp] theorem ccittUpdate_cons (crc : UInt16) (b : UInt8) (bs : List UInt8) :
    ccittUpdate crc (b :: bs) = ccittUpdate (ccittByte crc b) bs := rfl

theorem ccittUpdate_append (crc : UInt16) (xs ys : List UInt8) :
    ccittUpdate crc (xs ++ ys) = ccittUpdate (ccittUpdate crc xs) ys := by
  simp [ccittUpdate]

-- The check value the header asserts for the digits 1 to 9.
example : ccitt [0x31, 0x32, 0x33, 0x34, 0x35, 0x36, 0x37, 0x38, 0x39] = 0x31C3 := by decide

end CarveraFirmware.Crc
