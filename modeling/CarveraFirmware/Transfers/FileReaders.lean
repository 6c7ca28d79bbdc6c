import Mathlib
import CarveraFirmware.Frames.Decoder

/-!
# The two file-transfer frame readers

During a file transfer the frames are not read by `FrameDecoder` but by `gets`, which
`SerialConsole` and `WifiProvider` each write out by hand. The USB reader takes single bytes, the
WiFi reader chunks: it returns in the middle of a chunk when a frame ends there and goes on from
`ptrData` at the next call. Reads the WiFi reader drops before its parser (UDP, a status error,
another client's bytes) leave its state alone and are not modelled.
-/

namespace CarveraFirmware.Transfers

open Crc Frames

/-- `XBUFF_LENGTH`. -/
def xbuffLength : Nat := 8208

inductive ParseState where
  | waitHeader | readLength | readData | checkFooter
  deriving DecidableEq, Repr

/-- A frame as the transfer code takes it out of `xbuff`: its type and its data. -/
abbrev FileFrame := UInt8 × List UInt8

/-- The packet types both readers hand on: the file types, `0xA0`, and the two control types. -/
def fileTypes : List UInt8 := [0xB1, 0xB5, 0xB2, 0xB3, 0xB4, 0xB6, 0xA0, 0xA1, 0xA2]

/-- The first `n` bytes of `xbuff`. -/
def filled (xbuff : Nat → UInt8) (n : Nat) : List UInt8 := (List.range n).map xbuff

/-- The type and data of the frame in `xbuff`, by its own length field. -/
def handOver (xbuff : Nat → UInt8) : FileFrame :=
  (xbuff 2, (List.range ((be16 (xbuff 0) (xbuff 1)).toNat - 3)).map (fun j => xbuff (3 + j)))

/-- The CRC in the last two of the first `n` bytes, against the one of the bytes before. -/
def crcMatches (xbuff : Nat → UInt8) (n : Nat) : Bool :=
  ccitt (filled xbuff (n - 2)) == be16 (xbuff (n - 2)) (xbuff (n - 1))

/-! ## `SerialConsole` -/

/-- The file parser of `SerialConsole`. -/
structure SerialReader where
  fileParseState : ParseState := .waitHeader
  fileFrameIndex : Nat := 0
  fileBytesNeeded : Nat := 2
  fileHeader : UInt8 × UInt8 := (0, 0)
  fileFooter : UInt8 × UInt8 := (0, 0)
  xbuff : Nat → UInt8 := fun _ => 0

namespace SerialReader

/-- `reset_file_parser`. -/
def resetFileParser (r : SerialReader) : SerialReader := { xbuff := r.xbuff }

/-- `check_file_packet`: the frame, or nothing when the result is 0. -/
def checkFilePacket (r : SerialReader) : Option FileFrame :=
  if r.fileFrameIndex < 5 then none
  else if crcMatches r.xbuff r.fileFrameIndex = false then none
  else if r.xbuff 2 ∈ fileTypes then some (handOver r.xbuff) else none

/-- One turn of the loop in `gets`, and the frame it returns with, if any. -/
def byte (r : SerialReader) (received : UInt8) : SerialReader × Option FileFrame :=
  match r.fileParseState with
  | .waitHeader =>
    let r := { r with fileHeader := (r.fileHeader.2, received) }
    if be16 r.fileHeader.1 r.fileHeader.2 = header then
      ({ r with fileParseState := .readLength, fileBytesNeeded := 2, fileFrameIndex := 0 }, none)
    else (r, none)
  | .readLength =>
    let r := { r with
      xbuff := Function.update r.xbuff r.fileFrameIndex received
      fileFrameIndex := r.fileFrameIndex + 1
      fileBytesNeeded := r.fileBytesNeeded - 1 }
    if r.fileBytesNeeded = 0 then
      let expectedLength := (be16 (r.xbuff 0) (r.xbuff 1)).toNat
      if 3 ≤ expectedLength ∧ expectedLength ≤ xbuffLength - 2 then
        ({ r with fileParseState := .readData, fileBytesNeeded := expectedLength }, none)
      else (r.resetFileParser, none)
    else (r, none)
  | .readData =>
    let r := { r with
      xbuff := Function.update r.xbuff r.fileFrameIndex received
      fileFrameIndex := r.fileFrameIndex + 1
      fileBytesNeeded := r.fileBytesNeeded - 1 }
    if r.fileBytesNeeded = 0 then
      ({ r with fileParseState := .checkFooter, fileBytesNeeded := 2 }, none)
    else (r, none)
  | .checkFooter =>
    let r := { r with
      fileFooter := (r.fileFooter.2, received), fileBytesNeeded := r.fileBytesNeeded - 1 }
    if r.fileBytesNeeded = 0 then
      let command := if be16 r.fileFooter.1 r.fileFooter.2 = footer then r.checkFilePacket else none
      (r.resetFileParser, command)
    else (r, none)

/-- `gets`: bytes are taken until a frame is found or none is left. -/
def gets (r : SerialReader) : List UInt8 → SerialReader × Option FileFrame × List UInt8
  | [] => (r, none, [])
  | b :: bs =>
    match r.byte b with
    | (r, some frame) => (r, some frame, bs)
    | (r, none) => r.gets bs

/-- The frames of `n` calls of `gets`, and what is left of the stream. -/
def calls : Nat → SerialReader → List UInt8 → List FileFrame × List UInt8
  | 0, _, stream => ([], stream)
  | n + 1, r, stream =>
    let (r, frame, stream) := r.gets stream
    let (frames, stream) := calls n r stream
    (frame.toList ++ frames, stream)

end SerialReader

/-! ## `WifiProvider` -/

/-- The file parser of `WifiProvider`, the static variables of `gets` included. -/
structure WifiParser where
  currentState : ParseState := .waitHeader
  ptrXbuff : Nat := 0
  bytesNeeded : Nat := 2
  headerBuffer : UInt8 × UInt8 := (0, 0)
  footerBuffer : UInt8 × UInt8 := (0, 0)
  xbuff : Nat → UInt8 := fun _ => 0

namespace WifiParser

/-- `CheckFilePacket`, with `ptr_xbuff` back at 0 whatever comes out. -/
def checkFilePacket (w : WifiParser) : WifiParser × Option FileFrame :=
  ({ w with ptrXbuff := 0 },
    if crcMatches w.xbuff w.ptrXbuff = true ∧ w.xbuff 2 ∈ fileTypes then some (handOver w.xbuff)
    else none)

/-- One turn of the loop in `gets`; `some` when `gets` returns here, with or without a frame. -/
def byte (w : WifiParser) (byte : UInt8) : WifiParser × Option (Option FileFrame) :=
  match w.currentState with
  | .waitHeader =>
    let w := { w with headerBuffer := (w.headerBuffer.2, byte) }
    if be16 w.headerBuffer.1 w.headerBuffer.2 = header then
      ({ w with currentState := .readLength, bytesNeeded := 2, xbuff := fun _ => 0 }, none)
    else (w, none)
  | .readLength =>
    let w := { w with xbuff := Function.update w.xbuff w.ptrXbuff byte, ptrXbuff := w.ptrXbuff + 1 }
    if w.ptrXbuff ≥ xbuffLength then
      ({ w with ptrXbuff := 0, currentState := .waitHeader }, some none)
    else
      let w := { w with bytesNeeded := w.bytesNeeded - 1 }
      if w.bytesNeeded = 0 then
        let expectedLength := (be16 (w.xbuff 0) (w.xbuff 1)).toNat
        if 0 < expectedLength ∧ expectedLength ≤ xbuffLength then
          ({ w with currentState := .readData, bytesNeeded := expectedLength }, none)
        else ({ w with currentState := .waitHeader }, none)
      else (w, none)
  | .readData =>
    let w := { w with
      xbuff := Function.update w.xbuff w.ptrXbuff byte
      ptrXbuff := if w.ptrXbuff + 1 ≥ xbuffLength then xbuffLength - 1 else w.ptrXbuff + 1
      bytesNeeded := w.bytesNeeded - 1 }
    if w.bytesNeeded = 0 then ({ w with currentState := .checkFooter, bytesNeeded := 2 }, none)
    else (w, none)
  | .checkFooter =>
    let w := { w with
      footerBuffer := (w.footerBuffer.2, byte), bytesNeeded := w.bytesNeeded - 1 }
    if w.bytesNeeded = 0 then
      let w := { w with currentState := .waitHeader }
      if be16 w.footerBuffer.1 w.footerBuffer.2 = footer then
        let (w, frame) := w.checkFilePacket
        (w, some frame)
      else (w, none)
    else (w, none)

end WifiParser

/-- `WifiProvider` as `gets` sees it: the parser, the last chunk and where to go on in it. -/
structure WifiReader where
  parser : WifiParser := {}
  wifiData : List UInt8 := []
  ptrData : Nat := 0

namespace WifiReader

/-- The loop of `gets` over the bytes of the chunk from index `i` on. -/
def loop (r : WifiReader) (i : Nat) : List UInt8 → WifiReader × Option FileFrame
  | [] => (r, none)
  | b :: bs =>
    let ptrData := if bs = [] then 0 else i
    match r.parser.byte b with
    | (parser, some frame) => ({ r with parser := parser, ptrData := ptrData }, frame)
    | (parser, none) => { r with parser := parser, ptrData := ptrData }.loop (i + 1) bs

/-- `gets`; `link` holds the chunks the WiFi module has yet to deliver. -/
def gets (r : WifiReader) (link : List (List UInt8)) :
    WifiReader × Option FileFrame × List (List UInt8) :=
  if r.ptrData = 0 then
    match link with
    | [] => ({ r with wifiData := [] }, none, [])
    | chunk :: link =>
      let (r, frame) := { r with wifiData := chunk }.loop 0 chunk
      (r, frame, link)
  else
    let (r, frame) := r.loop r.ptrData (r.wifiData.drop r.ptrData)
    (r, frame, link)

/-- The frames of `n` calls of `gets`, and the reader and the link after them. -/
def calls : Nat → WifiReader → List (List UInt8) → List FileFrame × WifiReader × List (List UInt8)
  | 0, r, link => ([], r, link)
  | n + 1, r, link =>
    let (r, frame, link) := r.gets link
    let (frames, rest) := calls n r link
    (frame.toList ++ frames, rest)

end WifiReader

end CarveraFirmware.Transfers
