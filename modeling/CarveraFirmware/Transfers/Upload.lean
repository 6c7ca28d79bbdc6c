import Mathlib
import CarveraFirmware.Frames.Crc
import CarveraFirmware.Frames.Decoder
import CarveraFirmware.Library.Halting

/-!
# Uploading a file

`Player::upload_command` from the opening of its files to its two ends, for both protocols, over a
card that maps paths to contents. `qlz_decompress` is a parameter: the bytes a block decompresses
to, none where it fails. Messages to the controller and the timers are left out.
-/

namespace CarveraFirmware.Transfers

open Frames (be16)

abbrev FilePath := List Char

/-! ## Names -/

/-- `find`: the index of the first `pat` in a string. -/
def find (pat : List Char) : List Char → Option Nat
  | [] => if pat.isPrefixOf [] then some 0 else none
  | c :: s => if pat.isPrefixOf (c :: s) then some 0 else (find pat s).map (· + 1)

/-- `rfind`: the index of the last one. -/
def rfind (pat : List Char) : List Char → Option Nat
  | [] => if pat.isPrefixOf [] then some 0 else none
  | c :: s =>
    match rfind pat s with
    | some i => some (i + 1)
    | none => if pat.isPrefixOf (c :: s) then some 0 else none

/-- A string up to the first `pat` in it. -/
def cutAt (pat s : List Char) : List Char := s.take ((find pat s).getD s.length)

def lzSuffix : List Char := ['.', 'l', 'z']

-- the folders of the job files, of their MD5s and of their compressed copies
def gcodesName : FilePath := ['g', 'c', 'o', 'd', 'e', 's', '/']
def md5Folder : FilePath :=
  ['/', 's', 'd', '/', 'g', 'c', 'o', 'd', 'e', 's', '/', '.', 'm', 'd', '5', '/']
def lzFolder : FilePath :=
  ['/', 's', 'd', '/', 'g', 'c', 'o', 'd', 'e', 's', '/', '.', 'l', 'z', '/']

def sidecarRelativeName (origin : FilePath) : FilePath :=
  match find gcodesName origin with
  | some i => origin.drop (i + 7)
  | none =>
    match rfind ['/'] origin with
    | some i => origin.drop (i + 1)
    | none => origin

def changeToMd5Path (origin : FilePath) : FilePath := md5Folder ++ sidecarRelativeName origin

def changeToLzPath (origin : FilePath) : FilePath := lzFolder ++ sidecarRelativeName origin

/-- The upload is of a compressed file. -/
def isCompressed (filename : FilePath) : Bool := (find lzSuffix filename).isSome

/-- Where the compressed file goes: the path in the `.lz` folder up to its last `.lz`. -/
def lzFilename (filename : FilePath) : FilePath :=
  (changeToLzPath filename).take
    ((rfind lzSuffix (changeToLzPath filename)).getD (changeToLzPath filename).length)

/-- The path `fd` is opened at. -/
def dataPath (filename : FilePath) : FilePath :=
  if isCompressed filename then lzFilename filename else filename

def md5Filename (filename : FilePath) : FilePath := cutAt lzSuffix (changeToMd5Path filename)

/-- The file the upload is for: the decompressed one. -/
def desFilename (filename : FilePath) : FilePath := cutAt lzSuffix filename

/-! ## The card -/

/-- The files on the card, and which of them the run has opened for writing. -/
structure Card where
  content : FilePath → Option (List UInt8)
  written : FilePath → Bool := fun _ => false

namespace Card

/-- `fopen` for writing, where it succeeds. -/
def create (card : Card) (path : FilePath) : Card where
  content := Function.update card.content path (some [])
  written := Function.update card.written path true

def append (card : Card) (path : FilePath) (bytes : List UInt8) : Card :=
  { card with content := Function.update card.content path ((card.content path).map (· ++ bytes)) }

def remove (card : Card) (path : FilePath) : Card where
  content := Function.update card.content path none
  written := Function.update card.written path false

end Card

/-- How `decompress` reads and writes: how many of the `n` bytes asked for read and write number `k`
transfer, and what `qlz_decompress` makes of a block. -/
structure BlockIo where
  reads : Nat → Nat → Nat
  writes : Nat → Nat → Nat
  qlz : List UInt8 → List UInt8

/-- Every read and every write of a block is whole. -/
def BlockIo.whole (qlz : List UInt8 → List UInt8) : BlockIo := ⟨fun _ n => n, fun _ n => n, qlz⟩

/-- What the card and the file system let a run do, and what its buffers hold before. A path that
ends in a slash names no file. -/
structure Storage where
  opens : FilePath → Bool
  blocks : BlockIo
  xbuff : List UInt8 := []
  fbuff : List UInt8 := []

def Storage.canOpen (storage : Storage) (path : FilePath) : Bool :=
  path.getLast? != some '/' && storage.opens path

/-! ## Decompressing -/

/-- `u32BlockSize` from the four header bytes. -/
def blockSize (header : List UInt8) : Nat :=
  (header.getD 0 0).toNat * 2 ^ 24 + (header.getD 1 0).toNat * 2 ^ 16
    + (header.getD 2 0).toNat * 2 ^ 8 + (header.getD 3 0).toNat

/-- The variables of `decompress`: the input still to be read, the buffers and the sum. -/
structure Decompressing where
  input : List UInt8
  fbuff : List UInt8
  header : List UInt8 := [0, 0, 0, 0]
  xbuff : List UInt8 := []
  sum : UInt16 := 0
  count : Nat := 0
  output : List UInt8 := []

/-- `fread` of `n` bytes over what the buffer holds. -/
def fread (io : BlockIo) (k n : Nat) (buffer input : List UInt8) : List UInt8 × List UInt8 :=
  let taken := min (io.reads k n) (min n input.length)
  (input.take taken ++ buffer.drop taken, input.drop taken)

/-- The first bytes of the progress report that XMODEM uploads write over `fbuff`. -/
def progressText : List UInt8 := [0x23, 0x49]

/-- One block, and its size; `none` where the loop exits with an error. -/
def decompressBlock (io : BlockIo) (smoothie : Bool) (d : Decompressing) :
    Decompressing × Option Nat :=
  let (header, input) := fread io (2 * d.count) 4 d.header d.input
  let size := blockSize header
  if size = 0 then ({ d with input := input, header := header }, none)
  else
    let (xbuff, input) := fread io (2 * d.count + 1) size d.xbuff input
    let block := io.qlz (xbuff.take size)
    let d := { d with input := input, header := header, xbuff := xbuff }
    if block.length = 0 then (d, none)
    else
      ({ d with
        fbuff := if smoothie && (d.count + 1) % 11 == 0 then progressText
          else block ++ d.fbuff.drop block.length
        sum := block.foldl (fun sum byte => sum + byte.toUInt16) d.sum
        count := d.count + 1
        output := d.output ++ block.take (io.writes d.count block.length) }, some size)

/-- The last two bytes are the sum. -/
def checkSum (io : BlockIo) (d : Decompressing) : Decompressing × Bool :=
  let (bytes, input) := fread io (2 * d.count) 2 d.fbuff d.input
  ({ d with input := input }, d.sum == be16 (bytes.getD 0 0) (bytes.getD 1 0))

/-- The counter `i` of the loop, and the other variables. -/
structure Unpacking where
  i : UInt32
  d : Decompressing

/-- One turn of the loop, or the check of the sum behind it. -/
def Unpacking.turn (io : BlockIo) (smoothie : Bool) (bound : UInt32) (u : Unpacking) :
    Unpacking ⊕ Bool :=
  if u.i < bound then
    match decompressBlock io smoothie u.d with
    | (_, none) => .inr false
    | (d, some size) => .inl ⟨u.i + (4 + UInt32.ofNat size), d⟩
  else .inr (checkSum io u.d).2

/-- So many turns the loop takes at most, if it ends: once the input is used up, they are all alike, and
`i` comes back to where it was. -/
def mostTurns (input : List UInt8) : Nat := 2 ^ 32 + 1 + input.length

/-- The blocks and the sum of a file of `sfilesize` bytes: where the loop ends, and the result. -/
def decompressInput (storage : Storage) (smoothie : Bool) (sfilesize : UInt32)
    (xbuff input : List UInt8) : Option (Unpacking × Bool) :=
  haltsWithin (Unpacking.turn storage.blocks smoothie (sfilesize - 2)) (mostTurns input)
    ⟨0, { input := input, fbuff := storage.fbuff, xbuff := xbuff }⟩

/-- `decompress(sfilename, dfilename, sfilesize)`; the result is missing where the loop runs on. -/
def decompress (storage : Storage) (smoothie : Bool) (xbuff : List UInt8) (card : Card)
    (sfilename dfilename : FilePath) (sfilesize : UInt32) : Option Bool × Card :=
  let source := if storage.canOpen sfilename then card.content sfilename else none
  let made := storage.canOpen dfilename
  let card := if made then card.create dfilename else card
  match source with
  | none => (some false, card)
  | some input =>
    if !made then (some false, card)
    else
      match decompressInput storage smoothie sfilesize xbuff input with
      | some (u, ok) => (some ok, card.append dfilename u.d.output)
      | none => (none, card)

/-! ## Receiving -/

/-- What both protocols keep: the card, which files are open, and the bytes stored. -/
structure Receiving where
  card : Card
  fdOpen : Bool := false
  md5Open : Bool := false
  filesize : UInt32 := 0

inductive Turn where
  | goesOn
  | uploadError
  | uploadSuccess
  deriving DecidableEq

def maxRetrans : Nat := 50
def retryTime : Nat := 50

namespace Receiving

/-- `fwrite` to `fd` of `bytes`. The card takes all of them, or only the first `stored`. -/
def writeData (r : Receiving) (filename : FilePath) (bytes : List UInt8) (stored : Option Nat) :
    Receiving :=
  if r.fdOpen then
    { r with card := r.card.append (dataPath filename) (bytes.take (stored.getD bytes.length)) }
  else r

def writeMd5 (r : Receiving) (filename : FilePath) (bytes : List UInt8) (stored : Option Nat) :
    Receiving :=
  if r.md5Open then
    { r with card := r.card.append (md5Filename filename) (bytes.take (stored.getD bytes.length)) }
  else r

end Receiving

/-- What one round of the XMODEM loop gets: nothing before the retries run out, an end, a cancel, or
a block of which `received` arrived after its first byte. -/
inductive XmodemInput where
  | silence
  | eot
  | can
  | block (isStx : Bool) (received : List UInt8) (stored : Option Nat)

/-- `bufsz` and `is_stx` of the two packet sizes. -/
def bufsz (isStx : Bool) : Nat := if isStx then 8192 else 128

def stx (isStx : Bool) : Nat := if isStx then 1 else 0

structure Xmodem where
  trychar : UInt8 := 67
  crc : Bool := false
  packetno : UInt8 := 1
  retrans : Int := maxRetrans
  md5Received : Bool := false
  xbuff : List UInt8 := []

namespace Xmodem

/-- `check_crc(crc, data, len)`. -/
def checkCrc (crc : Bool) (data : List UInt8) (len : Nat) : Bool :=
  if crc then Crc.ccitt (data.take len) == be16 (data.getD len 0) (data.getD (len + 1) 0)
  else (data.take len).foldl (· + ·) 0 == data.getD len 0

def reject (x : Xmodem) : Xmodem × Turn :=
  let retrans := x.retrans - 1
  ({ x with retrans := retrans }, if retrans ≤ 0 then .uploadError else .goesOn)

def round (filename : FilePath) (r : Receiving) (x : Xmodem) : XmodemInput → Receiving × Xmodem × Turn
  | .silence =>
    if x.trychar = 67 then (r, { x with trychar := 0x15 }, .goesOn) else (r, x, .uploadError)
  | .eot => (r, x, .uploadSuccess)
  | .can => (r, x, .uploadError)
  | .block isStx received stored =>
    let crc := x.crc || x.trychar == 67
    let recvCount := 1 + bufsz isStx + (if crc then 1 else 0) + 3 + stx isStx
    let got := (if isStx then 2 else 1) :: received.take recvCount
    let x := { x with crc := crc, trychar := 0, xbuff := got ++ x.xbuff.drop got.length }
    if received.length < recvCount then (r, x.reject)
    else
      let at_ (i : Nat) := x.xbuff.getD i 0
      let len := if isStx then (be16 (at_ 3) (at_ 4)).toNat else (at_ 3).toNat
      let sound := checkCrc crc (x.xbuff.drop 3) (bufsz isStx + 1 + stx isStx)
      if !x.md5Received && at_ 1 == 0 && at_ 1 == ~~~(at_ 2) && sound && len == 32 then
        (r.writeMd5 filename ((x.xbuff.drop (4 + stx isStx)).take 32) stored,
          { x with md5Received := true }, .goesOn)
      else if at_ 1 == ~~~(at_ 2) && at_ 1 == x.packetno && sound then
        ({ r.writeData filename ((x.xbuff.drop (4 + stx isStx)).take len) stored with
            filesize := r.filesize + UInt32.ofNat len },
          { x with packetno := x.packetno + 1, retrans := maxRetrans + 1 }, .goesOn)
      else (r, x.reject)

end Xmodem

/-- What one round of the framed loop gets: a frame, as `gets()` hands it over, or nothing. -/
inductive MakeraInput where
  | frame (cmdType : UInt8) (recvBuff : List UInt8) (stored : Option Nat)
  | silence (connected : Bool)

inductive FileRcvState where
  | waitMd5 | waitFileView | readFileData
  deriving DecidableEq

structure Makera where
  state : FileRcvState := .waitMd5
  retry : Nat := 0
  tatalretry : Nat := 0
  totalPacket : UInt32 := 0
  sequence : UInt32 := 0

namespace Makera

def be32 (bytes : List UInt8) (i : Nat) : UInt32 :=
  (bytes.getD i 0).toUInt32 <<< 24 ||| (bytes.getD (i + 1) 0).toUInt32 <<< 16
    ||| (bytes.getD (i + 2) 0).toUInt32 <<< 8 ||| (bytes.getD (i + 3) 0).toUInt32

/-- A round that reaches the end of the loop gives up after too many retries. -/
def giveUp (m : Makera) : Turn := if m.tatalretry > maxRetrans then .uploadError else .goesOn

/-- A frame that is not the one awaited: the last request is sent again now and then. -/
def notAwaited (m : Makera) : Makera × Turn :=
  if m.retry + 1 > retryTime then
    let m := { m with retry := 0, tatalretry := m.tatalretry + 1 }
    (m, m.giveUp)
  else ({ m with retry := m.retry + 1 }, .goesOn)

/-- A data frame with the awaited sequence number. -/
def dataFrame (filename : FilePath) (r : Receiving) (m : Makera) (recvBuff : List UInt8)
    (stored : Option Nat) : Receiving × Makera × Turn :=
  let dataLen := (be16 (recvBuff.getD 0 0) (recvBuff.getD 1 0) - 7).toNat
  let data := (recvBuff.drop 7).take dataLen
  if dataLen > 8192 then (r, m, m.giveUp)
  else
    let r' := r.writeData filename data stored
    if stored.any (· < dataLen) then (r', m, m.giveUp)
    else
      let r' := { r' with filesize := r.filesize + UInt32.ofNat dataLen }
      if m.sequence < m.totalPacket then
        (r', { m with sequence := m.sequence + 1, retry := 0, tatalretry := 0 }, .goesOn)
      else (r', { m with state := .waitMd5, retry := 0 }, .uploadSuccess)

def round (filename : FilePath) (r : Receiving) (m : Makera) : MakeraInput → Receiving × Makera × Turn
  | .frame cmdType recvBuff stored =>
    if cmdType = 0xB5 then (r, { m with state := .waitMd5, retry := 0 }, .uploadError)
    else
      match m.state with
      | .waitMd5 =>
        if cmdType = 0xB1 then
          let m := { m with state := .waitFileView, retry := 0, tatalretry := 0 }
          (r.writeMd5 filename ((recvBuff.drop 3).take 32) stored, m, m.giveUp)
        else (r, m.notAwaited)
      | .waitFileView =>
        if cmdType = 0xB2 then
          let m := { m with
            totalPacket := be32 recvBuff 3
            sequence := 1
            state := .readFileData
            retry := 0
            tatalretry := 0 }
          (r, m, m.giveUp)
        else (r, m.notAwaited)
      | .readFileData =>
        if cmdType = 0xB3 ∧ be32 recvBuff 3 = m.sequence then dataFrame filename r m recvBuff stored
        else (r, m.notAwaited)
  | .silence connected =>
    let retry := m.retry + 1
    if retry % retryTime = 0 ∧ !connected then (r, { m with retry := retry }, .uploadError)
    else
      let m := if retry > retryTime * 10 then
          { m with retry := retryTime, tatalretry := m.tatalretry + 1 }
        else { m with retry := retry }
      (r, m, m.giveUp)

end Makera

/-! ## The command -/

inductive UploadEnd where
  | error
  | success
  /-- The inputs given do not end the upload, or its decompression goes on. -/
  | running
  deriving DecidableEq

/-- `upload_error`: what is open is closed and removed. -/
def uploadError (filename : FilePath) (r : Receiving) : UploadEnd × Card :=
  let card := if r.fdOpen then r.card.remove filename else r.card
  (.error, if r.md5Open then card.remove (md5Filename filename) else card)

/-- `upload_success`: both files are closed, and a compressed one is decompressed. -/
def uploadSuccess (storage : Storage) (smoothie : Bool) (filename : FilePath) (xbuff : List UInt8)
    (r : Receiving) : UploadEnd × Card :=
  let r := { r with fdOpen := false, md5Open := false }
  if isCompressed filename then
    match decompress storage smoothie xbuff r.card (lzFilename filename) (desFilename filename)
        r.filesize with
    | (some true, card) => (.success, card)
    | (some false, card) => uploadError filename { r with card := card }
    | (none, card) => (.running, card)
  else (.success, r.card)

/-- The rounds of a protocol up to the one that ends the upload. -/
def rounds {σ ι : Type} (step : Receiving → σ → ι → Receiving × σ × Turn)
    (success : σ → Receiving → UploadEnd × Card) (filename : FilePath) :
    Receiving → σ → List ι → UploadEnd × Card
  | r, _, [] => (.running, r.card)
  | r, s, input :: inputs =>
    match step r s input with
    | (r, s, .goesOn) => rounds step success filename r s inputs
    | (r, _, .uploadError) => uploadError filename r
    | (r, s, .uploadSuccess) => success s r

inductive Session where
  | smoothie (inputs : List XmodemInput)
  | makera (inputs : List MakeraInput)

/-- Whether the session stores an MD5: XMODEM has none for the firmware. -/
def Session.needsMd5 (session : Session) (filename : FilePath) : Bool :=
  match session with
  | .smoothie _ => (find "firmware.bin".toList filename).isNone
  | .makera _ => true

/-- The files the command opens. -/
def openFiles (storage : Storage) (card : Card) (filename : FilePath) (needsMd5 : Bool) : Receiving :=
  let fdOpen := storage.canOpen (dataPath filename)
  let md5Open := needsMd5 && storage.canOpen (md5Filename filename)
  let card := if fdOpen then card.create (dataPath filename) else card
  { card := if md5Open then card.create (md5Filename filename) else card
    fdOpen := fdOpen
    md5Open := md5Open }

/-- `upload_command` once the gate lets it run. -/
def uploadCommand (storage : Storage) (card : Card) (filename : FilePath) (session : Session) :
    UploadEnd × Card :=
  let needsMd5 := session.needsMd5 filename
  let r := openFiles storage card filename needsMd5
  if !r.fdOpen || (needsMd5 && !r.md5Open) then uploadError filename r
  else
    match session with
    | .smoothie inputs =>
      rounds (Xmodem.round filename) (fun x => uploadSuccess storage true filename x.xbuff) filename r
        { xbuff := storage.xbuff } inputs
    | .makera inputs =>
      rounds (Makera.round filename) (fun _ => uploadSuccess storage false filename storage.xbuff)
        filename r {} inputs

end CarveraFirmware.Transfers
