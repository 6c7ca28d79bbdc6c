import Mathlib
import CarveraFirmware.Transfers.Decompress
import CarveraFirmware.Transfers.XmodemSession

/-!
# Downloading what was uploaded

`download_command` prefers the compressed copy of a file, and the MD5 beside it, to the file itself.
A history of uploads keeps the two in step as long as no upload leaves a copy, an MD5 or a removed
file of an earlier one behind. What an upload is of is what its sender sends.
-/

namespace CarveraFirmware.Transfers

/-- A hexadecimal digit, in either case. -/
def isHexDigit (c : UInt8) : Bool :=
  let c := if 65 ≤ c && c ≤ 70 then c + 32 else c
  (48 ≤ c && c ≤ 57) || (97 ≤ c && c ≤ 102)

/-- `md5_digest_usable`. -/
def md5DigestUsable (s : List UInt8) : Bool := (List.range 32).all fun i => isHexDigit (s.getD i 0)

/-- `fill_md5_from_path`, with the MD5 of a content as a parameter. -/
def fillMd5FromPath (hexdigest : List UInt8 → List UInt8) (card : Card) (path : FilePath) :
    List UInt8 :=
  ((card.content path).map hexdigest).getD []

/-- `download_command` once the gate lets it run: the MD5 and the data it sends. -/
def downloadCommand (hexdigest : List UInt8 → List UInt8) (card : Card) (filename : FilePath) :
    Option (List UInt8 × List UInt8) :=
  let md5 := ((card.content (changeToMd5Path filename)).map (·.take 64)).getD []
  let md5 := if md5DigestUsable md5 then md5 else fillMd5FromPath hexdigest card filename
  match card.content (changeToLzPath filename) with
  | some data => some (md5, data)
  | none => (card.content filename).map fun data => (md5, data)

/-! ## Histories -/

/-- An upload, by a sender that sends `content`. -/
structure UploadRun where
  storage : Storage
  filename : FilePath
  session : Session
  sending : Sending
  content : List UInt8

/-- What an upload was of: the content sent, decompressed, and the MD5 sent with it. -/
structure Sent where
  content : List UInt8
  md5 : Option (List UInt8)
  deriving DecidableEq

/-- The card, and for each path the last upload to it that succeeded. -/
structure History where
  card : Card
  last : FilePath → Option Sent := fun _ => none

namespace UploadRun

variable (run : UploadRun)

def result (card : Card) : UploadEnd × Card :=
  uploadCommand run.storage { card with written := fun _ => false } run.filename run.session

/-- The bytes sent, which for a compressed upload are those of the compressed file. -/
def data : List UInt8 := run.sending.packets.flatten

def sent : Sent where
  content := run.content
  md5 := if run.session.needsMd5 run.filename then some run.sending.md5 else none

def step (h : History) : History where
  card := (run.result h.card).2
  last := if (run.result h.card).1 = .success then
      Function.update h.last (desFilename run.filename) (some run.sent)
    else h.last

end UploadRun

def History.runs (card : Card) (runs : List UploadRun) : History :=
  runs.foldl (fun h run => run.step h) { card := card }

/-- The MD5 a download owes: the one sent, or if that is not usable the one of the content. -/
def Sent.digest (hexdigest : List UInt8 → List UInt8) (sent : Sent) : List UInt8 :=
  let md5 := (sent.md5.map (·.take 64)).getD []
  if md5DigestUsable md5 then md5 else hexdigest sent.content

/-- A download of `path` is of what was sent. -/
def Serves (qlz : QuickLz) (hexdigest : List UInt8 → List UInt8) (card : Card) (path : FilePath)
    (sent : Sent) : Prop :=
  ∃ data, downloadCommand hexdigest card path = some (sent.digest hexdigest, data) ∧
    (data = sent.content ∨ LzFile qlz data sent.content)

/-! ## Orderly uploads -/

/-- The inputs of the session come from a sender that follows the protocol. -/
def Session.Conforms (sending : Sending) : Session → Prop
  | .smoothie inputs => Follows sending true 0 inputs
  | .makera inputs => ∀ input ∈ inputs, FromController sending input

/-- Everything comes before the receiver gives up. -/
def Session.Through (sending : Sending) : Session → Prop
  | .smoothie inputs => XmodemThrough sending true 0 (maxRetrans - 1) inputs ∨
      ∃ rest, inputs = .silence :: rest ∧ XmodemThrough sending false 0 (maxRetrans - 1) rest
  | .makera inputs => FramedThrough sending.packets.length 0 patience inputs

/-- The paths of a file: itself, its compressed copy and its MD5. -/
def filePaths (path : FilePath) : List FilePath := [path, changeToLzPath path, changeToMd5Path path]

/-- The compressed copy and the MD5 are those of the target, which fails only where `.lz` is not the
one ending of the name. -/
structure RegularName (filename : FilePath) : Prop where
  md5 : md5Filename filename = changeToMd5Path (desFilename filename)
  lz : isCompressed filename = true → lzFilename filename = changeToLzPath (desFilename filename)

/-- What an upload may write or remove. -/
def touchedPaths (filename : FilePath) : List FilePath :=
  [filename, dataPath filename, desFilename filename, md5Filename filename]

/-- The files of an upload can be written. -/
structure Storage.Admits (storage : Storage) (filename : FilePath) (needsMd5 : Bool) : Prop where
  data : storage.canOpen (dataPath filename) = true
  des : storage.canOpen (desFilename filename) = true
  md5 : needsMd5 = true → storage.canOpen (md5Filename filename) = true

/-- None of the files that it opens can be written. -/
structure Storage.Refuses (storage : Storage) (filename : FilePath) (needsMd5 : Bool) : Prop where
  data : storage.canOpen (dataPath filename) = false
  md5 : needsMd5 = true → storage.canOpen (md5Filename filename) = false

/-- The session is one of a sender, and the data sent is the content, or a compressed file of it. -/
def UploadRun.Sends (qlz : QuickLz) (run : UploadRun) : Prop :=
  run.session.Conforms run.sending ∧
    if isCompressed run.filename then LzFile qlz run.data run.content else run.data = run.content

/-- The uploads of a history that do not spoil what is there. -/
structure Orderly (qlz : QuickLz) (h : History) (run : UploadRun) : Prop where
  /-- The card reads and writes the blocks of a compressed file whole. -/
  blocks : run.storage.blocks = BlockIo.whole qlz.decompress
  sends : run.Sends qlz
  count : run.sending.packets.length < 2 ^ 32
  size : run.data.length < 2 ^ 32
  name : RegularName run.filename
  /-- A plain upload finds no compressed copy of its target. -/
  noCopy : isCompressed run.filename = false →
    h.card.content (changeToLzPath run.filename) = none
  /-- An upload that stores no MD5 finds none. -/
  noMd5 : run.session.needsMd5 run.filename = false → h.card.content (md5Filename run.filename) = none
  /-- Other files that were uploaded share no path with this one. -/
  apart : ∀ path sent, h.last path = some sent → path ≠ desFilename run.filename →
    ∀ p ∈ filePaths path, p ∉ touchedPaths run.filename
  /-- An upload to where there is one already can write its files and gets through, or it opens none. -/
  through : h.last (desFilename run.filename) = none ∨
    (run.storage.Admits run.filename (run.session.needsMd5 run.filename) ∧
      run.session.Through run.sending) ∨
    run.storage.Refuses run.filename (run.session.needsMd5 run.filename)

/-! ## What an upload leaves alone -/

section

variable {storage : Storage} {card : Card} {filename path : FilePath}

theorem openFiles_frame {needsMd5 : Bool}
    (h : ¬ Touches filename (openFiles storage card filename needsMd5) path) :
    (openFiles storage card filename needsMd5).card.content path = card.content path :=
  (content_create_if _ fun hopen heq => h (.inr ⟨hopen, heq⟩)).trans
    (content_create_if _ fun _ heq => h (.inl heq))

theorem uploadError_frame {r : Receiving} (hname : path ≠ filename)
    (hmd5 : path ≠ md5Filename filename) :
    (uploadError filename r).2.content path = r.card.content path :=
  (content_remove_if _ fun _ => hmd5).trans (content_remove_if _ fun _ => hname)

theorem decompress_frame (smoothie : Bool) (xbuff : List UInt8) (source : FilePath) (size : UInt32)
    {target : FilePath} (h : path ≠ target) :
    (decompress storage smoothie xbuff card source target size).2.content path = card.content path := by
  have hmade : (if storage.canOpen target then card.create target else card).content path
      = card.content path := content_create_if _ fun _ => h
  simp only [decompress]
  split
  · exact hmade
  · split
    · exact hmade
    · split
      · rw [Card.append_content_of_ne h, hmade]
      · exact hmade

theorem uploadSuccess_frame {r : Receiving} (smoothie : Bool) (xbuff : List UInt8)
    (hname : path ≠ filename) (hdes : path ≠ desFilename filename) (hmd5 : path ≠ md5Filename filename) :
    (uploadSuccess storage smoothie filename xbuff r).2.content path = r.card.content path := by
  simp only [uploadSuccess]
  split
  · have hplain := @decompress_frame storage r.card path smoothie xbuff (lzFilename filename) r.filesize
      _ hdes
    split
    · rename_i heq
      rwa [heq] at hplain
    · rename_i heq
      rw [heq] at hplain
      rw [uploadError_frame hname hmd5]
      exact hplain
    · rename_i heq
      rwa [heq] at hplain
  · rfl

/-- An upload changes its own paths only. -/
theorem uploadCommand_frame (session : Session) (h : path ∉ touchedPaths filename) :
    (uploadCommand storage card filename session).2.content path = card.content path := by
  simp only [touchedPaths, List.mem_cons, List.not_mem_nil, or_false, not_or] at h
  obtain ⟨hname, hdata, hdes, hmd5⟩ := h
  have hfree : ∀ r, ¬ Touches filename r path :=
    fun r htouch => htouch.elim hdata fun hm => hmd5 hm.2
  obtain ⟨r', smoothie, xbuff, hsame, hrun | herror | ⟨-, hsuccess⟩⟩ :=
    @uploadCommand_cases storage card filename session
  all_goals
    have hkept := (hsame.frame path (hfree _)).trans (openFiles_frame (hfree _))
  · rw [hrun, hkept]
  · rw [herror, uploadError_frame hname hmd5, hkept]
  · rw [hsuccess, uploadSuccess_frame smoothie xbuff hname hdes hmd5, hkept]

/-- An upload that can open nothing changes nothing. -/
theorem uploadCommand_refused {session : Session}
    (h : storage.Refuses filename (session.needsMd5 filename)) :
    uploadCommand storage card filename session = (.error, card) := by
  have hmd5 : (session.needsMd5 filename && storage.canOpen (md5Filename filename)) = false := by
    cases hneeds : session.needsMd5 filename with
    | false => rfl
    | true => exact h.md5 hneeds
  have hnone : openFiles storage card filename (session.needsMd5 filename) = { card := card } := by
    simp [openFiles, h.data, hmd5]
  have hloop : uploadCommand storage card filename session =
      uploadError filename (openFiles storage card filename (session.needsMd5 filename)) :=
    if_pos (by rw [hnone]; rfl)
  rw [hloop, hnone]
  rfl

/-! ## What the sessions leave -/

/-- The session of an upload ended with everything stored. -/
structure Completes (storage : Storage) (card : Card) (filename : FilePath) (session : Session)
    (sending : Sending) (r : Receiving) (smoothie : Bool) (xbuff : List UInt8) : Prop where
  same : SameFiles filename (openFiles storage card filename (session.needsMd5 filename)) r
  stored : Stored filename r sending.packets.flatten sending.md5
  ends : uploadCommand storage card filename session = uploadSuccess storage smoothie filename xbuff r
  data : storage.canOpen (dataPath filename) = true
  md5 : session.needsMd5 filename = true → storage.canOpen (md5Filename filename) = true

theorem dataPath_ne_of_canOpen (h : storage.canOpen (dataPath filename) = true) :
    dataPath filename ≠ md5Filename filename := by
  simp only [Storage.canOpen, Bool.and_eq_true, bne_iff_ne] at h
  exact dataPath_ne_md5Filename h.1

variable {session : Session} {sending : Sending}

/-- The command goes into the receive loop exactly where its files can be opened. -/
theorem uploadCommand_opened :
    (!(openFiles storage card filename (session.needsMd5 filename)).fdOpen ||
      (session.needsMd5 filename &&
        !(openFiles storage card filename (session.needsMd5 filename)).md5Open)) = false ↔
    storage.canOpen (dataPath filename) = true ∧
      (session.needsMd5 filename = true → storage.canOpen (md5Filename filename) = true) := by
  simp only [openFiles]
  cases session.needsMd5 filename with
  | false => simp
  | true => simp

/-- A sender that follows the protocol has everything stored, if the upload succeeds. -/
theorem completes_of_success (hconforms : session.Conforms sending)
    (hcount : sending.packets.length < 2 ^ 32)
    (hsuccess : (uploadCommand storage card filename session).1 = .success) :
    ∃ r smoothie xbuff, Completes storage card filename session sending r smoothie xbuff := by
  by_cases hopened : (!(openFiles storage card filename (session.needsMd5 filename)).fdOpen ||
      (session.needsMd5 filename &&
        !(openFiles storage card filename (session.needsMd5 filename)).md5Open)) = true
  · have herror : uploadCommand storage card filename session = uploadError filename _ := if_pos hopened
    simp [herror, uploadError] at hsuccess
  obtain ⟨hdata, hmd5⟩ := uploadCommand_opened.mp (Bool.not_eq_true _ ▸ hopened)
  have hne := dataPath_ne_of_canOpen hdata
  have hstored := @stored_openFiles filename storage card (session.needsMd5 filename) hne hdata
  cases session with
  | smoothie inputs =>
    have hloop : uploadCommand storage card filename (.smoothie inputs) = _ := if_neg hopened
    obtain ⟨r', -, hend⟩ | ⟨r', -, hend⟩ | ⟨x', r', ⟨hsame, hall⟩, hend⟩ := Xmodem.rounds_stored
      (fun x => uploadSuccess storage true filename x.xbuff) hne hstored hconforms storage.xbuff
    · simp [hloop, hend] at hsuccess
    · simp [hloop, hend, uploadError] at hsuccess
    · exact ⟨r', true, x'.xbuff, hsame, hall, hloop.trans hend, hdata, hmd5⟩
  | makera inputs =>
    have hloop : uploadCommand storage card filename (.makera inputs) = _ := if_neg hopened
    obtain ⟨r', -, hend⟩ | ⟨r', -, hend⟩ | ⟨m', r', ⟨hsame, hall⟩, hend⟩ := Makera.rounds_stored
      (fun _ => uploadSuccess storage false filename storage.xbuff) hcount hne hstored hconforms
    · simp [hloop, hend] at hsuccess
    · simp [hloop, hend, uploadError] at hsuccess
    · exact ⟨r', false, storage.xbuff, hsame, hall, hloop.trans hend, hdata, hmd5⟩

/-- A session that gets through comes to the end of the upload. -/
theorem completes_of_through (hconforms : session.Conforms sending)
    (hcount : sending.packets.length < 2 ^ 32)
    (hadmits : storage.Admits filename (session.needsMd5 filename)) (hthrough : session.Through sending) :
    ∃ r smoothie xbuff, Completes storage card filename session sending r smoothie xbuff := by
  have hopened := (@uploadCommand_opened storage card filename session).mpr ⟨hadmits.data, hadmits.md5⟩
  have hopened := Bool.not_eq_true _ ▸ hopened
  have hne := dataPath_ne_of_canOpen hadmits.data
  have hstored := @stored_openFiles filename storage card (session.needsMd5 filename) hne hadmits.data
  cases session with
  | smoothie inputs =>
    have hloop : uploadCommand storage card filename (.smoothie inputs) = _ := if_neg hopened
    obtain hcrc | ⟨rest, rfl, hsum⟩ := hthrough
    · obtain ⟨x', r', ⟨hsame, hall⟩, hend⟩ := Xmodem.rounds_through
        (fun x => uploadSuccess storage true filename x.xbuff) hne
        (Xmodem.stage_zero hstored storage.xbuff) rfl hcrc
      exact ⟨r', true, x'.xbuff, hsame, hall, hloop.trans hend, hadmits.data, hadmits.md5⟩
    · -- the first silence leaves the loop with sums for checks
      have hsilent : Xmodem.Stage sending filename false 0 _
          { trychar := 0x15, xbuff := storage.xbuff } := ⟨hstored, rfl, fun _ => rfl, rfl, rfl⟩
      obtain ⟨x', r', ⟨hsame, hall⟩, hend⟩ := Xmodem.rounds_through
        (fun x => uploadSuccess storage true filename x.xbuff) hne hsilent rfl hsum
      exact ⟨r', true, x'.xbuff, hsame, hall, hloop.trans hend, hadmits.data, hadmits.md5⟩
  | makera inputs =>
    have hloop : uploadCommand storage card filename (.makera inputs) = _ := if_neg hopened
    obtain ⟨m', r', ⟨hsame, hall⟩, hend⟩ := Makera.rounds_through
      (fun _ => uploadSuccess storage false filename storage.xbuff) hcount hne hstored hconforms hthrough
    exact ⟨r', false, storage.xbuff, hsame, hall, hloop.trans hend, hadmits.data, hadmits.md5⟩

/-! ## What a successful upload leaves -/

theorem desFilename_plain (h : isCompressed filename = false) : desFilename filename = filename := by
  have hnone : find lzSuffix filename = none := by simpa [isCompressed] using h
  rw [desFilename, cutAt, hnone, Option.getD_none, List.take_length]

/-- With a compressed file stored, the upload makes its content, if it can make a file there. -/
theorem uploadSuccess_compressed {qlz : QuickLz} {r : Receiving} {data content : List UInt8}
    (hlz : isCompressed filename = true) (hdata : r.card.content (dataPath filename) = some data)
    (hfilesize : r.filesize = UInt32.ofNat data.length)
    (hopen : storage.canOpen (dataPath filename) = true)
    (hfile : LzFile qlz data content) (hblocks : storage.blocks = BlockIo.whole qlz.decompress)
    (hsize : data.length < 2 ^ 32) (smoothie : Bool) (xbuff : List UInt8) :
    uploadSuccess storage smoothie filename xbuff r =
      if storage.canOpen (desFilename filename) then
        (.success, (r.card.create (desFilename filename)).append (desFilename filename) content)
      else (.error, r.card) := by
  have hpath : dataPath filename = lzFilename filename := if_pos hlz
  rw [hpath] at hdata hopen
  obtain ⟨u, hend, rfl⟩ := hfile.decompressInput hblocks hsize smoothie xbuff
  simp only [uploadSuccess, hlz, if_true, decompress, hopen, hdata, hfilesize]
  by_cases hmade : storage.canOpen (desFilename filename) = true
  · simp [hmade, hend]
  · simp [hmade, uploadError]

end

/-- What the card holds of a file that was uploaded. -/
structure Holds (qlz : QuickLz) (card : Card) (path : FilePath) (sent : Sent) : Prop where
  plain : card.content path = some sent.content
  copy : card.content (changeToLzPath path) = none ∨
    ∃ data, card.content (changeToLzPath path) = some data ∧ LzFile qlz data sent.content
  md5 : card.content (changeToMd5Path path) = sent.md5

theorem Holds.serves {qlz : QuickLz} {card : Card} {path : FilePath} {sent : Sent}
    (h : Holds qlz card path sent) (hexdigest : List UInt8 → List UInt8) :
    Serves qlz hexdigest card path sent := by
  have hfill : fillMd5FromPath hexdigest card path = hexdigest sent.content := by
    simp [fillMd5FromPath, h.plain]
  obtain hnone | ⟨data, hdata, hfile⟩ := h.copy
  · refine ⟨sent.content, ?_, .inl rfl⟩
    simp only [downloadCommand, hnone, h.md5, hfill, h.plain, Option.map_some]
    rfl
  · refine ⟨data, ?_, .inr hfile⟩
    simp only [downloadCommand, hdata, h.md5, hfill]
    rfl

theorem Holds.of_content {qlz : QuickLz} {card card' : Card} {path : FilePath} {sent : Sent}
    (h : Holds qlz card path sent)
    (hsame : ∀ p ∈ filePaths path, card'.content p = card.content p) : Holds qlz card' path sent := by
  refine ⟨?_, ?_, ?_⟩
  · rw [hsame path (by simp [filePaths]), h.plain]
  · rw [hsame (changeToLzPath path) (by simp [filePaths])]
    exact h.copy
  · rw [hsame (changeToMd5Path path) (by simp [filePaths]), h.md5]

namespace UploadRun

variable {qlz : QuickLz} {run : UploadRun} {h : History} {r : Receiving} {smoothie : Bool}
  {xbuff : List UInt8}

/-- The session of the run ended with everything stored. -/
abbrev Ends (run : UploadRun) (h : History) (r : Receiving) (smoothie : Bool) (xbuff : List UInt8) :
    Prop :=
  Completes run.storage { h.card with written := fun _ => false } run.filename run.session run.sending r
    smoothie xbuff

/-- The MD5 there is the one that was sent. -/
theorem md5_of_ends (horderly : Orderly qlz h run) (hends : run.Ends h r smoothie xbuff) :
    r.card.content (md5Filename run.filename) = run.sent.md5 := by
  cases hneeds : run.session.needsMd5 run.filename with
  | true =>
    have hopen : r.md5Open = true := by
      rw [hends.same.md5Open]
      simp [openFiles, hneeds, hends.md5 hneeds]
    rw [hends.stored.md5 hopen, sent, if_pos hneeds]
  | false =>
    have hfree : ¬ Touches run.filename (openFiles run.storage { h.card with written := fun _ => false }
        run.filename (run.session.needsMd5 run.filename)) (md5Filename run.filename) := by
      rintro (heq | ⟨hmade, -⟩)
      · exact dataPath_ne_of_canOpen hends.data heq.symm
      · simp [openFiles, hneeds] at hmade
    rw [hends.same.frame _ hfree, openFiles_frame hfree, sent, hneeds]
    exact horderly.noMd5 hneeds

theorem result_plain (hplain : isCompressed run.filename = false) (hends : run.Ends h r smoothie xbuff) :
    run.result h.card = (.success, r.card) := by
  rw [result, hends.ends, uploadSuccess, hplain]
  rfl

theorem result_compressed (horderly : Orderly qlz h run) (hlz : isCompressed run.filename = true)
    (hends : run.Ends h r smoothie xbuff) :
    run.result h.card =
      if run.storage.canOpen (desFilename run.filename) then
        (.success,
          (r.card.create (desFilename run.filename)).append (desFilename run.filename) run.content)
      else (.error, r.card) := by
  have hfile := horderly.sends.2
  rw [if_pos hlz] at hfile
  rw [result, hends.ends]
  exact uploadSuccess_compressed hlz hends.stored.content hends.stored.filesize hends.data hfile
    horderly.blocks horderly.size smoothie xbuff

/-- A session that gets through, with files that can be written, is a success. -/
theorem success_of_through (horderly : Orderly qlz h run)
    (hadmits : run.storage.Admits run.filename (run.session.needsMd5 run.filename))
    (hthrough : run.session.Through run.sending) : (run.result h.card).1 = .success := by
  obtain ⟨r, smoothie, xbuff, hends⟩ := completes_of_through horderly.sends.1 horderly.count hadmits
    hthrough
  have hends : run.Ends h r smoothie xbuff := hends
  cases hlz : isCompressed run.filename with
  | false => rw [result_plain hlz hends]
  | true => rw [result_compressed horderly hlz hends, if_pos hadmits.des]

/-- What a successful upload leaves is what was sent. -/
theorem holds_of_success (horderly : Orderly qlz h run) (hsuccess : (run.result h.card).1 = .success) :
    Holds qlz (run.result h.card).2 (desFilename run.filename) run.sent := by
  obtain ⟨r, smoothie, xbuff, hends⟩ := completes_of_success horderly.sends.1 horderly.count hsuccess
  have hends : run.Ends h r smoothie xbuff := hends
  have hmd5 := md5_of_ends horderly hends
  rw [horderly.name.md5] at hmd5
  have hcontent := horderly.sends.2
  cases hlz : isCompressed run.filename with
  | false =>
    have hdes := desFilename_plain hlz
    have hdata : dataPath run.filename = run.filename := if_neg (by simp [hlz])
    rw [result_plain hlz hends]
    refine ⟨?_, .inl ?_, hmd5⟩
    · have hstored := hends.stored.content
      rw [hlz, if_neg (by decide)] at hcontent
      rw [hdes, ← hdata, hstored]
      exact congrArg some hcontent
    · -- No copy was found before the upload, and it makes none.
      have hfree : ¬ Touches run.filename (openFiles run.storage
          { h.card with written := fun _ => false } run.filename
          (run.session.needsMd5 run.filename)) (changeToLzPath run.filename) := by
        rintro (heq | ⟨-, heq⟩)
        · exact changeToLzPath_ne run.filename (heq.trans hdata)
        · rw [horderly.name.md5] at heq
          exact changeToLzPath_ne_md5 _ _ heq
      rw [hdes, hends.same.frame _ hfree, openFiles_frame hfree]
      exact horderly.noCopy hlz
  | true =>
    rw [hlz, if_pos rfl] at hcontent
    have hdata : dataPath run.filename = changeToLzPath (desFilename run.filename) :=
      (if_pos hlz).trans (horderly.name.lz hlz)
    have hresult := result_compressed horderly hlz hends
    -- Success means that the target could be opened and was written with the content.
    have hmade : run.storage.canOpen (desFilename run.filename) = true := by
      by_contra hclosed
      rw [hresult, if_neg hclosed] at hsuccess
      exact UploadEnd.noConfusion hsuccess
    rw [hresult, if_pos hmade]
    have hother {p : FilePath} (hp : p ≠ desFilename run.filename) :
        ((r.card.create (desFilename run.filename)).append (desFilename run.filename)
          run.content).content p = r.card.content p :=
      (Card.append_content_of_ne hp _).trans (Function.update_of_ne hp _ _)
    refine ⟨?_, .inr ⟨run.data, ?_, hcontent⟩, ?_⟩
    · simp [Card.append, Card.create, sent]
    · rw [hother (changeToLzPath_ne _), ← hdata]
      exact hends.stored.content
    · rw [hother (changeToMd5Path_ne _), hmd5]

theorem result_frame {card : Card} {path : FilePath} (hpath : path ∉ touchedPaths run.filename) :
    (run.result card).2.content path = card.content path :=
  uploadCommand_frame run.session hpath

theorem last_of_success (hsuccess : (run.result h.card).1 = .success) :
    (run.step h).last (desFilename run.filename) = some run.sent := by
  simp only [step, if_pos hsuccess, Function.update_self]

/-- Only the target of a run becomes the path of a last upload. -/
theorem last_step {path : FilePath} {sent : Sent} (hlast : (run.step h).last path = some sent) :
    path = desFilename run.filename ∨ h.last path = some sent := by
  rw [step] at hlast
  simp only at hlast
  split at hlast
  · by_cases hpath : path = desFilename run.filename
    · exact .inl hpath
    · exact .inr ((Function.update_of_ne hpath _ _).symm.trans hlast)
  · exact .inr hlast

theorem step_holds (horderly : Orderly qlz h run)
    (hholds : ∀ path sent, h.last path = some sent → Holds qlz h.card path sent) :
    ∀ path sent, (run.step h).last path = some sent → Holds qlz (run.step h).card path sent := by
  intro path sent hlast
  by_cases hpath : path = desFilename run.filename
  · subst hpath
    by_cases hsuccess : (run.result h.card).1 = .success
    · rw [← Option.some.inj ((last_of_success hsuccess).symm.trans hlast)]
      exact holds_of_success horderly hsuccess
    · simp only [step, if_neg hsuccess] at hlast
      obtain hnone | ⟨hadmits, hthrough⟩ | hrefuses := horderly.through
      · exact absurd (hnone.symm.trans hlast) nofun
      · exact absurd (success_of_through horderly hadmits hthrough) hsuccess
      · refine (hholds _ sent hlast).of_content fun p _ => ?_
        simp only [step, result, uploadCommand_refused hrefuses]
  · have hkept := (last_step hlast).resolve_left hpath
    exact (hholds path sent hkept).of_content fun p hp =>
      result_frame (horderly.apart path sent hkept hpath p hp)

end UploadRun

theorem runs_hold {qlz : QuickLz} {card : Card} {runs : List UploadRun}
    (horderly : ∀ before run after, runs = before ++ run :: after →
      Orderly qlz (History.runs card before) run) :
    ∀ path sent, (History.runs card runs).last path = some sent →
      Holds qlz (History.runs card runs).card path sent := by
  induction runs using List.reverseRecOn with
  | nil => exact fun _ _ hnone => nomatch hnone
  | append_singleton runs run ih =>
    have hstep : History.runs card (runs ++ [run]) = run.step (History.runs card runs) := by
      simp [History.runs]
    have hbefore := ih fun before run' after heq =>
      horderly before run' (after ++ [run]) (by simp [heq])
    rw [hstep]
    exact UploadRun.step_holds (horderly runs run [] rfl) hbefore

/-- A download of the last upload to a path returns it, over a history of orderly uploads. -/
theorem download_after_uploads (qlz : QuickLz) (hexdigest : List UInt8 → List UInt8) (card : Card)
    (runs : List UploadRun)
    (horderly : ∀ before run after, runs = before ++ run :: after →
      Orderly qlz (History.runs card before) run)
    (path : FilePath) (sent : Sent) (hlast : (History.runs card runs).last path = some sent) :
    Serves qlz hexdigest (History.runs card runs).card path sent :=
  (runs_hold horderly path sent hlast).serves hexdigest

/-! ## Three uploads -/

/-- `qlz_decompress` of blocks that hold their bytes as they are, behind three bytes. -/
def storedBlock : QuickLz where
  decompress block := (block.drop 3).take (qlzSizeDecompressed block)
  within _ := List.length_take_le ..

def zeroMd5 : List UInt8 := List.replicate 32 48

/-- A card where everything can be opened. -/
def storedCard : Storage := { opens := fun _ => true, blocks := BlockIo.whole storedBlock.decompress }

/-- A compressed file of one byte. -/
def lzOf (byte : UInt8) : List UInt8 := [0, 0, 0, 4, 0x4C, 4, 1, byte, 0, byte]

theorem lzFile_lzOf (byte : UInt8) : LzFile storedBlock (lzOf byte) [byte] := by
  have hstored : storedBlock.decompress [0x4C, 4, 1, byte] = [byte] := by
    revert byte
    decide +kernel
  have hfour : blockSize [0, 0, 0, 4] = 4 := by decide
  have hsmall : qlzSizeDecompressed [0x4C, 4, 1, byte] ≤ fbuffLength := by
    revert byte
    decide +kernel
  refine ⟨[([0, 0, 0, 4], [0x4C, 4, 1, byte])], ?_, ?_, ?_, ?_, 0, byte, rfl, ?_⟩
  · rintro b hb
    obtain rfl := List.mem_singleton.mp hb
    exact ⟨rfl, hfour, List.cons_ne_nil _ _⟩
  · rintro b hb
    obtain rfl := List.mem_singleton.mp hb
    exact ⟨by simp [xbuffLength], hsmall⟩
  · rintro b hb
    obtain rfl := List.mem_singleton.mp hb
    rw [hstored]
    exact List.cons_ne_nil _ _
  · rw [List.flatMap_singleton, hstored]
  · revert byte
    decide +kernel

/-- The frames of an upload of `data` in one packet. -/
def packetFrame (data : List UInt8) : MakeraInput :=
  .frame 0xB3 ([0, UInt8.ofNat (data.length + 7), 0xB3, 0, 0, 0, 1] ++ data) none

def md5Frame : MakeraInput := .frame 0xB1 ([0, 35, 0xB1] ++ zeroMd5) none

def viewFrame : MakeraInput := .frame 0xB2 [0, 7, 0xB2, 0, 0, 0, 1] none

def sendingOf (data : List UInt8) : Sending := ⟨zeroMd5, rfl, [data]⟩

/-- A framed upload of `content`, compressed. The MD5 comes twice, and the link is silent once. -/
def lzRun (filename : FilePath) (byte : UInt8) : UploadRun where
  storage := storedCard
  filename := filename ++ lzSuffix
  session := .makera [md5Frame, .silence true, md5Frame, viewFrame, packetFrame (lzOf byte)]
  sending := sendingOf (lzOf byte)
  content := [byte]

/-- An XMODEM upload of one byte. A block is cut short, and the MD5 comes twice. -/
def plainRun (filename : FilePath) (byte : UInt8) : UploadRun where
  storage := storedCard
  filename := filename
  session := .smoothie
    [.block false [] none, .block false (buildPacket false true 0 zeroMd5).tail none,
      .block false (buildPacket false true 0 zeroMd5).tail none,
      .block false (buildPacket false true 1 [byte]).tail none, .eot]
  sending := sendingOf [byte]
  content := [byte]

theorem packetFrame_lzOf (byte : UInt8) :
    Makera.be32 ([0, 17, 0xB3, 0, 0, 0, 1] ++ lzOf byte) 3 = 1 ∧
      dataLen ([0, 17, 0xB3, 0, 0, 0, 1] ++ lzOf byte) = 10 := by
  simp only [Makera.be32, dataLen, List.cons_append, List.getD_cons_succ, List.getD_cons_zero]
  decide

theorem conforms_lzRun (filename : FilePath) (byte : UInt8) :
    (lzRun filename byte).session.Conforms (lzRun filename byte).sending := by
  have hmd5 : FromController (sendingOf (lzOf byte)) md5Frame :=
    ⟨rfl, fun _ => rfl, fun h => absurd h (by decide), fun h => absurd h (by decide)⟩
  have hone : Makera.be32 [0, 7, 0xB2, 0, 0, 0, 1] 3 = 1 := by decide
  have hview : FromController (sendingOf (lzOf byte)) viewFrame :=
    ⟨rfl, fun h => absurd h (by decide), fun _ => hone, fun h => absurd h (by decide)⟩
  have hpacket : FromController (sendingOf (lzOf byte)) (packetFrame (lzOf byte)) :=
    ⟨rfl, fun h => absurd h (by decide), fun h => absurd h (by decide),
      fun _ => ⟨0, lzOf byte, rfl, (packetFrame_lzOf byte).1, (packetFrame_lzOf byte).2, rfl⟩⟩
  intro input hinput
  simp only [List.mem_cons, List.not_mem_nil, or_false] at hinput
  obtain rfl | rfl | rfl | rfl | rfl := hinput
  · exact hmd5
  · trivial
  · exact hmd5
  · exact hview
  · exact hpacket

theorem through_lzRun (filename : FilePath) (byte : UInt8) :
    (lzRun filename byte).session.Through (lzRun filename byte).sending := by
  have hpacket : IsFrame 2 (packetFrame (lzOf byte)) := by
    have hlength : dataLen ([0, 17, 0xB3, 0, 0, 0, 1] ++ lzOf byte) ≤ 8192 := by
      rw [(packetFrame_lzOf byte).2]
      decide
    exact ⟨rfl, (packetFrame_lzOf byte).1, hlength⟩
  refine .next (Nat.zero_le _) rfl (.other id (by simp [EndsSession]) (.other ?_ ?_
    (.next le_rfl rfl (.last Nat.one_pos hpacket))))
  · exact fun h : (0xB1 : UInt8) = 0xB2 => absurd h (by decide)
  · exact fun h : (0xB1 : UInt8) = 0xB5 => absurd h (by decide)

theorem blocks_plainRun (byte : UInt8) :
    IsRejected (sendingOf [byte]) true 0 false [] ∧
      IsPart (sendingOf [byte]) true 0 false (buildPacket false true 0 zeroMd5).tail ∧
      IsPart (sendingOf [byte]) true 1 false (buildPacket false true 1 [byte]).tail where
  left := .inl fun h => absurd h.complete (by decide)
  right :=
    ⟨⟨zeroMd5, rfl, carries_buildPacket 0 (by decide) (.inl rfl)⟩,
      ⟨[byte], rfl, carries_buildPacket 1 (Nat.one_le_ofNat : 1 ≤ 128) (.inl rfl)⟩⟩

theorem conforms_plainRun (filename : FilePath) (byte : UInt8) :
    (plainRun filename byte).session.Conforms (plainRun filename byte).sending := by
  obtain ⟨hspoiled, hmd5, hdata⟩ := blocks_plainRun byte
  exact .rejected hspoiled (.part hmd5 (.rejected (.inr ⟨0, rfl, hmd5⟩) (.part hdata .eot)))

theorem through_plainRun (filename : FilePath) (byte : UInt8) :
    (plainRun filename byte).session.Through (plainRun filename byte).sending := by
  obtain ⟨hspoiled, hmd5, hdata⟩ := blocks_plainRun byte
  exact .inl (.rejected hspoiled (.md5 hmd5 (.rejected (.inr ⟨0, rfl, hmd5⟩) (.packet hdata .eot))))

def otherName : FilePath := ['/', 's', 'd', '/', 'g', 'c', 'o', 'd', 'e', 's', '/', 'b']

theorem isCompressed_plainName_lz : isCompressed (plainName ++ lzSuffix) = true := by decide

theorem isCompressed_otherName : isCompressed otherName = false := by decide

theorem names_apart :
    (∀ p ∈ filePaths otherName, p ∉ touchedPaths (plainName ++ lzSuffix)) ∧
      ∀ p ∈ filePaths plainName, p ∉ touchedPaths otherName := by
  decide

section

variable {h : History} (byte : UInt8)

theorem orderly_lzRun (hlast : ∀ path sent, h.last path = some sent → path = plainName ∨ path = otherName) :
    Orderly storedBlock h (lzRun plainName byte) where
  blocks := rfl
  sends := ⟨conforms_lzRun plainName byte, lzFile_lzOf byte⟩
  count := (by decide : 1 < 2 ^ 32)
  size := (by decide : 10 < 2 ^ 32)
  name := ⟨rfl, fun _ => rfl⟩
  noCopy hplain := absurd (isCompressed_plainName_lz.symm.trans hplain) nofun
  noMd5 hnone := absurd hnone nofun
  apart := by
    intro path sent hsent hpath
    obtain rfl | rfl := hlast path sent hsent
    · exact absurd rfl hpath
    · exact names_apart.1
  through := .inr (.inl ⟨⟨rfl, rfl, fun _ => rfl⟩, through_lzRun plainName byte⟩)

theorem orderly_plainRun (hlast : ∀ path sent, h.last path = some sent → path = plainName)
    (hcopy : h.card.content (changeToLzPath otherName) = none) :
    Orderly storedBlock h (plainRun otherName byte) where
  blocks := rfl
  sends := ⟨conforms_plainRun otherName byte, rfl⟩
  count := (by decide : 1 < 2 ^ 32)
  size := (by decide : 1 < 2 ^ 32)
  name := ⟨rfl, fun hlz => absurd (isCompressed_otherName.symm.trans hlz) nofun⟩
  noCopy _ := hcopy
  noMd5 hnone := by
    have hneeds : (find "firmware.bin".toList otherName).isNone = true := by decide
    exact absurd (hneeds.symm.trans hnone) nofun
  apart := by
    intro path sent hsent hpath
    obtain rfl := hlast path sent hsent
    exact names_apart.2
  through := .inr (.inl ⟨⟨rfl, rfl, fun _ => rfl⟩, through_plainRun otherName byte⟩)

end

/-- `a` is uploaded again after another file, and what is downloaded then is the second one. -/
theorem download_after_uploads_again :
    Serves storedBlock (fun _ => [])
      (History.runs emptyCard [lzRun plainName 65, plainRun otherName 67, lzRun plainName 66]).card
      plainName ⟨[66], some zeroMd5⟩ := by
  have hfirst := @orderly_lzRun { card := emptyCard } 65 nofun
  have hsecond : Orderly storedBlock (History.runs emptyCard [lzRun plainName 65]) (plainRun otherName 67) := by
    refine orderly_plainRun 67 (fun path sent hsent => ?_) ?_
    · exact (UploadRun.last_step hsent).resolve_right nofun
    · exact uploadCommand_frame _ (by decide)
  have hthird : Orderly storedBlock (History.runs emptyCard [lzRun plainName 65, plainRun otherName 67])
      (lzRun plainName 66) := by
    refine orderly_lzRun 66 fun path sent hsent => ?_
    obtain hother | hsent := UploadRun.last_step hsent
    · exact .inr hother
    · exact .inl ((UploadRun.last_step hsent).resolve_right nofun)
  refine download_after_uploads storedBlock (fun _ => []) emptyCard _ ?_ plainName _ ?_
  · intro before run after heq
    obtain _ | ⟨_, _ | ⟨_, _ | ⟨_, before⟩⟩⟩ := before
    · obtain ⟨rfl, -⟩ := List.cons.inj heq
      exact hfirst
    · obtain ⟨rfl, htail⟩ := List.cons.inj heq
      obtain ⟨rfl, -⟩ := List.cons.inj htail
      exact hsecond
    · obtain ⟨rfl, htail⟩ := List.cons.inj heq
      obtain ⟨rfl, htail'⟩ := List.cons.inj htail
      obtain ⟨rfl, -⟩ := List.cons.inj htail'
      exact hthird
    · have hlength := congrArg List.length heq
      simp at hlength
  · exact UploadRun.last_of_success
      (UploadRun.success_of_through hthird ⟨rfl, rfl, fun _ => rfl⟩ (through_lzRun plainName 66))

/-! ## A stale copy -/

/-- First `a.lz`, then `a`. -/
def staleRuns : List UploadRun := [lzRun plainName 65, plainRun plainName 66]

theorem lzRun_copy :
    ((lzRun plainName 65).result emptyCard).2.content (changeToLzPath plainName) = some (lzOf 65) := by
  decide +kernel

theorem plainRun_result (card : Card) : ((plainRun plainName 66).result card).1 = .success := by
  have hadmits : storedCard.Admits plainName ((plainRun plainName 66).session.needsMd5 plainName) :=
    ⟨rfl, rfl, fun _ => rfl⟩
  obtain ⟨r, smoothie, xbuff, hends⟩ := @completes_of_through storedCard
    { card with written := fun _ => false } plainName _ _ (conforms_plainRun plainName 66)
    (by decide) hadmits (through_plainRun plainName 66)
  have hends : (plainRun plainName 66).Ends { card := card } r smoothie xbuff := hends
  rw [UploadRun.result_plain rfl hends]

/-- Both uploads succeed, and the download of `a` is of the first, with the MD5 of the second. -/
theorem stale_copy_served :
    (∀ run ∈ staleRuns, run.Sends storedBlock) ∧
    (History.runs emptyCard staleRuns).last plainName = some ⟨[66], some zeroMd5⟩ ∧
    ¬ Serves storedBlock (fun _ => []) (History.runs emptyCard staleRuns).card plainName
      ⟨[66], some zeroMd5⟩ := by
  refine ⟨fun run hrun => ?_, UploadRun.last_of_success (plainRun_result _), ?_⟩
  · simp only [staleRuns, List.mem_cons, List.not_mem_nil, or_false] at hrun
    obtain rfl | rfl := hrun
    · exact ⟨conforms_lzRun plainName 65, lzFile_lzOf 65⟩
    · exact ⟨conforms_plainRun plainName 66, rfl⟩
  · rintro ⟨data, hdownload, hdata⟩
    have hfree : changeToLzPath plainName ∉ touchedPaths (plainRun plainName 66).filename := by decide
    have hcopy : (History.runs emptyCard staleRuns).card.content (changeToLzPath plainName) =
        some (lzOf 65) := by
      simp only [History.runs, staleRuns, List.foldl_cons, List.foldl_nil, UploadRun.step]
      rw [UploadRun.result_frame hfree, lzRun_copy]
    obtain rfl : data = lzOf 65 := by
      simp only [downloadCommand, hcopy, Option.some.injEq, Prod.mk.injEq] at hdownload
      exact hdownload.2.symm
    obtain hdata | hdata := hdata
    · exact absurd hdata (by decide)
    · have hsame : ([66] : List UInt8) = [65] := hdata.unique (lzFile_lzOf 65) (by decide)
      exact absurd hsame (by decide)

end CarveraFirmware.Transfers
