import Mathlib
import CarveraFirmware.Transfers.UploadCleanup

/-!
# The framed upload stores each packet once

The link may lose, repeat, delay and reorder what the controller sends; the card may store any part
of a packet and say so. A part that is stored stays in the file when the packet is asked for again.
-/

namespace CarveraFirmware.Transfers

open Frames (be16)

/-- `data_len` of a data frame. -/
def dataLen (recvBuff : List UInt8) : Nat := (be16 (recvBuff.getD 0 0) (recvBuff.getD 1 0) - 7).toNat

/-- The frame of packet `k`, which holds `data`. -/
structure DataFrame (k : Nat) (data recvBuff : List UInt8) : Prop where
  sequence : Makera.be32 recvBuff 3 = UInt32.ofNat k
  length : dataLen recvBuff = data.length
  bytes : (recvBuff.drop 7).take data.length = data

/-- What arrives was sent: frames that fail their CRC are lost, and packets count from one. -/
def FromSender (packets : List (List UInt8)) : MakeraInput → Prop
  | .silence _ => True
  | .frame cmdType recvBuff _ =>
    (cmdType = 0xB2 → Makera.be32 recvBuff 3 = UInt32.ofNat packets.length) ∧
    (cmdType = 0xB3 → ∃ k data, packets[k]? = some data ∧ DataFrame (k + 1) data recvBuff)

namespace Makera

/-- The frame is the packet asked for. -/
def Awaits (m : Makera) (cmdType : UInt8) (recvBuff : List UInt8) : Prop :=
  m.state = .readFileData ∧ cmdType = 0xB3 ∧ be32 recvBuff 3 = m.sequence

/-- How many packets are stored. -/
def taken (m : Makera) : Nat := if m.state = .readFileData then m.sequence.toNat - 1 else 0

/-- A packet that is asked for and small enough to be written is stored whole, or not at all. -/
def StoresWhole (m : Makera) : MakeraInput → Prop
  | .frame cmdType recvBuff (some n) =>
    m.Awaits cmdType recvBuff → dataLen recvBuff ≤ 8192 → dataLen recvBuff ≤ n ∨ n = 0
  | _ => True

/-- The same of every round of a run. -/
def WholeRun (filename : FilePath) : Receiving → Makera → List MakeraInput → Prop
  | _, _, [] => True
  | r, m, input :: inputs =>
    m.StoresWhole input ∧
      ((round filename r m input).2.2 = .goesOn →
        WholeRun filename (round filename r m input).1 (round filename r m input).2.1 inputs)

end Makera

/-- The receive loop; where it ends in success, with the card as it is then. -/
def receiveLoop (filename : FilePath) (r : Receiving) (inputs : List MakeraInput) : UploadEnd × Card :=
  rounds (Makera.round filename) (fun _ r => (.success, r.card)) filename r {} inputs

/-! ## The file and the MD5 -/

theorem find_append_none {pat a b : List Char} (h : find pat (a ++ b) = none) : find pat b = none := by
  induction a with
  | nil => exact h
  | cons c a ih =>
    rw [List.cons_append, find] at h
    split at h
    · simp at h
    · exact ih (Option.map_eq_none_iff.mp h)

theorem sidecarRelativeName_suffix (path : FilePath) :
    ∃ pre, path = pre ++ sidecarRelativeName path := by
  rw [sidecarRelativeName]
  split
  · exact ⟨_, (List.take_append_drop _ path).symm⟩
  · split
    · exact ⟨_, (List.take_append_drop _ path).symm⟩
    · exact ⟨[], rfl⟩

theorem md5Filename_plain {filename : FilePath} (h : isCompressed filename = false) :
    md5Filename filename = changeToMd5Path filename := by
  have hnone : find lzSuffix filename = none := by simpa [isCompressed] using h
  obtain ⟨pre, hpre⟩ := sidecarRelativeName_suffix filename
  rw [hpre] at hnone
  have hrel := find_append_none hnone
  have hfind : find lzSuffix (changeToMd5Path filename) = none := by
    rw [changeToMd5Path, md5Folder]
    simpa [find, lzSuffix, List.isPrefixOf] using hrel
  rw [md5Filename, cutAt, hfind, Option.getD_none, List.take_length]

theorem dataPath_ne_md5Filename {filename : FilePath}
    (hlast : (dataPath filename).getLast? ≠ some '/') : dataPath filename ≠ md5Filename filename := by
  cases hlz : isCompressed filename with
  | false =>
    have hdata : dataPath filename = filename := if_neg (by simp [hlz])
    rw [hdata, md5Filename_plain hlz]
    exact (changeToMd5Path_ne filename).symm
  | true =>
    have hdata : dataPath filename = lzFilename filename := if_pos hlz
    rw [hdata] at hlast ⊢
    exact lzFilename_ne_md5Filename hlast

/-! ## One round -/

/-- The file holds `stored`, and the loop asks for packets the sender has. -/
structure Receives (packets : List (List UInt8)) (filename : FilePath) (r : Receiving) (m : Makera)
    (stored : List UInt8) : Prop where
  fdOpen : r.fdOpen = true
  content : r.card.content (dataPath filename) = some stored
  sequence : m.state = .readFileData →
    m.totalPacket = UInt32.ofNat packets.length ∧ 1 ≤ m.sequence.toNat ∧
      m.sequence.toNat ≤ max 1 packets.length

theorem writeData_content {r : Receiving} {filename : FilePath} {stored : List UInt8}
    (hopen : r.fdOpen = true) (hcontent : r.card.content (dataPath filename) = some stored)
    (bytes : List UInt8) (n : Option Nat) :
    (r.writeData filename bytes n).card.content (dataPath filename)
      = some (stored ++ bytes.take (n.getD bytes.length)) := by
  rw [Receiving.writeData, if_pos hopen]
  simp [Card.append, hcontent]

theorem writeData_fdOpen (r : Receiving) (filename : FilePath) (bytes : List UInt8) (n : Option Nat) :
    (r.writeData filename bytes n).fdOpen = r.fdOpen := by
  rw [Receiving.writeData]
  split <;> rfl

/-- What a round makes of the file that held `stored`. -/
inductive Round (packets : List (List UInt8)) (filename : FilePath) (m : Makera) (input : MakeraInput)
    (stored : List UInt8) : Receiving × Makera × Turn → Prop
  | error {r' : Receiving} {m' : Makera} : Round packets filename m input stored (r', m', .uploadError)
  /-- Nothing is written. -/
  | idle {r' : Receiving} {m' : Makera} {turn : Turn} (hturn : turn ≠ .uploadSuccess) (hwhole : m.StoresWhole input)
      (htaken : m'.taken = m.taken) (hreceives : Receives packets filename r' m' stored) :
      Round packets filename m input stored (r', m', turn)
  /-- Only the first `n` bytes of the packet asked for are. -/
  | short {r' : Receiving} {turn : Turn} {n : Nat} {data : List UInt8}
      (hturn : turn ≠ .uploadSuccess) (hn : n < data.length)
      (hwhole : m.StoresWhole input ↔ n = 0)
      (hreceives : Receives packets filename r' m (stored ++ data.take n)) :
      Round packets filename m input stored (r', m, turn)
  | next {r' : Receiving} {m' : Makera} {data : List UInt8} (hwhole : m.StoresWhole input)
      (hdata : packets[m.taken]? = some data)
      (htaken : m'.taken = m.taken + 1) (hreceives : Receives packets filename r' m' (stored ++ data)) :
      Round packets filename m input stored (r', m', .goesOn)
  | last {r' : Receiving} {m' : Makera} {data : List UInt8} (hwhole : m.StoresWhole input)
      (hdata : packets[m.taken]? = some data)
      (htaken : m.taken + 1 = packets.length)
      (hcontent : r'.card.content (dataPath filename) = some (stored ++ data)) :
      Round packets filename m input stored (r', m', .uploadSuccess)

theorem giveUp_ne_success (m : Makera) : m.giveUp ≠ .uploadSuccess := by
  rw [Makera.giveUp]
  split <;> decide

section

variable {packets : List (List UInt8)} {filename : FilePath} {r : Receiving} {m : Makera}
  {stored : List UInt8}

/-- A frame that is not the one asked for changes counters only. -/
theorem round_notAwaited (h : Receives packets filename r m stored) {cmdType : UInt8}
    {recvBuff : List UInt8} {n : Option Nat} (hnot : ¬ m.Awaits cmdType recvBuff) :
    Round packets filename m (.frame cmdType recvBuff n) stored (r, m.notAwaited) := by
  have hwhole : m.StoresWhole (.frame cmdType recvBuff n) := by
    cases n with
    | none => trivial
    | some n => exact fun hawaits => absurd hawaits hnot
  rw [Makera.notAwaited]
  split
  · exact .idle (giveUp_ne_success _) hwhole rfl ⟨h.fdOpen, h.content, h.sequence⟩
  · exact .idle (by decide) hwhole rfl ⟨h.fdOpen, h.content, h.sequence⟩

theorem round_dataFrame (hsize : packets.length < 2 ^ 32) (h : Receives packets filename r m stored)
    {recvBuff : List UInt8} {n : Option Nat} (hawaits : m.Awaits 0xB3 recvBuff) {k : Nat}
    {data : List UInt8} (hk : packets[k]? = some data) (hframe : DataFrame (k + 1) data recvBuff) :
    Round packets filename m (.frame 0xB3 recvBuff n) stored
      (Makera.dataFrame filename r m recvBuff n) := by
  have hklt : k < packets.length := (List.getElem?_eq_some_iff.mp hk).1
  obtain ⟨htotal, hone, -⟩ := h.sequence hawaits.1
  have hseq : m.sequence.toNat = k + 1 := by
    rw [← hawaits.2.2, hframe.sequence, UInt32.toNat_ofNat']
    omega
  have htaken : m.taken = k := by
    rw [Makera.taken, if_pos hawaits.1, hseq, Nat.add_sub_cancel]
  have hlen := hframe.length
  have hbytes := hframe.bytes
  simp only [Makera.dataFrame]
  rw [← dataLen, hlen, hbytes]
  have hcontent := writeData_content h.fdOpen h.content data n
  have hopen := (writeData_fdOpen r filename data n).trans h.fdOpen
  -- In the order of the branches: longer than the buffer, stored short, more packets to come, the
  -- last one.
  by_cases hbig : data.length > 8192
  · rw [if_pos hbig]
    refine .idle (giveUp_ne_success m) ?_ rfl h
    cases n with
    | none => trivial
    | some n => exact fun _ hsmall => absurd hsmall (by omega)
  rw [if_neg hbig]
  by_cases hshort : n.any (· < data.length) = true
  · rw [if_pos hshort]
    obtain ⟨n, rfl, hn⟩ := (Option.any_eq_true _ _).mp hshort
    have hn : n < data.length := by simpa using hn
    refine .short (giveUp_ne_success m) hn ⟨fun hwhole => ?_, fun hzero _ _ => .inr hzero⟩
      ⟨hopen, hcontent, h.sequence⟩
    have := hwhole hawaits (by omega)
    omega
  rw [if_neg hshort]
  have hwhole : m.StoresWhole (.frame 0xB3 recvBuff n) := by
    cases n with
    | none => trivial
    | some n =>
      have hn : data.length ≤ n := by simpa using hshort
      exact fun _ _ => .inl (by omega)
  have hall : data.take (n.getD data.length) = data := by
    cases n with
    | none => exact List.take_length
    | some n => exact List.take_of_length_le (by simpa using hshort)
  rw [hall] at hcontent
  -- The sequence number is compared in 32 bits, where both numbers are what they count.
  have htotalNat : m.totalPacket.toNat = packets.length := by
    rw [htotal, UInt32.toNat_ofNat']
    omega
  rw [← htaken] at hk
  by_cases hmore : m.sequence < m.totalPacket
  · rw [if_pos hmore]
    have hltNat : k + 1 < packets.length := by
      rw [← hseq, ← htotalNat]
      exact UInt32.lt_iff_toNat_lt.mp hmore
    have hnext : (m.sequence + 1).toNat = k + 2 := by
      rw [UInt32.toNat_add, hseq]
      have : (1 : UInt32).toNat = 1 := rfl
      omega
    have hrange : 1 ≤ (m.sequence + 1).toNat ∧ (m.sequence + 1).toNat ≤ max 1 packets.length := by
      omega
    refine .next hwhole hk ?_ ⟨hopen, hcontent, fun _ => ⟨htotal, hrange⟩⟩
    rw [htaken, Makera.taken, if_pos hawaits.1, hnext]
    omega
  · rw [if_neg hmore]
    refine .last hwhole hk ?_ hcontent
    have hge : ¬ m.sequence.toNat < m.totalPacket.toNat := fun hlt =>
      hmore (UInt32.lt_iff_toNat_lt.mpr hlt)
    omega

theorem writeMd5_receives (hmd5 : dataPath filename ≠ md5Filename filename)
    (h : Receives packets filename r m stored) (bytes : List UInt8) (n : Option Nat) :
    Receives packets filename (r.writeMd5 filename bytes n) m stored := by
  rw [Receiving.writeMd5]
  split
  · refine ⟨h.fdOpen, ?_, h.sequence⟩
    rw [← h.content]
    exact Card.append_content_of_ne hmd5 _
  · exact h

/-- One round of the loop. -/
theorem round_receives (hsize : packets.length < 2 ^ 32)
    (hmd5 : dataPath filename ≠ md5Filename filename) (h : Receives packets filename r m stored)
    {input : MakeraInput} (hsender : FromSender packets input) :
    Round packets filename m input stored (Makera.round filename r m input) := by
  cases input with
  | silence connected =>
    simp only [Makera.round]
    split
    · exact .error
    · refine .idle (giveUp_ne_success _) trivial ?_ ?_
      · split <;> rfl
      · split <;> exact ⟨h.fdOpen, h.content, h.sequence⟩
  | frame cmdType recvBuff n =>
    simp only [Makera.round]
    by_cases hcancel : cmdType = 0xB5
    · rw [if_pos hcancel]
      exact .error
    rw [if_neg hcancel]
    -- Outside of the packets nothing is stored that could be stored short.
    have hidle (hstate : m.state ≠ .readFileData) : m.StoresWhole (.frame cmdType recvBuff n) := by
      cases n with
      | none => trivial
      | some n => exact fun hawaits => absurd hawaits.1 hstate
    cases hstate : m.state with
    | waitMd5 =>
      have hnot : m.state ≠ .readFileData := by simp [hstate]
      have htaken : m.taken = 0 := if_neg hnot
      simp only
      split
      · have hkept := writeMd5_receives hmd5 h ((recvBuff.drop 3).take 32) n
        exact .idle (giveUp_ne_success _) (hidle hnot) htaken.symm
          ⟨hkept.fdOpen, hkept.content, fun hread => FileRcvState.noConfusion hread⟩
      · exact round_notAwaited h fun hawaits => hnot hawaits.1
    | waitFileView =>
      have hnot : m.state ≠ .readFileData := by simp [hstate]
      have htaken : m.taken = 0 := if_neg hnot
      simp only
      split
      · rename_i hview
        have htotal := hsender.1 hview
        exact .idle (giveUp_ne_success _) (hidle hnot) htaken.symm
          ⟨h.fdOpen, h.content, fun _ => ⟨htotal, le_rfl, le_max_left _ _⟩⟩
      · exact round_notAwaited h fun hawaits => hnot hawaits.1
    | readFileData =>
      simp only
      split
      · rename_i hframe
        obtain ⟨rfl, hsequence⟩ := hframe
        obtain ⟨k, data, hk, hdata⟩ := hsender.2 rfl
        exact round_dataFrame hsize h ⟨hstate, rfl, hsequence⟩ hk hdata
      · rename_i hother
        exact round_notAwaited h fun hawaits => hother hawaits.2

/-! ## The loop -/

theorem drop_taken {data : List UInt8} {k : Nat} (h : packets[k]? = some data) :
    packets.drop k = data :: packets.drop (k + 1) := by
  obtain ⟨hlt, heq⟩ := List.getElem?_eq_some_iff.mp h
  rw [List.drop_eq_getElem_cons hlt, heq]

/-- What a loop that ends in success leaves: the packets still to be taken, and as many bytes more as
parts of packets were stored. -/
theorem rounds_content (hsize : packets.length < 2 ^ 32)
    (hmd5 : dataPath filename ≠ md5Filename filename) (inputs : List MakeraInput)
    (hsender : ∀ input ∈ inputs, FromSender packets input) (r : Receiving) (m : Makera)
    (stored : List UInt8) (h : Receives packets filename r m stored)
    (hsuccess : (rounds (Makera.round filename) (fun _ r => (.success, r.card)) filename r m
      inputs).1 = .success) :
    ∃ content extra, (rounds (Makera.round filename) (fun _ r => (.success, r.card)) filename r m
        inputs).2.content (dataPath filename) = some content ∧
      content.length = stored.length + (packets.drop m.taken).flatten.length + extra ∧
      (extra = 0 ↔ Makera.WholeRun filename r m inputs) ∧
      (extra = 0 → content = stored ++ (packets.drop m.taken).flatten) := by
  induction inputs generalizing r m stored with
  | nil => simp [rounds] at hsuccess
  | cons input inputs ih =>
    have hround := round_receives hsize hmd5 h (hsender input (List.mem_cons_self ..))
    have hrest : ∀ input ∈ inputs, FromSender packets input := fun input hmem =>
      hsender input (List.mem_cons_of_mem _ hmem)
    rw [rounds] at hsuccess ⊢
    simp only [Makera.WholeRun]
    generalize Makera.round filename r m input = next at hround hsuccess ⊢
    -- A round ends the session, leaves what is stored, adds a packet short or whole, or adds the
    -- last one.
    cases hround with
    | error => simp [uploadError] at hsuccess
    | @idle r' m' turn hturn hwhole htaken hreceives =>
      cases turn with
      | uploadSuccess => exact absurd rfl hturn
      | uploadError => simp [uploadError] at hsuccess
      | goesOn =>
        obtain ⟨content, extra, hcontent, hlen, hzero, hall⟩ := ih hrest r' m' stored hreceives hsuccess
        rw [htaken] at hlen hall
        exact ⟨content, extra, hcontent, hlen, by simpa [hwhole] using hzero, hall⟩
    | @short r' turn n data hturn hn hwhole hreceives =>
      cases turn with
      | uploadSuccess => exact absurd rfl hturn
      | uploadError => simp [uploadError] at hsuccess
      | goesOn =>
        obtain ⟨content, extra, hcontent, hlen, hzero, hall⟩ := ih hrest r' m _ hreceives hsuccess
        refine ⟨content, n + extra, hcontent, ?_, ?_, ?_⟩
        · simp only [List.length_append, List.length_take] at hlen
          omega
        · simp only [forall_const, hwhole, ← hzero]
          omega
        · intro hnone
          obtain ⟨rfl, rfl⟩ : n = 0 ∧ extra = 0 := by omega
          simpa using hall rfl
    | @next r' m' data hwhole hdata htaken hreceives =>
      obtain ⟨content, extra, hcontent, hlen, hzero, hall⟩ := ih hrest r' m' _ hreceives hsuccess
      rw [htaken] at hlen hall
      rw [drop_taken hdata]
      refine ⟨content, extra, hcontent, ?_, by simpa [hwhole] using hzero, ?_⟩
      · rw [hlen, List.length_append, List.flatten_cons, List.length_append]
        omega
      · intro hnone
        rw [hall hnone, List.flatten_cons, List.append_assoc]
    | @last r' m' data hwhole hdata htaken hcontent =>
      refine ⟨stored ++ data, 0, hcontent, ?_, by simp [hwhole], ?_⟩
      all_goals
        rw [drop_taken hdata, htaken, List.drop_length]
        simp

end

/-- An upload that succeeds leaves the packets of the sender in the file, in order and each once,
exactly if no packet that was asked for was stored in part. -/
theorem upload_once_iff (storage : Storage) (card : Card) (filename : FilePath)
    (packets : List (List UInt8)) (inputs : List MakeraInput) (hsize : packets.length < 2 ^ 32)
    (hopen : storage.canOpen (dataPath filename) = true)
    (hsender : ∀ input ∈ inputs, FromSender packets input)
    (hsuccess : (receiveLoop filename (openFiles storage card filename true) inputs).1 = .success) :
    (receiveLoop filename (openFiles storage card filename true) inputs).2.content (dataPath filename)
        = some packets.flatten ↔
      Makera.WholeRun filename (openFiles storage card filename true) {} inputs := by
  have hlast : (dataPath filename).getLast? ≠ some '/' := by
    simp only [Storage.canOpen, Bool.and_eq_true, bne_iff_ne] at hopen
    exact hopen.1
  have hmd5 := dataPath_ne_md5Filename hlast
  have hempty : Receives packets filename (openFiles storage card filename true) {} [] := by
    refine ⟨hopen, ?_, fun hread => FileRcvState.noConfusion hread⟩
    refine (content_create_if _ fun _ => hmd5).trans ?_
    rw [if_pos hopen]
    exact Function.update_self ..
  obtain ⟨content, extra, hcontent, hlen, hzero, hall⟩ :=
    rounds_content hsize hmd5 inputs hsender _ _ _ hempty hsuccess
  rw [receiveLoop, hcontent, ← hzero]
  constructor
  · intro heq
    have hsame : content.length = packets.flatten.length := by rw [Option.some.inj heq]
    have htaken : packets.drop (({} : Makera).taken) = packets := rfl
    rw [htaken] at hlen
    simp only [List.length_nil] at hlen
    omega
  · intro hnone
    rw [hall hnone]
    rfl

/-- A sender with two packets: the card stores nothing of the first one at first, and its third frame
arrives when the second packet is asked for. -/
def twoPackets : List MakeraInput :=
  [.frame 0xB1 [0, 3, 0xB1] none, .silence true,
    .frame 0xB2 [0, 7, 0xB2, 0, 0, 0, 2] none,
    .frame 0xB3 [0, 9, 0xB3, 0, 0, 0, 1, 65, 66] (some 0),
    .frame 0xB3 [0, 9, 0xB3, 0, 0, 0, 1, 65, 66] none,
    .frame 0xB3 [0, 9, 0xB3, 0, 0, 0, 1, 65, 66] none,
    .frame 0xB3 [0, 8, 0xB3, 0, 0, 0, 2, 67] none]

theorem twoPackets_fromSender : ∀ input ∈ twoPackets, FromSender [[65, 66], [67]] input := by
  have hfirst : DataFrame 1 [65, 66] [0, 9, 0xB3, 0, 0, 0, 1, 65, 66] := ⟨rfl, rfl, rfl⟩
  have hsecond : DataFrame 2 [67] [0, 8, 0xB3, 0, 0, 0, 2, 67] := ⟨rfl, rfl, rfl⟩
  intro input hinput
  simp only [twoPackets, List.mem_cons, List.not_mem_nil, or_false] at hinput
  obtain rfl | rfl | rfl | rfl | rfl | rfl | rfl := hinput
  · exact ⟨fun h => absurd h (by decide), fun h => absurd h (by decide)⟩
  · trivial
  · exact ⟨fun _ => rfl, fun h => absurd h (by decide)⟩
  · exact ⟨fun h => absurd h (by decide), fun _ => ⟨0, [65, 66], rfl, hfirst⟩⟩
  · exact ⟨fun h => absurd h (by decide), fun _ => ⟨0, [65, 66], rfl, hfirst⟩⟩
  · exact ⟨fun h => absurd h (by decide), fun _ => ⟨0, [65, 66], rfl, hfirst⟩⟩
  · exact ⟨fun h => absurd h (by decide), fun _ => ⟨1, [67], rfl, hsecond⟩⟩

/-- Both packets are stored, each once. -/
theorem upload_once_iff_nothing :
    (receiveLoop plainName (openFiles openCard emptyCard plainName true) twoPackets).2.content
      (dataPath plainName) = some [65, 66, 67] := by
  refine (upload_once_iff openCard emptyCard plainName [[65, 66], [67]] twoPackets (by decide) rfl
    twoPackets_fromSender rfl).mpr ?_
  -- The one frame that is stored in part is the first: nothing of it is stored.
  refine ⟨trivial, fun _ => ⟨trivial, fun _ => ⟨trivial, fun _ => ⟨fun _ _ => .inr rfl, fun _ => ?_⟩⟩⟩⟩
  exact ⟨trivial, fun _ => ⟨trivial, fun _ => ⟨trivial, fun _ => trivial⟩⟩⟩

/-! ## A packet stored in part -/

/-- A sender with one packet; the card stores `n` bytes of it the first time. -/
def onePacketTwice (n : Option Nat) : List MakeraInput :=
  [.frame 0xB1 [0, 3, 0xB1] none,
    .frame 0xB2 [0, 7, 0xB2, 0, 0, 0, 1] none,
    .frame 0xB3 [0, 9, 0xB3, 0, 0, 0, 1, 65, 66] n,
    .frame 0xB3 [0, 9, 0xB3, 0, 0, 0, 1, 65, 66] none]

theorem onePacketTwice_fromSender (n : Option Nat) :
    ∀ input ∈ onePacketTwice n, FromSender [[65, 66]] input := by
  have hframe : DataFrame (0 + 1) [65, 66] [0, 9, 0xB3, 0, 0, 0, 1, 65, 66] := ⟨rfl, rfl, rfl⟩
  intro input hmem
  simp only [onePacketTwice, List.mem_cons, List.not_mem_nil, or_false] at hmem
  obtain rfl | rfl | rfl | rfl := hmem
  · exact ⟨fun h => absurd h (by decide), fun h => absurd h (by decide)⟩
  · exact ⟨fun _ => rfl, fun h => absurd h (by decide)⟩
  all_goals exact ⟨fun h => absurd h (by decide), fun _ => ⟨0, [65, 66], rfl, hframe⟩⟩

/-- One byte of the packet is stored, and then the whole packet again. -/
theorem part_stored_twice :
    (∀ input ∈ onePacketTwice (some 1), FromSender [[65, 66]] input) ∧
    (receiveLoop plainName (openFiles openCard emptyCard plainName true)
      (onePacketTwice (some 1))).1 = .success ∧
    (receiveLoop plainName (openFiles openCard emptyCard plainName true)
      (onePacketTwice (some 1))).2.content (dataPath plainName) ≠ some [[65, 66]].flatten := by
  have hcontent : (receiveLoop plainName (openFiles openCard emptyCard plainName true)
      (onePacketTwice (some 1))).2.content (dataPath plainName) = some [65, 65, 66] := rfl
  refine ⟨onePacketTwice_fromSender _, rfl, ?_⟩
  rw [hcontent]
  decide

end CarveraFirmware.Transfers
