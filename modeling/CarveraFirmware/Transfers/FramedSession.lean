import Mathlib
import CarveraFirmware.Transfers.MakeraOnce

/-!
# Framed sessions

What the sender of an upload sends, and what the framed receive loop stores of it. A session of frames
that the sender sent stores them as they are, if it ends in success; and it does if every frame comes
before the loop runs out of patience.
-/

namespace CarveraFirmware.Transfers

/-- What the sender of an upload sends: the MD5 of the file, and its data in packets. -/
structure Sending where
  md5 : List UInt8
  md5_length : md5.length = 32
  packets : List (List UInt8)

/-- The data file holds `data` and, if it is open, the MD5 file holds `md5`. -/
structure Stored (filename : FilePath) (r : Receiving) (data md5 : List UInt8) : Prop where
  fdOpen : r.fdOpen = true
  content : r.card.content (dataPath filename) = some data
  md5 : r.md5Open = true → r.card.content (md5Filename filename) = some md5
  filesize : r.filesize = UInt32.ofNat data.length

/-- The controller sent the frame, and the card stores what it holds as a whole. -/
def FromController (sending : Sending) : MakeraInput → Prop
  | .silence _ => True
  | .frame cmdType recvBuff stored =>
    stored = none ∧ (cmdType = 0xB1 → (recvBuff.drop 3).take 32 = sending.md5) ∧
      FromSender sending.packets (.frame cmdType recvBuff stored)

/-- Frame `k` of an upload: the MD5, the number of packets, and the packets, which are written if they
have at most 8192 bytes. -/
def IsFrame (k : Nat) : MakeraInput → Prop
  | .silence _ => False
  | .frame cmdType recvBuff _ =>
    match k with
    | 0 => cmdType = 0xB1
    | 1 => cmdType = 0xB2
    | k + 2 => cmdType = 0xB3 ∧ Makera.be32 recvBuff 3 = UInt32.ofNat (k + 1) ∧ dataLen recvBuff ≤ 8192

/-- A cancel, or a poll that finds the link lost. -/
def EndsSession : MakeraInput → Prop
  | .silence connected => connected = false
  | .frame cmdType _ _ => cmdType = 0xB5

/-- So many inputs in a row that are not the frame asked for never end an upload. -/
def patience : Nat := 2600

/-- From frame `k` on, all frames of an upload of `n` packets come in turn. Before the next one come at
most `budget` other inputs, and no more than the loop is patient with before the ones after it. -/
inductive FramedThrough (n : Nat) : Nat → Nat → List MakeraInput → Prop
  | last {budget : Nat} {input : MakeraInput} {inputs : List MakeraInput} (hn : 0 < n)
      (hframe : IsFrame (n + 1) input) : FramedThrough n (n + 1) budget (input :: inputs)
  | next {k budget : Nat} {input : MakeraInput} {inputs : List MakeraInput} (hk : k ≤ n)
      (hframe : IsFrame k input) (hrest : FramedThrough n (k + 1) patience inputs) :
      FramedThrough n k budget (input :: inputs)
  | other {k budget : Nat} {input : MakeraInput} {inputs : List MakeraInput}
      (hnot : ¬ IsFrame k input) (hends : ¬ EndsSession input)
      (hrest : FramedThrough n k budget inputs) : FramedThrough n k (budget + 1) (input :: inputs)

theorem FramedThrough.zero_lt {n k budget : Nat} {inputs : List MakeraInput}
    (h : FramedThrough n k budget inputs) : 0 < n := by
  induction h with
  | last hn => exact hn
  | next _ _ _ ih => exact ih
  | other _ _ _ ih => exact ih

theorem not_endsSession_of_isFrame {k : Nat} {input : MakeraInput} (h : IsFrame k input) :
    ¬ EndsSession input := by
  intro hends
  cases input with
  | silence connected => exact h
  | frame cmdType recvBuff stored =>
    obtain rfl : cmdType = 0xB5 := hends
    obtain _ | _ | k := k
    · have hmd5 : (0xB5 : UInt8) = 0xB1 := h
      exact absurd hmd5 (by decide)
    · have hview : (0xB5 : UInt8) = 0xB2 := h
      exact absurd hview (by decide)
    · have hdata : (0xB5 : UInt8) = 0xB3 := h.1
      exact absurd hdata (by decide)

/-! ## What is stored -/

section

variable {filename : FilePath} {r : Receiving} {data md5 : List UInt8}

theorem Stored.writeData (hne : dataPath filename ≠ md5Filename filename)
    (h : Stored filename r data md5) (bytes : List UInt8) :
    Stored filename { r.writeData filename bytes none with
      filesize := r.filesize + UInt32.ofNat bytes.length } (data ++ bytes) md5 where
  fdOpen := (writeData_fdOpen r filename bytes none).trans h.fdOpen
  content := by
    rw [writeData_content h.fdOpen h.content bytes none, Option.getD_none, List.take_length]
  md5 := by
    rw [Receiving.writeData, if_pos h.fdOpen]
    intro hopen
    rw [← h.md5 hopen]
    exact Card.append_content_of_ne hne.symm _
  filesize := by
    show r.filesize + UInt32.ofNat bytes.length = _
    rw [h.filesize, List.length_append, UInt32.ofNat_add]

theorem Stored.writeMd5 (hne : dataPath filename ≠ md5Filename filename)
    (h : Stored filename r data []) (bytes : List UInt8) :
    Stored filename (r.writeMd5 filename bytes none) data bytes := by
  rw [Receiving.writeMd5]
  split
  · rename_i hopen
    refine ⟨h.fdOpen, ?_, fun _ => ?_, h.filesize⟩
    · rw [← h.content]
      exact Card.append_content_of_ne hne _
    · simp [Card.append, h.md5 hopen]
  · rename_i hclosed
    exact ⟨h.fdOpen, h.content, fun hopen => absurd hopen hclosed, h.filesize⟩

/-- What is open is empty. -/
theorem stored_openFiles {storage : Storage} {card : Card} {needsMd5 : Bool}
    (hne : dataPath filename ≠ md5Filename filename)
    (hopen : storage.canOpen (dataPath filename) = true) :
    Stored filename (openFiles storage card filename needsMd5) [] [] where
  fdOpen := hopen
  content := by
    refine (content_create_if _ fun _ => hne).trans ?_
    rw [if_pos hopen]
    exact Function.update_self ..
  md5 := by
    intro hmade
    have hmade : (needsMd5 && storage.canOpen (md5Filename filename)) = true := hmade
    show (if needsMd5 && storage.canOpen (md5Filename filename) then _ else _ : Card).content _ = _
    rw [if_pos hmade]
    exact Function.update_self ..
  filesize := rfl

end

/-! ## One round -/

namespace Makera

/-- It rises by at most one with every input that is not the frame asked for. -/
def impatience (m : Makera) : Nat := 51 * m.tatalretry + m.retry

def stateAt : Nat → FileRcvState
  | 0 => .waitMd5
  | 1 => .waitFileView
  | _ + 2 => .readFileData

/-- The loop has taken `k` frames of the upload. -/
structure Stage (sending : Sending) (filename : FilePath) (k : Nat) (r : Receiving) (m : Makera) :
    Prop where
  stored : Stored filename r (sending.packets.take (k - 2)).flatten (if k = 0 then [] else sending.md5)
  state : m.state = stateAt k
  total : 2 ≤ k → m.totalPacket = UInt32.ofNat sending.packets.length
  sequence : 2 ≤ k → m.sequence = UInt32.ofNat (k - 1)
  le : k ≤ max 2 (sending.packets.length + 1)

/-- What a round makes of an input after `k` frames. -/
inductive Outcome (sending : Sending) (filename : FilePath) (k : Nat) (m : Makera)
    (input : MakeraInput) : Receiving × Makera × Turn → Prop
  | ended {r' : Receiving} {m' : Makera} (hends : EndsSession input) :
      Outcome sending filename k m input (r', m', .uploadError)
  | idle {r' : Receiving} {m' : Makera} {turn : Turn} (hnot : ¬ IsFrame k input)
      (hstage : Stage sending filename k r' m') (hrise : m'.impatience ≤ m.impatience + 1)
      (hturn : turn = .goesOn ∨ (turn = .uploadError ∧ patience < m'.impatience)) :
      Outcome sending filename k m input (r', m', turn)
  | next {r' : Receiving} {m' : Makera} (hframe : IsFrame k input)
      (hk : k ≤ max 1 sending.packets.length) (hstage : Stage sending filename (k + 1) r' m')
      (hpatient : m'.impatience = 0) : Outcome sending filename k m input (r', m', .goesOn)
  | last {r' : Receiving} {m' : Makera} (hframe : IsFrame k input)
      (hk : k = sending.packets.length + 1)
      (hstored : Stored filename r' sending.packets.flatten sending.md5) :
      Outcome sending filename k m input (r', m', .uploadSuccess)

section

variable {sending : Sending} {filename : FilePath} {k : Nat} {r : Receiving} {m : Makera}

/-- Counters apart, the stage is the same. -/
theorem Stage.counters (h : Stage sending filename k r m) (retry tatalretry : Nat) :
    Stage sending filename k r { m with retry := retry, tatalretry := tatalretry } :=
  ⟨h.stored, h.state, h.total, h.sequence, h.le⟩

theorem giveUp_turn (m : Makera) :
    m.giveUp = .goesOn ∨ (m.giveUp = .uploadError ∧ patience < m.impatience) := by
  rw [giveUp, impatience]
  split
  · rename_i hmany
    have : 50 < m.tatalretry := hmany
    refine .inr ⟨rfl, ?_⟩
    rw [patience]
    omega
  · exact .inl rfl

theorem outcome_notAwaited (h : Stage sending filename k r m) {input : MakeraInput}
    (hnot : ¬ IsFrame k input) : Outcome sending filename k m input (r, m.notAwaited) := by
  rw [notAwaited]
  split
  · rename_i hmany
    have : 50 < m.retry + 1 := hmany
    refine .idle hnot (h.counters _ _) ?_ (giveUp_turn _)
    simp only [impatience]
    omega
  · refine .idle hnot (h.counters _ m.tatalretry) ?_ (.inl rfl)
    simp only [impatience]
    omega

theorem outcome_silence (h : Stage sending filename k r m) (connected : Bool) :
    Outcome sending filename k m (.silence connected) (round filename r m (.silence connected)) := by
  simp only [round]
  split
  · rename_i hlost
    have hlost : connected = false := by simpa using hlost.2
    exact .ended hlost
  · by_cases hmany : m.retry + 1 > retryTime * 10
    · rw [if_pos hmany]
      have : 500 < m.retry + 1 := hmany
      refine .idle id (h.counters retryTime (m.tatalretry + 1)) ?_ (giveUp_turn _)
      simp only [impatience, retryTime]
      omega
    · rw [if_neg hmany]
      refine .idle id (h.counters (m.retry + 1) m.tatalretry) ?_ (giveUp_turn _)
      simp only [impatience]
      omega

theorem outcome_data (hsize : sending.packets.length < 2 ^ 32)
    (hne : dataPath filename ≠ md5Filename filename) (h : Stage sending filename (k + 2) r m)
    {recvBuff : List UInt8} (hsequence : be32 recvBuff 3 = m.sequence)
    (hfrom : FromController sending (.frame 0xB3 recvBuff none)) :
    Outcome sending filename (k + 2) m (.frame 0xB3 recvBuff none)
      (dataFrame filename r m recvBuff none) := by
  obtain ⟨i, data, hi, hframe⟩ := hfrom.2.2.2 rfl
  have hlt : i < sending.packets.length := (List.getElem?_eq_some_iff.mp hi).1
  have hstage := h.sequence (by omega)
  have hle := h.le
  -- the sequence number tells which packet it is
  obtain rfl : i = k := by
    have hnumber : UInt32.ofNat (i + 1) = UInt32.ofNat (k + 1) := by
      rw [← hframe.sequence, hsequence, hstage]
      rfl
    have hmod := congrArg UInt32.toNat hnumber
    rw [UInt32.toNat_ofNat', UInt32.toNat_ofNat'] at hmod
    omega
  have hlength := hframe.length
  have hbytes := hframe.bytes
  simp only [dataFrame]
  rw [← dataLen, hlength, hbytes]
  by_cases hbig : data.length > 8192
  · rw [if_pos hbig]
    refine .idle (fun hframe' => ?_) h (Nat.le_succ _) (giveUp_turn m)
    have hsmall : dataLen recvBuff ≤ 8192 := hframe'.2.2
    omega
  rw [if_neg hbig]
  simp only [Option.any_none, Bool.false_eq_true, if_false]
  have hthis : IsFrame (i + 2) (.frame 0xB3 recvBuff none) :=
    ⟨rfl, hframe.sequence, by omega⟩
  have hstored := h.stored.writeData hne data
  have hmore : (sending.packets.take (i + 2 - 2)).flatten ++ data =
      (sending.packets.take (i + 1)).flatten := by
    rw [Nat.add_sub_cancel, List.take_add_one, hi, List.flatten_append]
    simp
  rw [if_neg (by omega), hmore] at hstored
  have hnumber : m.sequence.toNat = i + 1 := by
    rw [hstage, UInt32.toNat_ofNat']
    omega
  have htotal : m.totalPacket.toNat = sending.packets.length := by
    rw [h.total (by omega), UInt32.toNat_ofNat']
    omega
  by_cases hlast : m.sequence < m.totalPacket
  · rw [if_pos hlast]
    have hlast := UInt32.lt_iff_toNat_lt.mp hlast
    refine .next hthis (by omega) ⟨?_, h.state, fun _ => h.total (by omega), fun _ => ?_, by omega⟩ rfl
    · rw [if_neg (by omega)]
      exact hstored
    · show m.sequence + 1 = UInt32.ofNat (i + 2)
      have hadd := UInt32.ofNat_add (i + 1) 1
      rw [hstage, hadd]
      rfl
  · rw [if_neg hlast]
    have hall : sending.packets.length = i + 1 := by
      have hge : ¬ m.sequence.toNat < m.totalPacket.toNat := fun hlt =>
        hlast (UInt32.lt_iff_toNat_lt.mpr hlt)
      omega
    refine .last hthis (by omega) ?_
    rwa [← hall, List.take_length] at hstored

theorem outcome_round (hsize : sending.packets.length < 2 ^ 32)
    (hne : dataPath filename ≠ md5Filename filename) (h : Stage sending filename k r m)
    {input : MakeraInput} (hfrom : FromController sending input) :
    Outcome sending filename k m input (round filename r m input) := by
  cases input with
  | silence connected => exact outcome_silence h connected
  | frame cmdType recvBuff stored =>
    obtain ⟨rfl, hmd5, hview, hdata⟩ := hfrom
    simp only [round]
    by_cases hcancel : cmdType = 0xB5
    · rw [if_pos hcancel]
      exact .ended hcancel
    rw [if_neg hcancel]
    -- By what is awaited: the MD5, the layout of the data, a packet of it.
    obtain _ | _ | k := k
    · rw [h.state]
      show Outcome sending filename 0 m _ (if cmdType = 0xB1 then _ else _)
      split
      · rename_i hframe
        have hstored := h.stored.writeMd5 hne sending.md5
        rw [hmd5 hframe]
        exact .next hframe (Nat.zero_le _)
          ⟨hstored, rfl, fun htwo => absurd htwo (by decide), fun htwo => absurd htwo (by decide), by omega⟩
          rfl
      · rename_i hframe
        exact outcome_notAwaited h hframe
    · rw [h.state]
      show Outcome sending filename 1 m _ (if cmdType = 0xB2 then _ else _)
      split
      · rename_i hframe
        exact .next hframe (le_max_left _ _)
          ⟨h.stored, rfl, fun _ => hview hframe, fun _ => rfl, le_max_left _ _⟩ rfl
      · rename_i hframe
        exact outcome_notAwaited h hframe
    · rw [h.state]
      show Outcome sending filename (k + 2) m _
        (if cmdType = 0xB3 ∧ be32 recvBuff 3 = m.sequence then _ else _)
      split
      · rename_i hframe
        obtain ⟨rfl, hsequence⟩ := hframe
        exact outcome_data hsize hne h hsequence ⟨rfl, hmd5, hview, hdata⟩
      · rename_i hother
        refine outcome_notAwaited h fun hframe => hother ⟨hframe.1, ?_⟩
        rw [h.sequence (by omega)]
        exact hframe.2.1

/-- A session that gets through goes on getting through, or has stored everything. -/
theorem Outcome.through {budget : Nat} {input : MakeraInput} {inputs : List MakeraInput}
    {next : Receiving × Makera × Turn} (h : Outcome sending filename k m input next)
    (hthrough : FramedThrough sending.packets.length k budget (input :: inputs))
    (hbudget : m.impatience + budget ≤ patience) :
    (next.2.2 = .goesOn ∧ ∃ k' budget', FramedThrough sending.packets.length k' budget' inputs ∧
      Stage sending filename k' next.1 next.2.1 ∧ next.2.1.impatience + budget' ≤ patience) ∨
    (next.2.2 = .uploadSuccess ∧ Stored filename next.1 sending.packets.flatten sending.md5) := by
  have hn := hthrough.zero_lt
  -- By what the controller sends next: the last frame, an awaited one, or something else.
  cases hthrough with
  | last _ hframe =>
    cases h with
    | ended hends => exact absurd hends (not_endsSession_of_isFrame hframe)
    | idle hnot => exact absurd hframe hnot
    | next _ hk => omega
    | last _ _ hstored => exact .inr ⟨rfl, hstored⟩
  | next hk hframe hrest =>
    cases h with
    | ended hends => exact absurd hends (not_endsSession_of_isFrame hframe)
    | idle hnot => exact absurd hframe hnot
    | next _ _ hstage hpatient =>
      refine .inl ⟨rfl, _, _, hrest, hstage, ?_⟩
      rw [hpatient, Nat.zero_add]
    | last _ hlast => omega
  | other hnot hends hrest =>
    cases h with
    | ended hended => exact absurd hended hends
    | next hframe => exact absurd hframe hnot
    | last hframe => exact absurd hframe hnot
    | idle _ hstage hrise hturn =>
      obtain rfl | ⟨-, hover⟩ := hturn
      · refine .inl ⟨rfl, _, _, hrest, hstage, (Nat.add_le_add_right hrise _).trans ?_⟩
        omega
      · omega

theorem stage_zero (h : Stored filename r [] []) : Stage sending filename 0 r {} :=
  ⟨h, rfl, fun htwo => absurd htwo (by decide), fun htwo => absurd htwo (by decide), Nat.zero_le _⟩

variable (success : Makera → Receiving → UploadEnd × Card) {inputs : List MakeraInput}

/-- However a session of the controller ends, a success comes with everything stored. -/
theorem rounds_stored (hsize : sending.packets.length < 2 ^ 32)
    (hne : dataPath filename ≠ md5Filename filename) (hr : Stored filename r [] [])
    (hfrom : ∀ input ∈ inputs, FromController sending input) :
    (∃ r', SameFiles filename r r' ∧
      rounds (round filename) success filename r {} inputs = (.running, r'.card)) ∨
    (∃ r', SameFiles filename r r' ∧
      rounds (round filename) success filename r {} inputs = uploadError filename r') ∨
    ∃ m' r', (SameFiles filename r r' ∧ Stored filename r' sending.packets.flatten sending.md5) ∧
      rounds (round filename) success filename r {} inputs = success m' r' := by
  have hoff := fun (input : MakeraInput) (rest : List MakeraInput)
    (h : ∀ input' ∈ input :: rest, FromController sending input') => h input (List.mem_cons_self ..)
  -- The stage and that the files of others stay, kept by every round; the three ends are those of
  -- the rule.
  refine @rounds_rule Makera MakeraInput (round filename)
    (fun r' m' rest => (SameFiles filename r r' ∧ ∃ k, Stage sending filename k r' m') ∧
      ∀ input ∈ rest, FromController sending input)
    _ _ _ filename success (fun _ _ h => h.1.1) ?_ ?_ ?_ r {} inputs
    ⟨⟨SameFiles.refl filename r, 0, stage_zero hr⟩, hfrom⟩
  · rintro r' m' input rest ⟨⟨hsame, k, hstage⟩, hrest⟩ hgoes
    refine ⟨⟨hsame.trans (sameFiles_makera ..), ?_⟩,
      fun input' h => hrest input' (List.mem_cons_of_mem _ h)⟩
    have houtcome := outcome_round hsize hne hstage (hoff input rest hrest)
    generalize round filename r' m' input = next at houtcome hgoes ⊢
    cases houtcome with
    | ended => exact Turn.noConfusion hgoes
    | idle _ hstage => exact ⟨k, hstage⟩
    | next _ _ hstage => exact ⟨k + 1, hstage⟩
    | last => exact Turn.noConfusion hgoes
  · exact fun _ _ _ _ h _ => h.1.1.trans (sameFiles_makera ..)
  · rintro r' m' input rest ⟨⟨hsame, k, hstage⟩, hrest⟩ hsuccess
    refine ⟨hsame.trans (sameFiles_makera ..), ?_⟩
    have houtcome := outcome_round hsize hne hstage (hoff input rest hrest)
    generalize round filename r' m' input = next at houtcome hsuccess ⊢
    cases houtcome with
    | ended => exact Turn.noConfusion hsuccess
    | idle _ _ _ hturn =>
      obtain rfl | ⟨rfl, -⟩ := hturn
      · exact Turn.noConfusion hsuccess
      · exact Turn.noConfusion hsuccess
    | next => exact Turn.noConfusion hsuccess
    | last _ _ hstored => exact hstored

/-- A session of the controller that gets through ends in success. -/
theorem rounds_through (hsize : sending.packets.length < 2 ^ 32)
    (hne : dataPath filename ≠ md5Filename filename) (hr : Stored filename r [] [])
    (hfrom : ∀ input ∈ inputs, FromController sending input)
    (hthrough : FramedThrough sending.packets.length 0 patience inputs) :
    ∃ m' r', (SameFiles filename r r' ∧ Stored filename r' sending.packets.flatten sending.md5) ∧
      rounds (round filename) success filename r {} inputs = success m' r' := by
  refine @rounds_total Makera MakeraInput (round filename)
    (fun r' m' rest => SameFiles filename r r' ∧ (∀ input ∈ rest, FromController sending input) ∧
      ∃ k budget, FramedThrough sending.packets.length k budget rest ∧
        Stage sending filename k r' m' ∧ m'.impatience + budget ≤ patience)
    (fun r' => SameFiles filename r r' ∧ Stored filename r' sending.packets.flatten sending.md5)
    filename success ?_ ?_ r {} inputs
    ⟨SameFiles.refl filename r, hfrom, 0, patience, hthrough, stage_zero hr, le_of_eq (Nat.zero_add _)⟩
  · rintro r' m' ⟨-, -, k, budget, hnone, -⟩
    cases hnone
  · rintro r' m' input rest ⟨hsame, hrest, k, budget, hthrough, hstage, hbudget⟩
    have hsame := hsame.trans (sameFiles_makera filename r' m' input)
    have houtcome := outcome_round hsize hne hstage (hrest input (List.mem_cons_self ..))
    obtain ⟨hgoes, hnext⟩ | ⟨hsuccess, hstored⟩ := houtcome.through hthrough hbudget
    · exact .inl ⟨hgoes, hsame, fun input' h => hrest input' (List.mem_cons_of_mem _ h), hnext⟩
    · exact .inr ⟨hsuccess, hsame, hstored⟩

end

end Makera

end CarveraFirmware.Transfers
