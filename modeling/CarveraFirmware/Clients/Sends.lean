import Mathlib
import CarveraFirmware.Library.Halting
import CarveraFirmware.Clients.Table

/-!
# Sending to one client

`send_to_client` of `libs/ClientTable.h` offers the data to the WiFi module a chunk at a time, and
tries again for a while when the module is busy. What comes of it is noted on the client.
-/

namespace CarveraFirmware.Clients

open WrapClock

def maxConsecutiveSendFailures : UInt8 := 20
def maxBusySendWaitUs : UInt32 := 100000

def sendErrorMeansClientGone (errcode : UInt8) : Bool :=
  errcode = 0x14 || errcode = 0x15 || errcode = 0x1A

def sendErrorMeansModuleBusy (errcode : UInt8) : Bool :=
  errcode = 0x10 || errcode = 0x11 || errcode = 0x12 || errcode = 0x1D

/-- How a send ended: with everything sent, or with the code that the module gave. -/
inductive SendOutcome where
  | sentEverything
  | failed (errcode : UInt8)
  deriving DecidableEq

/-- `note_send_result(client, sent_everything, errcode)`. -/
def Client.noteSendResult (client : Client) : SendOutcome → Client
  | .sentEverything => { client with consecutiveSendFailures := 0 }
  | .failed errcode =>
    if sendErrorMeansClientGone errcode then { client with sendFailed := true }
    else if client.consecutiveSendFailures < 0xFF then
      { client with consecutiveSendFailures := client.consecutiveSendFailures + 1 }
    else client

def Client.sendsShowClientGone (client : Client) : Bool :=
  client.sendFailed || client.consecutiveSendFailures ≥ maxConsecutiveSendFailures

/-- What the module does with a chunk: how many of the bytes it takes, and the code it gives when
that is not all of them. -/
structure ChunkAnswer (size : Nat) where
  sent : Nat
  errcode : UInt8
  sent_le : sent ≤ size

/-- A call of `send_to_client`: what the module answers to each `send_chunk(offset, size)`, and the
true time of each reading of the clock. -/
structure SendCall where
  data : List UInt8
  maxChunk : Nat
  maxChunk_pos : 0 < maxChunk
  answer : (call offset size : Nat) → ChunkAnswer size
  clock : Nat → Nat

/-- The loop of `send_to_client`. `taken` is what the module has taken, `shortfalls` the codes of
the chunks it did not take whole. -/
structure Sending where
  sentIndex : Nat := 0
  calls : Nat := 0
  readings : Nat := 1
  taken : List UInt8 := []
  shortfalls : List UInt8 := []

structure SendResult where
  client : Client
  sentIndex : Nat
  outcome : SendOutcome
  taken : List UInt8

namespace SendCall

def length (call : SendCall) : Nat := call.data.length

def chunk (call : SendCall) (s : Sending) : Nat :=
  if call.length - s.sentIndex > call.maxChunk then call.maxChunk else call.length - s.sentIndex

def answerAt (call : SendCall) (s : Sending) : ChunkAnswer (call.chunk s) :=
  call.answer s.calls s.sentIndex (call.chunk s)

/-- The bytes from the offset that were offered, as far as the module took them. -/
def takenAt (call : SendCall) (s : Sending) : List UInt8 :=
  ((call.data.drop s.sentIndex).take (call.chunk s)).take (call.answerAt s).sent

/-- After the chunk was taken whole. -/
def wentThrough (call : SendCall) (s : Sending) : Sending :=
  { s with
    sentIndex := s.sentIndex + (call.answerAt s).sent
    calls := s.calls + 1
    taken := s.taken ++ call.takenAt s }

/-- After the chunk was not taken whole, and the clock was read. -/
def cameShort (call : SendCall) (s : Sending) : Sending :=
  { call.wentThrough s with
    readings := s.readings + 1
    shortfalls := s.shortfalls ++ [(call.answerAt s).errcode] }

/-- A turn of the loop of `send_to_client(client, length, max_chunk, ...)`, or its end. -/
def turn (call : SendCall) (client : Client) (s : Sending) : Sending ⊕ SendResult :=
  if s.sentIndex < call.length then
    let errcode := (call.answerAt s).errcode
    let sent := s.sentIndex + (call.answerAt s).sent
    if (call.answerAt s).sent = call.chunk s then .inl (call.wentThrough s)
    else if client.consecutiveSendFailures = 0 ∧ sendErrorMeansModuleBusy errcode = true ∧
        stamp (call.clock s.readings) - stamp (call.clock 0) < maxBusySendWaitUs then
      .inl (call.cameShort s)
    else
      .inr ⟨client.noteSendResult (.failed errcode), sent, .failed errcode,
        s.taken ++ call.takenAt s⟩
  else .inr ⟨client.noteSendResult .sentEverything, s.sentIndex, .sentEverything, s.taken⟩

/-- The call ends with a result. -/
def Ends (call : SendCall) (client : Client) (r : SendResult) : Prop :=
  ∃ s, Leads (call.turn client) {} s ∧ call.turn client s = .inr r

/-- The chunk did not go through, and the loop goes on. -/
def Retries (call : SendCall) (client : Client) (s : Sending) : Prop :=
  call.turn client s = .inl (call.cameShort s) ∧ (call.answerAt s).sent ≠ call.chunk s

/-- A clock that goes on for ever, and is read before 100 ms short of a whole turn of its counter
have gone by. -/
structure Advances (clock : Nat → Nat) : Prop where
  mono : Monotone clock
  unbounded : ∀ time, ∃ k, time ≤ clock k
  often : ∀ k, clock (k + 1) + 100000 ≤ clock k + 2 ^ 32

/-! ## One call -/

section OneCall

variable {call : SendCall} {client : Client} {s : Sending}

theorem chunk_le (call : SendCall) (s : Sending) : call.chunk s ≤ call.length - s.sentIndex := by
  unfold chunk
  split <;> omega

theorem chunk_pos (h : s.sentIndex < call.length) : 0 < call.chunk s := by
  have hpos := call.maxChunk_pos
  unfold chunk
  split <;> omega

theorem takenAt_eq (call : SendCall) (s : Sending) :
    call.takenAt s = (call.data.drop s.sentIndex).take (call.answerAt s).sent := by
  rw [takenAt, List.take_take, Nat.min_eq_left (call.answerAt s).sent_le]

/-- What a turn that goes on can be. -/
theorem turn_goes_on {s' : Sending} (h : call.turn client s = .inl s') :
    s.sentIndex < call.length ∧
      ((call.answerAt s).sent = call.chunk s ∧ s' = call.wentThrough s ∨
        sendErrorMeansModuleBusy (call.answerAt s).errcode = true ∧
          stamp (call.clock s.readings) - stamp (call.clock 0) < maxBusySendWaitUs ∧
          s' = call.cameShort s) := by
  simp only [turn] at h
  split_ifs at h with hlt hwhole hbusy
  · exact ⟨hlt, .inl ⟨hwhole, (Sum.inl.inj h).symm⟩⟩
  · exact ⟨hlt, .inr ⟨hbusy.2.1, hbusy.2.2, (Sum.inl.inj h).symm⟩⟩

/-- What the end of the loop can be. -/
theorem turn_ends {r : SendResult} (h : call.turn client s = .inr r) :
    (¬ s.sentIndex < call.length ∧
        r = ⟨client.noteSendResult .sentEverything, s.sentIndex, .sentEverything, s.taken⟩) ∨
      s.sentIndex < call.length ∧ (call.answerAt s).sent ≠ call.chunk s ∧
        r = ⟨client.noteSendResult (.failed (call.answerAt s).errcode),
          s.sentIndex + (call.answerAt s).sent, .failed (call.answerAt s).errcode,
          s.taken ++ call.takenAt s⟩ := by
  simp only [turn] at h
  split_ifs at h with hlt hwhole hbusy
  · exact .inr ⟨hlt, hwhole, (Sum.inr.inj h).symm⟩
  · exact .inl ⟨hlt, (Sum.inr.inj h).symm⟩

/-- What holds while a call sends. -/
structure Underway (call : SendCall) (s : Sending) : Prop where
  taken : s.taken = call.data.take s.sentIndex
  sentIndex_le : s.sentIndex ≤ call.length
  busy : ∀ e ∈ s.shortfalls, sendErrorMeansModuleBusy e = true
  readings_pos : 0 < s.readings
  soon : call.clock (s.readings - 1) < call.clock 0 + 100000

theorem Underway.start (call : SendCall) : call.Underway {} :=
  ⟨rfl, Nat.zero_le _, by simp, Nat.one_pos, by simp⟩

/-- What a chunk adds to the bytes that were taken. -/
theorem Underway.taken_next (h : call.Underway s) :
    s.taken ++ call.takenAt s = call.data.take (s.sentIndex + (call.answerAt s).sent) ∧
      s.sentIndex + (call.answerAt s).sent ≤ call.length := by
  have hsent := (call.answerAt s).sent_le
  have hchunk := call.chunk_le s
  have hle := h.sentIndex_le
  refine ⟨?_, by omega⟩
  rw [takenAt_eq, h.taken, ← List.take_add]

/-- The next reading of the clock comes before its counter has gone round. -/
theorem Underway.elapsed (h : call.Underway s) (hclock : Advances call.clock) :
    (stamp (call.clock s.readings) - stamp (call.clock 0)).toNat =
      call.clock s.readings - call.clock 0 := by
  apply stamp_sub_of_lt (hclock.mono (Nat.zero_le _))
  have hoften := hclock.often (s.readings - 1)
  have hsoon := h.soon
  rw [Nat.sub_add_cancel h.readings_pos] at hoften
  omega

theorem Underway.early (h : call.Underway s) (hclock : Advances call.clock)
    (hwait : stamp (call.clock s.readings) - stamp (call.clock 0) < maxBusySendWaitUs) :
    call.clock s.readings < call.clock 0 + 100000 := by
  rw [UInt32.lt_iff_toNat_lt, h.elapsed hclock] at hwait
  have hlimit : maxBusySendWaitUs.toNat = 100000 := rfl
  omega

theorem Underway.wentThrough (h : call.Underway s) : call.Underway (call.wentThrough s) :=
  ⟨h.taken_next.1, h.taken_next.2, h.busy, h.readings_pos, h.soon⟩

theorem Underway.cameShort (h : call.Underway s) (hclock : Advances call.clock)
    (hbusy : sendErrorMeansModuleBusy (call.answerAt s).errcode = true)
    (hwait : stamp (call.clock s.readings) - stamp (call.clock 0) < maxBusySendWaitUs) :
    call.Underway (call.cameShort s) := by
  refine ⟨h.taken_next.1, h.taken_next.2, ?_, Nat.succ_pos _, h.early hclock hwait⟩
  intro e he
  obtain he | he := List.mem_append.mp he
  · exact h.busy e he
  · rw [List.mem_singleton.mp he]
    exact hbusy

/-- What may be said of a retry: the module is busy, less than 100 ms have passed, and every earlier
chunk that came short of this call found it busy as well. -/
structure MayRetry (call : SendCall) (client : Client) (s : Sending) : Prop where
  mayWait : client.consecutiveSendFailures = 0
  busy : sendErrorMeansModuleBusy (call.answerAt s).errcode = true
  early : call.clock s.readings < call.clock 0 + 100000
  earlier : ∀ e ∈ s.shortfalls, sendErrorMeansModuleBusy e = true

theorem Underway.mayRetry (h : call.Underway s) (hclock : Advances call.clock)
    (hretry : call.Retries client s) : call.MayRetry client s := by
  obtain ⟨hturn, hshort⟩ := hretry
  simp only [turn] at hturn
  split_ifs at hturn with hlt hbusy
  exact ⟨hbusy.1, hbusy.2.1, h.early hclock hbusy.2.2, h.busy⟩

/-- A call ends, whatever the module does. -/
theorem turn_safe (call : SendCall) (hclock : Advances call.clock) (client : Client) :
    Safe (call.turn client) call.Underway
      (fun _ r => r.sentIndex ≤ call.length ∧ r.taken = call.data.take r.sentIndex ∧
        r.client = client.noteSendResult r.outcome ∧
        (r.outcome = .sentEverything ↔ r.sentIndex = call.length)) {} := by
  obtain ⟨limit, hlimit⟩ := hclock.unbounded (call.clock 0 + 100000)
  -- either there are fewer readings to come, or fewer bytes
  let size (s : Sending) : Nat ×ₗ Nat := toLex (limit - s.readings, call.length - s.sentIndex)
  refine safe_of_wellFounded (InvImage.wf size wellFounded_lt) ?_ ?_ _ (.start call)
  · intro s s' h hturn
    obtain ⟨hlt, ⟨hwhole, rfl⟩ | ⟨hbusy, hwait, rfl⟩⟩ := turn_goes_on hturn
    · refine ⟨h.wentThrough, Prod.Lex.toLex_lt_toLex.mpr (.inr ⟨rfl, ?_⟩)⟩
      have hpos := chunk_pos hlt
      show call.length - (s.sentIndex + (call.answerAt s).sent) < call.length - s.sentIndex
      omega
    · refine ⟨h.cameShort hclock hbusy hwait, Prod.Lex.toLex_lt_toLex.mpr (.inl ?_)⟩
      have hearly := h.early hclock hwait
      have hleft : s.readings < limit := by
        by_contra hnot
        have hmono := hclock.mono (Nat.not_lt.mp hnot)
        omega
      show limit - (s.readings + 1) < limit - s.readings
      omega
  · intro s r h hturn
    obtain ⟨hdone, rfl⟩ | ⟨hlt, hshort, rfl⟩ := turn_ends hturn
    · have hall : s.sentIndex = call.length := Nat.le_antisymm h.sentIndex_le (Nat.not_lt.mp hdone)
      exact ⟨h.sentIndex_le, h.taken, rfl, iff_of_true rfl hall⟩
    · refine ⟨h.taken_next.2, h.taken_next.1, rfl, iff_of_false (by simp) ?_⟩
      have hsent := (call.answerAt s).sent_le
      have hchunk := call.chunk_le s
      show s.sentIndex + (call.answerAt s).sent ≠ call.length
      omega

end OneCall

end SendCall

/-! ## One client over many calls -/

open SendCall

/-- The sends to one client, one after another, and what they leave noted on it. -/
inductive SendHistory (client : Client) : List SendOutcome → Client → Prop
  | start : SendHistory client [] client
  | send {outcomes : List SendOutcome} {c : Client} {call : SendCall} {r : SendResult}
      (h : SendHistory client outcomes c) (clock : Advances call.clock) (ends : call.Ends c r) :
      SendHistory client (outcomes ++ [r.outcome]) r.client

/-- The last `n` sends, or more, have all failed. -/
def LastFailed (n : Nat) (outcomes : List SendOutcome) : Prop :=
  ∃ earlier last, outcomes = earlier ++ last ∧ n ≤ last.length ∧
    ∀ o ∈ last, o ≠ SendOutcome.sentEverything

/-- A send has failed with a code that says that the client is gone. -/
def FailedGone (outcomes : List SendOutcome) : Prop :=
  ∃ errcode, SendOutcome.failed errcode ∈ outcomes ∧ sendErrorMeansClientGone errcode = true

section Outcomes

variable {outcomes : List SendOutcome} {client c : Client}

theorem SendHistory.noted (h : SendHistory client outcomes c) :
    c = outcomes.foldl Client.noteSendResult client := by
  induction h with
  | start => rfl
  | @send outcomes c call r _ hclock hends ih =>
    obtain ⟨s, hlead, hhalt⟩ := hends
    obtain ⟨-, -, hnote, -⟩ := (turn_safe call hclock c).post_of_halts hlead hhalt
    rw [hnote, ih, List.foldl_append]
    rfl

theorem lastFailed_zero (outcomes : List SendOutcome) : LastFailed 0 outcomes :=
  ⟨outcomes, [], by simp, Nat.zero_le _, by simp⟩

theorem lastFailed_concat {n : Nat} {o : SendOutcome} :
    LastFailed (n + 1) (outcomes ++ [o]) ↔ o ≠ .sentEverything ∧ LastFailed n outcomes := by
  constructor
  · rintro ⟨earlier, last, h, hlen, hfailed⟩
    obtain rfl | ⟨last, x, rfl⟩ := List.eq_nil_or_concat' last
    · simp at hlen
    · rw [← List.append_assoc] at h
      obtain ⟨rfl, hx⟩ := List.append_inj' h rfl
      obtain rfl := (List.cons.inj hx).1
      rw [List.length_append, List.length_singleton] at hlen
      exact ⟨hfailed _ (by simp), earlier, last, rfl, by omega, fun p hp => hfailed p (by simp [hp])⟩
  · rintro ⟨ho, earlier, last, rfl, hlen, hfailed⟩
    refine ⟨earlier, last ++ [o], by simp, ?_, ?_⟩
    · rw [List.length_append, List.length_singleton]
      omega
    · intro p hp
      obtain hp | hp := List.mem_append.mp hp
      · exact hfailed p hp
      · rwa [List.mem_singleton.mp hp]

theorem failedGone_concat {o : SendOutcome} :
    FailedGone (outcomes ++ [o]) ↔ FailedGone outcomes ∨ FailedGone [o] := by
  simp only [FailedGone, List.mem_append, or_and_right, exists_or]

/-- The mark that a client is gone stays set. -/
theorem sendFailed_noted (hclient : client.sendFailed = false) :
    (outcomes.foldl Client.noteSendResult client).sendFailed = true ↔ FailedGone outcomes := by
  induction outcomes using List.reverseRecOn with
  | nil => simp [hclient, FailedGone]
  | append_singleton outcomes o ih =>
    rw [List.foldl_append, List.foldl_cons, List.foldl_nil, failedGone_concat, ← ih]
    cases o with
    | sentEverything => simp [Client.noteSendResult, FailedGone]
    | failed e =>
      simp only [Client.noteSendResult, FailedGone, List.mem_singleton, SendOutcome.failed.injEq,
        exists_eq_left]
      split_ifs with hgone <;> simp [hgone]

/-- The count of failures since the last success, up to where it stays. -/
theorem failures_noted (hclient : client.consecutiveSendFailures = 0) (hgone : ¬ FailedGone outcomes)
    {n : Nat} (hn : n ≤ 255) :
    n ≤ (outcomes.foldl Client.noteSendResult client).consecutiveSendFailures.toNat ↔
      LastFailed n outcomes := by
  induction outcomes using List.reverseRecOn generalizing n with
  | nil =>
    rw [List.foldl_nil, hclient]
    constructor
    · intro h
      obtain rfl := Nat.le_zero.mp h
      exact lastFailed_zero []
    · rintro ⟨earlier, last, h, hlen, -⟩
      obtain ⟨-, rfl⟩ := List.append_eq_nil_iff.mp h.symm
      exact hlen
  | append_singleton outcomes o ih =>
    rw [failedGone_concat, not_or] at hgone
    rw [List.foldl_append, List.foldl_cons, List.foldl_nil]
    cases n with
    | zero => exact iff_of_true (Nat.zero_le _) (lastFailed_zero _)
    | succ n =>
      rw [lastFailed_concat, ← ih hgone.1 (by omega)]
      cases o with
      | sentEverything => simp [Client.noteSendResult]
      | failed e =>
        have hnot : ¬ sendErrorMeansClientGone e = true := by
          intro he
          exact hgone.2 ⟨e, List.mem_singleton_self _, he⟩
        rw [and_iff_right (by simp), Client.noteSendResult, if_neg hnot]
        set count := (outcomes.foldl Client.noteSendResult client).consecutiveSendFailures
        -- the counter stays at 255, which is as many as are asked for
        split_ifs with hroom
        · have hlt : count.toNat < 255 := UInt8.lt_iff_toNat_lt.mp hroom
          have hsucc : (count + 1).toNat = count.toNat + 1 := by
            rw [UInt8.toNat_add, UInt8.toNat_one]
            omega
          rw [hsucc]
          omega
        · have hfull : ¬ count.toNat < 255 := fun h => hroom (UInt8.lt_iff_toNat_lt.mpr h)
          change n + 1 ≤ count.toNat ↔ n ≤ count.toNat
          omega

theorem sendsShowClientGone_iff (h : SendHistory client outcomes c)
    (hfailed : client.sendFailed = false) (hcount : client.consecutiveSendFailures = 0) :
    c.sendsShowClientGone = true ↔ FailedGone outcomes ∨ LastFailed 20 outcomes := by
  rw [h.noted, Client.sendsShowClientGone, Bool.or_eq_true, sendFailed_noted hfailed]
  by_cases hgone : FailedGone outcomes
  · exact iff_of_true (.inl hgone) (.inl hgone)
  · rw [← failures_noted hcount hgone (by decide), decide_eq_true_iff, ge_iff_le,
      UInt8.le_iff_toNat_le]
    rfl

end Outcomes

/-- On a clock that advances a send ends, and has given the module the data up to the length that it
returns; it goes on after a chunk that came short only while the module is busy, in the first 100 ms,
and if no chunk failed for another reason. Over the sends to a client from the first one on, it shows
as gone exactly if one of them failed with a code that says so, or the last 20 failed. -/
theorem send_to_slow_client :
    (∀ (call : SendCall) (client : Client), Advances call.clock →
      Safe (call.turn client)
        (fun s => s.taken = call.data.take s.sentIndex ∧
          (call.Retries client s → call.MayRetry client s))
        (fun _ r => r.sentIndex ≤ call.length ∧ r.taken = call.data.take r.sentIndex ∧
          (r.outcome = .sentEverything ↔ r.sentIndex = call.length)) {}) ∧
    ∀ (client c : Client) (outcomes : List SendOutcome), client.sendFailed = false →
      client.consecutiveSendFailures = 0 → SendHistory client outcomes c →
      (c.sendsShowClientGone = true ↔ FailedGone outcomes ∨ LastFailed 20 outcomes) := by
  constructor
  · intro call client hclock
    refine (turn_safe call hclock client).imp ?_ ?_
    · exact fun s h => ⟨h.taken, h.mayRetry hclock⟩
    · exact fun _ r _ h => ⟨h.1, h.2.1, h.2.2.2⟩
  · exact fun client c outcomes hfailed hcount h => sendsShowClientGone_iff h hfailed hcount

/-- A call of one byte on a clock of one millisecond a reading. -/
def byteCall (answer : (call offset size : Nat) → ChunkAnswer size) : SendCall :=
  { data := [0x55], maxChunk := 1460, maxChunk_pos := by decide, answer := answer
    clock := fun k => 1000 * k }

theorem byteCall_advances (answer : (call offset size : Nat) → ChunkAnswer size) :
    Advances (byteCall answer).clock :=
  ⟨fun _ _ h => Nat.mul_le_mul_left 1000 h, fun time => ⟨time, by simp only [byteCall]; omega⟩,
    fun k => by simp only [byteCall]; omega⟩

/-- The first send to a client fails because its connection is closed. -/
theorem history_closed : SendHistory {} [.failed 0x15] (({} : Client).noteSendResult (.failed 0x15)) :=
  @SendHistory.send {} [] {} _ ⟨({} : Client).noteSendResult (.failed 0x15), 0, .failed 0x15, []⟩
    .start (byteCall_advances fun _ _ _ => ⟨0, 0x15, Nat.zero_le _⟩) ⟨{}, .refl, rfl⟩

/-- The module takes two of the first three bytes, then none, and then what is left. -/
def slowCall : SendCall :=
  { data := [1, 2, 3, 4, 5], maxChunk := 3, maxChunk_pos := by decide
    answer := fun
      | 0, _, size => ⟨min 2 size, 0x10, Nat.min_le_right ..⟩
      | 1, _, _ => ⟨0, 0x12, Nat.zero_le _⟩
      | _, _, size => ⟨size, 0, le_rfl⟩
    clock := fun k => 1000 * k }

theorem slowCall_advances : Advances slowCall.clock :=
  ⟨fun _ _ h => Nat.mul_le_mul_left 1000 h, fun time => ⟨time, by simp only [slowCall]; omega⟩,
    fun k => by simp only [slowCall]; omega⟩

/-- A chunk is taken in part, one not at all, and everything arrives; and a client whose connection was
closed shows as gone. -/
theorem send_to_slow_client_closed :
    (∃ s r, slowCall.Retries {} s ∧ slowCall.MayRetry {} s ∧ s.taken = [1, 2] ∧ slowCall.Ends {} r ∧
        r.taken = slowCall.data.take r.sentIndex ∧ r.sentIndex = 5) ∧
      (({} : Client).noteSendResult (.failed 0x15)).sendsShowClientGone = true := by
  constructor
  · have hsafe := send_to_slow_client.1 slowCall {} slowCall_advances
    have hfirst : Leads (slowCall.turn {}) {} (slowCall.cameShort {}) := .single rfl
    have hretries : slowCall.Retries {} (slowCall.cameShort {}) := ⟨rfl, by decide⟩
    have hlast : Leads (slowCall.turn {}) {}
        (slowCall.wentThrough (slowCall.cameShort (slowCall.cameShort {}))) :=
      .head rfl (.head rfl (.single rfl))
    exact ⟨_, ⟨_, 5, .sentEverything, [1, 2, 3, 4, 5]⟩, hretries, (hsafe.1 _ hfirst).2 hretries, rfl,
      ⟨_, hlast, rfl⟩, (hsafe.post_of_halts hlast rfl).2.1, rfl⟩
  · exact (send_to_slow_client.2 {} _ _ rfl rfl history_closed).mpr
      (.inl ⟨0x15, List.mem_singleton_self _, rfl⟩)

/-- The module is always busy, and each reading of the clock comes a turn of its counter later. -/
def stuckCall : SendCall :=
  { data := [0x55], maxChunk := 1460, maxChunk_pos := by decide
    answer := fun _ _ _ => ⟨0, 0x12, Nat.zero_le _⟩
    clock := fun k => k * 2 ^ 32 }

theorem stamp_turn (k : Nat) : stamp (k * 2 ^ 32) = 0 := by
  apply UInt32.toNat_inj.mp
  rw [stamp_toNat, Nat.mul_mod_left]
  rfl

theorem stuckCall_turn {s : Sending} (h : s.sentIndex = 0) :
    stuckCall.turn {} s = .inl (stuckCall.cameShort s) := by
  have hchunk : stuckCall.chunk s = 1 := by
    rw [chunk, h]
    rfl
  have hlt : s.sentIndex < stuckCall.length := by
    rw [h]
    decide
  have hshort : ¬ (stuckCall.answerAt s).sent = stuckCall.chunk s := by
    show 0 ≠ stuckCall.chunk s
    rw [hchunk]
    exact Nat.zero_ne_one
  have hwait : stamp (stuckCall.clock s.readings) - stamp (stuckCall.clock 0) < maxBusySendWaitUs := by
    show stamp (s.readings * 2 ^ 32) - stamp (0 * 2 ^ 32) < maxBusySendWaitUs
    rw [stamp_turn, stamp_turn]
    decide
  simp only [turn]
  rw [if_pos hlt, if_neg hshort, if_pos ⟨trivial, rfl, hwait⟩]

/-- A client stays gone after a send that goes through; and where the clock goes round between two
readings, a call to a busy module goes on for ever. -/
theorem gone_after_success :
    StrictMono stuckCall.clock ∧ (∀ r, ¬ stuckCall.Ends {} r) ∧
      ∃ c, SendHistory {} [.failed 0x15, .sentEverything] c ∧ c.sendsShowClientGone = true ∧
        ¬ LastFailed 1 [.failed 0x15, .sentEverything] := by
  refine ⟨fun a b h => Nat.mul_lt_mul_of_pos_right h (by decide), ?_, ?_⟩
  · rintro r ⟨s, hlead, hhalt⟩
    have hzero : s.sentIndex = 0 := by
      clear hhalt
      induction hlead with
      | refl => rfl
      | tail _ hstep ih =>
        rw [stuckCall_turn ih] at hstep
        obtain rfl := Sum.inl.inj hstep
        exact ih
    rw [stuckCall_turn hzero] at hhalt
    cases hhalt
  · have hsent : (byteCall fun _ _ size => ⟨size, 0, le_rfl⟩).Ends
        (({} : Client).noteSendResult (.failed 0x15))
        ⟨_, 1, .sentEverything, [0x55]⟩ :=
      ⟨(byteCall fun _ _ size => ⟨size, 0, le_rfl⟩).wentThrough {}, .single rfl, rfl⟩
    refine ⟨_, history_closed.send (byteCall_advances _) hsent, rfl, ?_⟩
    intro h
    have hfailed : LastFailed 1 ([.failed 0x15] ++ [.sentEverything]) := h
    exact (lastFailed_concat.mp hfailed).1 rfl

end CarveraFirmware.Clients
