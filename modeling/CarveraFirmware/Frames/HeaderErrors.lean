import Mathlib
import CarveraFirmware.Frames.Resync

/-!
# The decoder that gives up on a header hunt

`ResyncingDecoder` of `libs/FrameResync.cpp` wraps a `FrameDecoder` and counts the bytes that leave
it without even the first byte of a header. At the twentieth it resets the wrapped decoder and says
so, once for each connection. A decoder that is reset between two frames goes on as it would have,
so the wrapper hands on every frame of the plain decoder.
-/

namespace CarveraFirmware.Frames

open FrameDecoder

inductive ResyncResult where
  | incomplete | complete | invalidLength | invalidCrc | invalidFooter | marked | headerError
  deriving DecidableEq, Repr

/-- The result of the wrapped decoder under the wrapper's name for it. -/
def passOn : DecodeResult → ResyncResult
  | .incomplete => .incomplete
  | .complete => .complete
  | .invalidLength => .invalidLength
  | .invalidCrc => .invalidCrc
  | .invalidFooter => .invalidFooter
  | .marked => .marked

def maxHeaderErrors : UInt16 := 20

structure ResyncingDecoder where
  decoder : FrameDecoder := {}
  headerErrors : UInt16 := 0
  notifyPending : Bool := false
  notifiedOnce : Bool := false

namespace ResyncingDecoder

def decodeByte (r : ResyncingDecoder) (byte : UInt8) (now : UInt32) :
    ResyncResult × ResyncingDecoder :=
  let inner := r.decoder.decodeByte byte now
  if inner.1 = .incomplete then
    if inner.2.inProgress then (.incomplete, { r with decoder := inner.2 })
    else if r.headerErrors + 1 ≥ maxHeaderErrors then
      (.headerError, {
        decoder := inner.2.reset
        headerErrors := 0
        notifyPending := if !r.notifiedOnce then true else r.notifyPending
        notifiedOnce := true })
    else (.incomplete, { r with decoder := inner.2, headerErrors := r.headerErrors + 1 })
  else (passOn inner.1, { r with decoder := inner.2, headerErrors := 0 })

def reset (r : ResyncingDecoder) : ResyncingDecoder := { decoder := r.decoder.reset }

def markFrame (r : ResyncingDecoder) : ResyncingDecoder :=
  { r with decoder := r.decoder.markFrame }

def consumeNotifyPending (r : ResyncingDecoder) : Bool × ResyncingDecoder :=
  (r.notifyPending, { r with notifyPending := false })

end ResyncingDecoder

/-- What a caller does to the wrapper. -/
inductive ResyncCall where
  | byte (b : UInt8) (now : UInt32)
  | mark
  | reset
  | consumeNotify

def ResyncCall.apply (r : ResyncingDecoder) : ResyncCall → ResyncingDecoder
  | .byte b now => (r.decodeByte b now).2
  | .mark => r.markFrame
  | .reset => r.reset
  | .consumeNotify => r.consumeNotifyPending.2

/-- The same call on a plain decoder, which has nothing to be consumed. -/
def ResyncCall.plain : ResyncCall → Option DecoderCall
  | .byte b now => some (.byte b now)
  | .mark => some .mark
  | .reset => some .reset
  | .consumeNotify => none

/-- A plain decoder, and the wrapper, after the same calls. -/
def plainAfter (p : Packet) (calls : List ResyncCall) : FrameDecoder :=
  (calls.filterMap ResyncCall.plain).foldl DecoderCall.apply { packet := p }

def resyncAfter (p : Packet) (calls : List ResyncCall) : ResyncingDecoder :=
  calls.foldl ResyncCall.apply { decoder := { packet := p } }

theorem resyncAfter_concat (p : Packet) (calls : List ResyncCall) (c : ResyncCall) :
    resyncAfter p (calls ++ [c]) = c.apply (resyncAfter p calls) := by
  simp only [resyncAfter, List.foldl_append, List.foldl_cons, List.foldl_nil]

theorem plainAfter_concat (p : Packet) (calls : List ResyncCall) (c : ResyncCall) :
    plainAfter p (calls ++ [c]) = match c.plain with
      | some call => call.apply (plainAfter p calls)
      | none => plainAfter p calls := by
  rw [plainAfter, List.filterMap_append, List.foldl_append]
  cases c <;> rfl

/-! ## Out of a frame nothing is left of the last one -/

/-- Out of a frame only the header prefix and its mark, the time stamp and the packet are not
as `reset` leaves them. -/
def Blank (d : FrameDecoder) : Prop :=
  d.received = 0 → (d.expected = 0 ∧ d.lengthHigh = 0 ∧ d.footerHigh = 0 ∧ d.trailer = 0 ∧
    d.calculatedCrc = 0) ∧ (d.headerPrefix = false → d.marked = false)

theorem blank_reset (d : FrameDecoder) : Blank d.reset := fun _ => ⟨⟨rfl, rfl, rfl, rfl, rfl⟩,
  fun _ => rfl⟩

theorem blank_of_received {d : FrameDecoder} (h : d.received ≠ 0) : Blank d := fun h0 => absurd h0 h

theorem blank_touch {d : FrameDecoder} (now : UInt32) (h : Blank d) : Blank (d.touch now) := by
  unfold FrameDecoder.touch
  split
  · exact fun _ => blank_reset d rfl
  · exact h

theorem blank_restartWith (d : FrameDecoder) (b : UInt8) (now : UInt32) :
    Blank (d.restartWith b now) := fun _ => ⟨⟨rfl, rfl, rfl, rfl, rfl⟩, fun _ => rfl⟩

theorem blank_keepConsumedHeader (d : FrameDecoder) (now : UInt32) :
    Blank (d.keepConsumedHeader now) := blank_of_received (by simp [keepConsumedHeader])

theorem blank_decodeHead {d : FrameDecoder} (b : UInt8) (now : UInt32) (h : Blank d) :
    Blank (d.decodeHead b now).2 := by
  simp only [decodeHead]
  split
  · next h0 =>
    unfold huntHeader
    split
    · exact blank_of_received (by simp)
    · exact fun _ => ⟨(h h0).1, fun _ => rfl⟩
  · unfold takeLength
    split
    · exact blank_of_received (by simp)
    · simp only
      split
      · simp only
        split
        · exact blank_keepConsumedHeader d now
        · exact blank_restartWith d b now
      · exact blank_of_received (by simp)

theorem blank_restartFromTrailer (d : FrameDecoder) (now : UInt32) :
    Blank (d.restartFromTrailer now) := by
  have hkeep := blank_keepConsumedHeader d now
  simp only [restartFromTrailer]
  split_ifs
  · exact hkeep
  · exact blank_decodeHead _ now (blank_touch now hkeep)
  · exact blank_decodeHead _ now (blank_touch now (blank_decodeHead _ now (blank_touch now hkeep)))
  · exact blank_restartWith d _ now

theorem blank_decodeByte {d : FrameDecoder} (b : UInt8) (now : UInt32) (h : Blank d) :
    Blank (d.decodeByte b now).2 := by
  have ht := blank_touch now h
  by_cases h4 : (d.touch now).received < 4
  · rw [decodeByte_before_length d b now h4]
    exact blank_decodeHead b now ht
  · rw [decodeByte_store b (Nat.not_lt.mp h4)]
    simp only
    split
    · exact blank_of_received (by simp [received_storeByte])
    · obtain hend | hend := finishFrame_state
        ({ d.touch now with received := (d.touch now).received + 1 }.storeByte (d.touch now).received
          b) b now (d.touch now).received
      · rw [hend]
        exact blank_restartFromTrailer _ now
      · rw [hend]
        exact blank_reset _

theorem blank_markFrame {d : FrameDecoder} (h : Blank d) : Blank d.markFrame := fun h0 =>
  ⟨(h h0).1, fun hp => by
    have h0' : d.received = 0 := h0
    have hp' : d.headerPrefix = false := hp
    simp [markFrame, inProgress, h0', hp']⟩

/-! ## A reset between two frames -/

/-- Two decoders that are the same, or both out of a frame and the same but for the time stamp. -/
def SameButStamp (d e : FrameDecoder) : Prop :=
  e = d ∨ d.inProgress = false ∧ ∃ us have_, e = { d with lastByteUs := us, haveLastByte := have_ }

namespace SameButStamp

variable {d e : FrameDecoder}

theorem packet (h : SameButStamp d e) : e.packet = d.packet := by
  obtain rfl | ⟨-, us, have_, rfl⟩ := h <;> rfl

/-- The next byte finds the two of them the same. -/
theorem touch (h : SameButStamp d e) (now : UInt32) : e.touch now = d.touch now := by
  obtain rfl | ⟨hout, us, have_, rfl⟩ := h
  · rfl
  · rw [touch_of_idle now hout, touch_of_idle now (by exact hout)]

theorem decodeByte (h : SameButStamp d e) (b : UInt8) (now : UInt32) :
    e.decodeByte b now = d.decodeByte b now := by
  simp only [FrameDecoder.decodeByte, h.touch now]

theorem markFrame (h : SameButStamp d e) : SameButStamp d.markFrame e.markFrame := by
  obtain rfl | ⟨hout, us, have_, rfl⟩ := h
  · exact .inl rfl
  · exact .inr ⟨hout, us, have_, rfl⟩

theorem reset (h : SameButStamp d e) : SameButStamp d.reset e.reset := by
  left
  rw [FrameDecoder.reset, FrameDecoder.reset, h.packet]

/-- Resetting a decoder that is out of a frame changes nothing else. -/
theorem of_reset (hblank : Blank d) (hout : d.inProgress = false) : SameButStamp d d.reset := by
  refine .inr ⟨hout, 0, false, ?_⟩
  simp only [inProgress, Bool.or_eq_false_iff, bne_eq_false_iff_eq] at hout
  obtain ⟨⟨he, hl, hf, ht, hc⟩, hm⟩ := hblank hout.1
  rw [FrameDecoder.reset, hout.1, hout.2, he, hl, hf, ht, hc, hm hout.2]

end SameButStamp

/-! ## The wrapper and the plain decoder -/

theorem passOn_injective {r s : DecodeResult} (h : passOn r = passOn s) : r = s := by
  cases r <;> cases s <;> first | rfl | cases h

theorem passOn_ne_headerError (r : DecodeResult) : passOn r ≠ .headerError := by
  cases r <;> simp [passOn]

/-- What one byte tells the caller of the wrapper and the caller of a plain decoder. -/
structure Refines (told : ResyncResult × ResyncingDecoder) (plain : DecodeResult × FrameDecoder) :
    Prop where
  result : told.1 = passOn plain.1 ∨ told.1 = .headerError ∧ plain.1 = .incomplete
  same : SameButStamp plain.2 told.2.decoder

theorem Refines.decodeByte {d : FrameDecoder} {r : ResyncingDecoder} (hblank : Blank d)
    (h : SameButStamp d r.decoder) (b : UInt8) (now : UInt32) :
    Refines (r.decodeByte b now) (d.decodeByte b now) := by
  have hinner := h.decodeByte b now
  simp only [ResyncingDecoder.decodeByte, hinner]
  by_cases hresult : (d.decodeByte b now).1 = .incomplete
  · rw [if_pos hresult]
    by_cases hin : (d.decodeByte b now).2.inProgress = true
    · rw [if_pos hin]
      exact ⟨.inl (by rw [hresult]; rfl), .inl rfl⟩
    · rw [if_neg hin]
      split
      · exact ⟨.inr ⟨rfl, hresult⟩, SameButStamp.of_reset (blank_decodeByte b now hblank)
          (Bool.not_eq_true _ ▸ hin)⟩
      · exact ⟨.inl (by rw [hresult]; rfl), .inl rfl⟩
  · rw [if_neg hresult]
    exact ⟨.inl rfl, .inl rfl⟩

/-- The wrapped decoder and a plain one stay the same through any calls. -/
theorem same_after (p : Packet) (calls : List ResyncCall) :
    Blank (plainAfter p calls) ∧ SameButStamp (plainAfter p calls) (resyncAfter p calls).decoder := by
  induction calls using List.reverseRecOn with
  | nil => exact ⟨blank_reset { packet := p }, .inl rfl⟩
  | append_singleton calls c ih =>
    obtain ⟨hblank, hsame⟩ := ih
    rw [plainAfter_concat, resyncAfter_concat]
    cases c with
    | byte b now => exact ⟨blank_decodeByte b now hblank, (Refines.decodeByte hblank hsame b now).same⟩
    | mark => exact ⟨blank_markFrame hblank, hsame.markFrame⟩
    | reset => exact ⟨blank_reset _, hsame.reset⟩
    | consumeNotify => exact ⟨hblank, hsame⟩

/-! ## The notification -/

/-- The caller was told of a header error since the last reset. -/
def ToldHeaderError (p : Packet) (calls : List ResyncCall) : Prop :=
  ∃ earlier b now later, calls = earlier ++ .byte b now :: later ∧
    ((resyncAfter p earlier).decodeByte b now).1 = .headerError ∧ ResyncCall.reset ∉ later

theorem ToldHeaderError.concat {p : Packet} {calls : List ResyncCall} (h : ToldHeaderError p calls)
    {c : ResyncCall} (hc : c ≠ .reset) : ToldHeaderError p (calls ++ [c]) := by
  obtain ⟨earlier, b, now, later, rfl, herror, hlater⟩ := h
  refine ⟨earlier, b, now, later ++ [c], by simp, herror, ?_⟩
  simp only [List.mem_append, List.mem_singleton, not_or]
  exact ⟨hlater, fun h => hc h.symm⟩

/-- What one byte does to the notification: nothing, or a header error raises it for the first
time. -/
theorem notify_decodeByte (r : ResyncingDecoder) (b : UInt8) (now : UInt32) :
    ((r.decodeByte b now).2.notifyPending = r.notifyPending ∧
      (r.decodeByte b now).2.notifiedOnce = r.notifiedOnce) ∨
    ((r.decodeByte b now).1 = .headerError ∧ (r.decodeByte b now).2.notifiedOnce = true ∧
      (r.notifiedOnce = true → (r.decodeByte b now).2.notifyPending = r.notifyPending)) := by
  unfold ResyncingDecoder.decodeByte
  simp only
  split
  · split
    · exact .inl ⟨rfl, rfl⟩
    · split
      · exact .inr ⟨rfl, rfl, fun h => by simp [h]⟩
      · exact .inl ⟨rfl, rfl⟩
  · exact .inl ⟨rfl, rfl⟩

/-- A notification that is pending, or was, is from a header error since the last reset. -/
theorem told_of_notified (p : Packet) (calls : List ResyncCall) :
    ((resyncAfter p calls).notifyPending = true → (resyncAfter p calls).notifiedOnce = true) ∧
    ((resyncAfter p calls).notifiedOnce = true → ToldHeaderError p calls) := by
  induction calls using List.reverseRecOn with
  | nil => exact ⟨fun h => absurd h Bool.false_ne_true, fun h => absurd h Bool.false_ne_true⟩
  | append_singleton calls c ih =>
    obtain ⟨hpending, htold⟩ := ih
    rw [resyncAfter_concat]
    cases c with
    | byte b now =>
      obtain ⟨hp, ho⟩ | ⟨herror, ho, -⟩ := notify_decodeByte (resyncAfter p calls) b now
      · simp only [ResyncCall.apply, hp, ho]
        exact ⟨hpending, fun h => (htold h).concat (by simp)⟩
      · exact ⟨fun _ => ho, fun _ => ⟨calls, b, now, [], rfl, herror, by simp⟩⟩
    | mark => exact ⟨hpending, fun h => (htold h).concat (by simp)⟩
    | reset => exact ⟨fun h => absurd h Bool.false_ne_true, fun h => absurd h Bool.false_ne_true⟩
    | consumeNotify =>
      exact ⟨fun h => absurd h Bool.false_ne_true, fun h => (htold h).concat (by simp)⟩

/-- A notification that was consumed does not come back before the next reset. -/
theorem notify_spent {r : ResyncingDecoder} (hp : r.notifyPending = false)
    (ho : r.notifiedOnce = true) {later : List ResyncCall} (hlater : ResyncCall.reset ∉ later) :
    (later.foldl ResyncCall.apply r).notifyPending = false := by
  induction later generalizing r with
  | nil => exact hp
  | cons c later ih =>
    obtain ⟨hc, hrest⟩ := not_or.mp (List.mem_cons.not.mp hlater)
    cases c with
    | byte b now =>
      obtain ⟨hp', ho'⟩ | ⟨-, ho', hp'⟩ := notify_decodeByte r b now
      · exact ih (hp'.trans hp) (ho'.trans ho) hrest
      · exact ih ((hp' ho).trans hp) ho' hrest
    | mark => exact ih hp ho hrest
    | reset => exact absurd rfl hc
    | consumeNotify => exact ih rfl ho hrest

/-- After any calls the next byte completes a frame, marked or not, of the wrapper exactly where it
does of a plain decoder, with the same packet; a header error stands where the plain decoder says
`incomplete`, and every other result is passed on. The notification is consumed after a header
error, and after that not again before the next reset. -/
theorem resync_refines (p : Packet) (calls : List ResyncCall) :
    (∀ b now,
      let told := (resyncAfter p calls).decodeByte b now
      let plain := (plainAfter p calls).decodeByte b now
      (told.1 = .complete ↔ plain.1 = .complete) ∧ (told.1 = .marked ↔ plain.1 = .marked) ∧
      told.2.decoder.packet = plain.2.packet ∧
      (told.1 = .headerError → plain.1 = .incomplete) ∧
      (told.1 ≠ .headerError → told.1 = passOn plain.1)) ∧
    ((resyncAfter p calls).consumeNotifyPending.1 = true →
      ToldHeaderError p calls ∧
      ∀ later, ResyncCall.reset ∉ later →
        (resyncAfter p (calls ++ .consumeNotify :: later)).consumeNotifyPending.1 = false) := by
  obtain ⟨hblank, hsame⟩ := same_after p calls
  constructor
  · intro b now
    have h := Refines.decodeByte hblank hsame b now
    set told := (resyncAfter p calls).decodeByte b now
    set plain := (plainAfter p calls).decodeByte b now
    -- a header error stands for an incomplete result, and no other result is changed
    have hiff (r : DecodeResult) (hr : r ≠ .incomplete) : told.1 = passOn r ↔ plain.1 = r := by
      obtain heq | ⟨heq, hplain⟩ := h.result
      · rw [heq]
        exact ⟨passOn_injective, congrArg passOn⟩
      · rw [heq, hplain]
        exact iff_of_false (passOn_ne_headerError r).symm hr.symm
    refine ⟨hiff .complete (by simp), hiff .marked (by simp), h.same.packet, ?_, ?_⟩
    · intro herror
      obtain heq | ⟨-, hplain⟩ := h.result
      · exact absurd (heq.symm.trans herror) (passOn_ne_headerError _)
      · exact hplain
    · intro herror
      obtain heq | ⟨heq, -⟩ := h.result
      · exact heq
      · exact absurd heq herror
  · intro hpending
    obtain ⟨honce, htold⟩ := told_of_notified p calls
    refine ⟨htold (honce hpending), fun later hlater => ?_⟩
    rw [resyncAfter, List.foldl_append, List.foldl_cons]
    exact notify_spent (r := (resyncAfter p calls).consumeNotifyPending.2) rfl (honce hpending)
      hlater

/-- Twenty bytes without a header, at which the sender is told. -/
def garbage : List ResyncCall := List.replicate 20 (.byte 0 0)

theorem resync_refines_garbage :
    ToldHeaderError {} garbage ∧
      (resyncAfter {} (garbage ++ [.consumeNotify])).consumeNotifyPending.1 = false := by
  obtain ⟨htold, hspent⟩ := (resync_refines {} garbage).2 (by decide +kernel)
  exact ⟨htold, hspent [] (by simp)⟩

end CarveraFirmware.Frames
