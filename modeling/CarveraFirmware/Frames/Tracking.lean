import Mathlib
import CarveraFirmware.Frames.Encoding

/-!
# What a decoder remembers of the bytes it was fed

Inside a frame the decoder's counters and its `trailer_` are functions of the bytes fed last.
When a footer is rejected, `restart_from_trailer` hunts through the last four of them again and
leaves the decoder as a fresh one that was fed only these four.
-/

namespace CarveraFirmware.Frames

open Crc FrameDecoder

/-- The bytes fed so far with the clock readings they came with, the last one first. -/
abbrev History := List (UInt8 × UInt32)

/-- The bytes among the calls made on a decoder, the last one first. -/
def bytesOf (calls : List DecoderCall) : History :=
  calls.foldl (fun hist c => match c with
    | .byte b now => (b, now) :: hist
    | .mark => hist
    | .reset => hist) []

theorem bytesOf_concat (calls : List DecoderCall) (c : DecoderCall) :
    bytesOf (calls ++ [c]) = match c with
      | .byte b now => (b, now) :: bytesOf calls
      | .mark => bytesOf calls
      | .reset => bytesOf calls := by
  simp only [bytesOf, List.foldl_append, List.foldl_cons, List.foldl_nil]

/-! ## The 32-bit trailer -/

/-- Bytes shifted into a 32-bit word one after the other; the list has the last one first. -/
def packed (bs : List UInt8) : UInt32 := bs.foldr (fun b t => (t <<< 8) ||| b.toUInt32) 0

theorem packed_cons (b : UInt8) (bs : List UInt8) :
    packed (b :: bs) = (packed bs <<< 8) ||| b.toUInt32 := rfl

theorem shift_or_toNat (t : UInt32) (b : UInt8) (h : t.toNat < 2 ^ 24) :
    ((t <<< 8) ||| b.toUInt32).toNat = t.toNat * 256 + b.toNat := by
  have hb := b.toNat_lt
  rw [UInt32.toNat_or, UInt32.toNat_shiftLeft]
  simp only [UInt8.toNat_toUInt32, UInt32.reduceToNat, Nat.reduceMod]
  rw [Nat.mod_eq_of_lt (by rw [Nat.shiftLeft_eq]; omega),
    ← Nat.shiftLeft_add_eq_or_of_lt (by omega), Nat.shiftLeft_eq]

theorem packed_four (b₁ b₂ b₃ b₄ : UInt8) : (packed [b₄, b₃, b₂, b₁]).toNat =
    ((b₁.toNat * 256 + b₂.toNat) * 256 + b₃.toNat) * 256 + b₄.toNat := by
  have h₁ := b₁.toNat_lt
  have h₂ := b₂.toNat_lt
  have h₃ := b₃.toNat_lt
  have e₁ : (packed [b₁]).toNat = b₁.toNat := by
    rw [packed_cons, shift_or_toNat _ _ (by simp [packed])]
    simp [packed]
  have e₂ : (packed [b₂, b₁]).toNat = b₁.toNat * 256 + b₂.toNat := by
    rw [packed_cons, shift_or_toNat _ _ (by omega), e₁]
  have e₃ : (packed [b₃, b₂, b₁]).toNat = (b₁.toNat * 256 + b₂.toNat) * 256 + b₃.toNat := by
    rw [packed_cons, shift_or_toNat _ _ (by omega), e₂]
  rw [packed_cons, shift_or_toNat _ _ (by omega), e₃]

/-- Two bytes are the header. -/
def IsHeader (high low : UInt8) : Prop := high = headerHigh ∧ low = headerLow

instance (high low : UInt8) : Decidable (IsHeader high low) := inferInstanceAs (Decidable (_ ∧ _))

theorem isHeader_iff (high low : UInt8) :
    high.toNat * 256 + low.toNat = 0x8668 ↔ IsHeader high low := by
  have hl := low.toNat_lt
  simp only [IsHeader, ← UInt8.toNat_inj, headerHigh, headerLow, UInt8.reduceToNat]
  omega

theorem be16_eq_header (high low : UInt8) : be16 high low = header ↔ IsHeader high low := by
  rw [← UInt16.toNat_inj, be16_toNat, ← isHeader_iff]
  rfl

section Windows

variable (b₁ b₂ b₃ b₄ : UInt8)

theorem low_window : packed [b₄, b₃, b₂, b₁] &&& 0xFFFF = header.toUInt32 ↔ IsHeader b₃ b₄ := by
  have h₃ := b₃.toNat_lt
  have h₄ := b₄.toNat_lt
  rw [← UInt32.toNat_inj, UInt32.toNat_and, packed_four, ← isHeader_iff,
    show (0xFFFF : UInt32).toNat = 2 ^ 16 - 1 from rfl, Nat.and_two_pow_sub_one_eq_mod,
    show header.toUInt32.toNat = 0x8668 from rfl]
  omega

theorem middle_window :
    (packed [b₄, b₃, b₂, b₁] >>> 8) &&& 0xFFFF = header.toUInt32 ↔ IsHeader b₂ b₃ := by
  have h₂ := b₂.toNat_lt
  have h₃ := b₃.toNat_lt
  have h₄ := b₄.toNat_lt
  rw [← UInt32.toNat_inj, UInt32.toNat_and, UInt32.toNat_shiftRight, packed_four, ← isHeader_iff,
    show (0xFFFF : UInt32).toNat = 2 ^ 16 - 1 from rfl, Nat.and_two_pow_sub_one_eq_mod,
    show header.toUInt32.toNat = 0x8668 from rfl, show (8 : UInt32).toNat % 32 = 8 from rfl,
    Nat.shiftRight_eq_div_pow]
  omega

theorem high_window : packed [b₄, b₃, b₂, b₁] >>> 16 = header.toUInt32 ↔ IsHeader b₁ b₂ := by
  have h₃ := b₃.toNat_lt
  have h₄ := b₄.toNat_lt
  rw [← UInt32.toNat_inj, UInt32.toNat_shiftRight, packed_four, ← isHeader_iff,
    show header.toUInt32.toNat = 0x8668 from rfl, show (16 : UInt32).toNat % 32 = 16 from rfl,
    Nat.shiftRight_eq_div_pow]
  omega

theorem packed_last : (packed [b₄, b₃, b₂, b₁]).toUInt8 = b₄ := by
  have h₄ := b₄.toNat_lt
  rw [← UInt8.toNat_inj, UInt32.toNat_toUInt8, packed_four]
  omega

theorem packed_last_but_one : (packed [b₄, b₃, b₂, b₁] >>> 8).toUInt8 = b₃ := by
  have h₃ := b₃.toNat_lt
  have h₄ := b₄.toNat_lt
  rw [← UInt8.toNat_inj, UInt32.toNat_toUInt8, UInt32.toNat_shiftRight, packed_four,
    show (8 : UInt32).toNat % 32 = 8 from rfl, Nat.shiftRight_eq_div_pow]
  omega

end Windows

/-! ## Hunting from scratch -/

/-- The length field `decode_byte` goes on with. -/
def GoodLength (high low : UInt8) : Prop :=
  ¬ (be16 high low < 3 ∨ (be16 high low).toNat > maxDataSize + 3)

instance (high low : UInt8) : Decidable (GoodLength high low) := inferInstanceAs (Decidable (¬ _))

theorem GoodLength.not_isHeader {high low : UInt8} (h : GoodLength high low) :
    ¬ IsHeader high low := by
  rintro ⟨rfl, rfl⟩
  revert h
  decide

section Scan

variable (p : Packet) (now : UInt32)

/-- No header yet; `last` was the last byte. -/
def hunting (last : UInt8) : FrameDecoder :=
  { headerPrefix := last == headerHigh, lastByteUs := now, haveLastByte := true, packet := p }

/-- Just past a header. -/
def headerFound : FrameDecoder :=
  { received := 2, lastByteUs := now, haveLastByte := true, packet := p }

/-- Past a header and the high byte of the length. -/
def lengthStarted (high : UInt8) : FrameDecoder :=
  { received := 3, lengthHigh := high, calculatedCrc := ccittUpdate 0 [high], lastByteUs := now,
    haveLastByte := true, packet := p }

/-- Past a header and a good length. -/
def lengthFound (high low : UInt8) : FrameDecoder :=
  { received := 4, expected := (be16 high low).toNat + 6, lengthHigh := high,
    calculatedCrc := ccittUpdate 0 [high, low], lastByteUs := now, haveLastByte := true,
    packet := { p with length := be16 high low, dataLength := be16 high low - 3 } }

/-- What hunting through four bytes finds. -/
def scanFour (b₁ b₂ b₃ b₄ : UInt8) : FrameDecoder :=
  if IsHeader b₃ b₄ then headerFound p now
  else if IsHeader b₂ b₃ then lengthStarted p now b₄
  else if IsHeader b₁ b₂ ∧ GoodLength b₃ b₄ then lengthFound p now b₃ b₄
  else hunting p now b₄

end Scan

/-- The timeout does not fire on a byte that comes within a second. -/
theorem touch_of_lt {d : FrameDecoder} {now : UInt32} (h : now - d.lastByteUs < frameTimeoutUs) :
    d.touch now = { d with lastByteUs := now, haveLastByte := true } := by
  have hgap : ¬ now - d.lastByteUs ≥ frameTimeoutUs := UInt32.not_le.mpr h
  simp [FrameDecoder.touch, hgap]

theorem touch_of_idle {d : FrameDecoder} (now : UInt32) (h : d.inProgress = false) :
    d.touch now = { d with lastByteUs := now, haveLastByte := true } := by
  simp [FrameDecoder.touch, h]

section Bytes

variable {p : Packet} {t now : UInt32}

theorem decodeByte_fresh (b : UInt8) :
    ({ packet := p } : FrameDecoder).decodeByte b now = (.incomplete, hunting p now b) := by
  have ht := touch_of_idle (d := { packet := p }) now rfl
  rw [decodeByte_hunt b now (by rw [ht]), ht]
  rfl

theorem decodeByte_hunting (hgap : now - t < frameTimeoutUs) (last b : UInt8) :
    (hunting p t last).decodeByte b now =
      (.incomplete, if IsHeader last b then headerFound p now else hunting p now b) := by
  have ht := touch_of_lt (d := hunting p t last) hgap
  rw [decodeByte_hunt b now (by rw [ht]; rfl), ht]
  by_cases h : IsHeader last b
  · rw [if_pos h]
    obtain ⟨rfl, rfl⟩ := h
    rfl
  · rw [if_neg h]
    have hc : ((last == headerHigh) && (b == headerLow)) = false := by
      simpa [IsHeader] using h
    simp only [huntHeader, hunting, hc]
    rfl

theorem decodeByte_headerFound (hgap : now - t < frameTimeoutUs) (high : UInt8) :
    (headerFound p t).decodeByte high now = (.incomplete, lengthStarted p now high) := by
  have ht := touch_of_lt (d := headerFound p t) hgap
  rw [decodeByte_takeLength high now (by rw [ht]; simp [headerFound])
    (by rw [ht]; simp [headerFound]), ht]
  rfl

theorem decodeByte_lengthStarted (hgap : now - t < frameTimeoutUs) (high low : UInt8) :
    (lengthStarted p t high).decodeByte low now =
      if GoodLength high low then (.incomplete, lengthFound p now high low)
      else (.invalidLength, if IsHeader high low then headerFound p now else hunting p now low) := by
  have ht := touch_of_lt (d := lengthStarted p t high) hgap
  rw [decodeByte_takeLength low now (by rw [ht]; simp [lengthStarted])
    (by rw [ht]; simp [lengthStarted]), ht]
  simp only [takeLength, lengthStarted, be16_eq_header]
  rw [if_neg (by decide)]
  by_cases h : GoodLength high low
  · rw [if_pos h, if_neg h]
    rfl
  · rw [if_neg h, if_pos (not_not.mp h)]
    rfl

end Bytes

/-- A fresh decoder that is fed four bytes hunts through them. -/
theorem decode_four (p : Packet) {b₁ b₂ b₃ b₄ : UInt8} {t₁ t₂ t₃ t₄ : UInt32}
    (h₂ : t₂ - t₁ < frameTimeoutUs) (h₃ : t₃ - t₂ < frameTimeoutUs)
    (h₄ : t₄ - t₃ < frameTimeoutUs) :
    [DecoderCall.byte b₁ t₁, .byte b₂ t₂, .byte b₃ t₃, .byte b₄ t₄].foldl DecoderCall.apply
      { packet := p } = scanFour p t₄ b₁ b₂ b₃ b₄ := by
  simp only [List.foldl_cons, List.foldl_nil, DecoderCall.apply, decodeByte_fresh,
    decodeByte_hunting h₂, scanFour]
  by_cases h12 : IsHeader b₁ b₂
  · have h23 : ¬ IsHeader b₂ b₃ := by
      rintro ⟨h, -⟩
      exact absurd (h12.2.symm.trans h) (by decide)
    rw [if_pos h12, decodeByte_headerFound h₃, decodeByte_lengthStarted h₄, if_neg h23]
    by_cases hg : GoodLength b₃ b₄
    · rw [if_pos hg, if_neg hg.not_isHeader, if_pos ⟨h12, hg⟩]
    · rw [if_neg hg, if_neg (fun h : IsHeader b₁ b₂ ∧ _ => hg h.2)]
  · rw [if_neg h12, decodeByte_hunting h₃, if_neg (fun h : IsHeader b₁ b₂ ∧ _ => h12 h.1)]
    by_cases h23 : IsHeader b₂ b₃
    · have h34 : ¬ IsHeader b₃ b₄ := by
        rintro ⟨h, -⟩
        exact absurd (h23.2.symm.trans h) (by decide)
      rw [if_pos h23, decodeByte_headerFound h₄, if_neg h34, if_pos h23]
    · rw [if_neg h23, decodeByte_hunting h₄, if_neg h23]

/-- `restart_from_trailer` does the same with the four bytes it kept. -/
theorem restartFromTrailer_eq {d : FrameDecoder} {b₁ b₂ b₃ b₄ : UInt8}
    (h : d.trailer = packed [b₄, b₃, b₂, b₁]) (now : UInt32) :
    d.restartFromTrailer now = scanFour d.packet now b₁ b₂ b₃ b₄ := by
  have hzero : now - now < frameTimeoutUs := by
    rw [UInt32.sub_self]
    decide
  have hhigh (b : UInt8) : (((d.keepConsumedHeader now).touch now).decodeHead b now).2 =
      lengthStarted d.packet now b := by
    have ht := touch_of_lt (d := headerFound d.packet now) hzero
    rw [← decodeByte_before_length _ _ _ (by
      change ((headerFound d.packet now).touch now).received < 4
      rw [ht]; simp [headerFound])]
    exact congrArg Prod.snd (decodeByte_headerFound hzero b)
  have hlow (high low : UInt8) :
      (((lengthStarted d.packet now high).touch now).decodeHead low now).2 =
        if GoodLength high low then lengthFound d.packet now high low
        else if IsHeader high low then headerFound d.packet now
        else hunting d.packet now low := by
    have ht := touch_of_lt (d := lengthStarted d.packet now high) hzero
    rw [← decodeByte_before_length _ _ _ (by rw [ht]; simp [lengthStarted]),
      decodeByte_lengthStarted hzero]
    split <;> rfl
  simp only [restartFromTrailer, h, low_window, middle_window, high_window, packed_last,
    packed_last_but_one, hhigh, hlow, scanFour]
  -- the last pair first, as the source looks for it
  by_cases h34 : IsHeader b₃ b₄
  · rw [if_pos h34, if_pos h34]
    rfl
  simp only [if_neg h34]
  by_cases h23 : IsHeader b₂ b₃
  · rw [if_pos h23, if_pos h23]
  rw [if_neg h23, if_neg h23]
  by_cases h12 : IsHeader b₁ b₂
  · simp only [h12, true_and, if_true]
  · rw [if_neg h12, if_neg (fun h : IsHeader b₁ b₂ ∧ _ => h12 h.1)]
    rfl

/-! ## The invariant -/

/-- How many of the bytes fed last are in `trailer_`. -/
def trailing (d : FrameDecoder) : Nat :=
  if d.received < 4 then 0 else d.received - (d.packet.length.toNat + 2)

/-- Among the last `n` bytes none came a second or more after the one before it. -/
def CloseTogether (n : Nat) (hist : History) : Prop :=
  ∀ k x y, k + 1 < n → hist[k]? = some x → hist[k + 1]? = some y → x.2 - y.2 < frameTimeoutUs

theorem closeTogether_cons {n : Nat} {hist : History} {b : UInt8} {last now : UInt32}
    (h : CloseTogether n hist) (hlast : hist.head?.map Prod.snd = some last)
    (hgap : now - last < frameTimeoutUs) : CloseTogether (n + 1) ((b, now) :: hist) := by
  intro k x y hk hx hy
  cases k with
  | zero =>
    simp only [List.getElem?_cons_zero, Option.some.injEq] at hx
    simp only [Nat.zero_add, List.getElem?_cons_succ, ← List.head?_eq_getElem?] at hy
    simp only [hy, Option.map_some, Option.some.injEq] at hlast
    rw [← hx, hlast]
    exact hgap
  | succ k => exact h k x y (by omega) (by simpa using hx) (by simpa using hy)

theorem closeTogether_one (hist : History) : CloseTogether 1 hist := fun k x y hk => by omega

theorem CloseTogether.mono {m n : Nat} {hist : History} (h : CloseTogether n hist) (hm : m ≤ n) :
    CloseTogether m hist := fun k x y hk => h k x y (by omega)

/-- What a decoder's state says about the bytes it was fed. -/
structure Tracks (hist : History) (d : FrameDecoder) : Prop where
  notOne : d.received ≠ 1
  known : d.received ≤ hist.length
  leading : d.headerPrefix = true → d.received = 0 ∧ hist.head?.map Prod.fst = some headerHigh
  stamped : d.inProgress = true →
    d.haveLastByte = true ∧ hist.head?.map Prod.snd = some d.lastByteUs
  close : CloseTogether d.received hist
  lengthHigh : d.received = 3 → hist.head?.map Prod.fst = some d.lengthHigh
  length : 4 ≤ d.received → 3 ≤ d.packet.length.toNat ∧ d.packet.length.toNat ≤ 538 ∧
    d.packet.dataLength.toNat + 3 = d.packet.length.toNat ∧
    d.expected = d.packet.length.toNat + 6 ∧ d.received < d.expected
  trailer : d.trailer = packed ((hist.map Prod.fst).take (trailing d))

theorem tracks_fresh (hist : History) (p : Packet) : Tracks hist { packet := p } :=
  ⟨by simp, by simp, by simp, by simp [inProgress], fun k x y hk => by simp at hk, by simp,
    by simp, by simp [trailing, packed]⟩

theorem GoodLength.bounds {high low : UInt8} (h : GoodLength high low) :
    3 ≤ (be16 high low).toNat ∧ (be16 high low).toNat ≤ 538 ∧
      (be16 high low - 3).toNat + 3 = (be16 high low).toNat := by
  simp only [GoodLength, not_or, UInt16.not_lt, UInt16.le_iff_toNat_le, gt_iff_lt, Nat.not_lt,
    maxDataSize, maxFrameSize, frameOverhead, UInt16.reduceToNat] at h
  have hle : (3 : UInt16) ≤ be16 high low := UInt16.le_iff_toNat_le.mpr h.1
  refine ⟨h.1, h.2, ?_⟩
  rw [UInt16.toNat_sub_of_le _ _ hle]
  simp only [UInt16.reduceToNat]
  omega

section Found

variable (p : Packet) {hist : History} {b : UInt8} {now : UInt32}

theorem tracks_hunting : Tracks ((b, now) :: hist) (hunting p now b) :=
  ⟨by simp [hunting], by simp [hunting], by simp [hunting], fun _ => ⟨rfl, rfl⟩,
    fun k x y hk => by simp [hunting] at hk, by simp [hunting], by simp [hunting],
    by simp [hunting, trailing, packed]⟩

theorem tracks_headerFound (hk : 1 ≤ hist.length) (hc : CloseTogether 2 ((b, now) :: hist)) :
    Tracks ((b, now) :: hist) (headerFound p now) :=
  ⟨by simp [headerFound], by simpa [headerFound] using hk, by simp [headerFound],
    fun _ => ⟨rfl, rfl⟩, hc, by simp [headerFound], by simp [headerFound],
    by simp [headerFound, trailing, packed]⟩

theorem tracks_lengthStarted (hk : 2 ≤ hist.length) (hc : CloseTogether 3 ((b, now) :: hist)) :
    Tracks ((b, now) :: hist) (lengthStarted p now b) :=
  ⟨by simp [lengthStarted], by simpa [lengthStarted] using hk, by simp [lengthStarted],
    fun _ => ⟨rfl, rfl⟩, hc, fun _ => rfl, by simp [lengthStarted],
    by simp [lengthStarted, trailing, packed]⟩

theorem tracks_lengthFound {high : UInt8} (hk : 3 ≤ hist.length)
    (hc : CloseTogether 4 ((b, now) :: hist)) (hg : GoodLength high b) :
    Tracks ((b, now) :: hist) (lengthFound p now high b) := by
  obtain ⟨h1, h2, h3⟩ := hg.bounds
  refine ⟨by simp [lengthFound], by simpa [lengthFound] using hk, by simp [lengthFound],
    fun _ => ⟨rfl, rfl⟩, hc, by simp [lengthFound],
    fun _ => ⟨h1, h2, h3, rfl, by simp only [lengthFound]; omega⟩, ?_⟩
  have ht : trailing (lengthFound p now high b) = 0 := by
    have h0 : 4 - ((be16 high b).toNat + 2) = 0 := by omega
    simpa [trailing, lengthFound] using h0
  rw [ht]
  rfl

theorem tracks_scanFour {b₁ b₂ b₃ : UInt8} (hk : 3 ≤ hist.length)
    (hc : CloseTogether 4 ((b, now) :: hist)) :
    Tracks ((b, now) :: hist) (scanFour p now b₁ b₂ b₃ b) := by
  unfold scanFour
  split
  · exact tracks_headerFound p (by omega) (hc.mono (by omega))
  · split
    · exact tracks_lengthStarted p (by omega) (hc.mono (by omega))
    · split
      · next h => exact tracks_lengthFound p hk hc h.2
      · exact tracks_hunting p

end Found

/-- A byte finds the decoder as the byte before left it, or reset by the timeout. -/
theorem Tracks.touch {hist : History} {d : FrameDecoder} (h : Tracks hist d) (now : UInt32) :
    d.touch now = { packet := d.packet, lastByteUs := now, haveLastByte := true } ∨
    (d.touch now = { d with lastByteUs := now, haveLastByte := true } ∧
      (d.inProgress = true → now - d.lastByteUs < frameTimeoutUs)) := by
  by_cases hg : now - d.lastByteUs < frameTimeoutUs
  · exact .inr ⟨touch_of_lt hg, fun _ => hg⟩
  by_cases hp : d.inProgress = true
  · refine .inl ?_
    simp [FrameDecoder.touch, hp, (h.stamped hp).1, UInt32.not_lt.mp hg, FrameDecoder.reset]
  · exact .inr ⟨touch_of_idle now (by simpa using hp), fun hp' => absurd hp' hp⟩

theorem decodeByte_of_reset {d : FrameDecoder} {p : Packet} {now : UInt32} (b : UInt8)
    (h : d.touch now = { packet := p, lastByteUs := now, haveLastByte := true }) :
    d.decodeByte b now = (.incomplete, hunting p now b) := by
  rw [decodeByte_hunt b now (by rw [h]), h]
  rfl

theorem inProgress_of_received {d : FrameDecoder} (h : d.received ≠ 0) : d.inProgress = true := by
  simp [inProgress, h]

section Step

variable {hist : History} {d : FrameDecoder} {b : UInt8} {now : UInt32}

/-- The bytes of a frame stay close together when the next one comes in time. -/
theorem Tracks.close_next (h : Tracks hist d) (hp : d.inProgress = true)
    (hgap : now - d.lastByteUs < frameTimeoutUs) :
    CloseTogether (d.received + 1) ((b, now) :: hist) :=
  closeTogether_cons h.close (h.stamped hp).2 hgap

theorem Tracks.huntHeader (h : Tracks hist d) (h0 : d.received = 0)
    (hgap : d.inProgress = true → now - d.lastByteUs < frameTimeoutUs) :
    Tracks ((b, now) :: hist)
      ({ d with lastByteUs := now, haveLastByte := true }.huntHeader b) := by
  have htr : d.trailer = packed [] := by simpa [trailing, h0] using h.trailer
  by_cases hc : d.headerPrefix = true ∧ b = headerLow
  · obtain ⟨hpre, rfl⟩ := hc
    have hin : d.inProgress = true := by simp [inProgress, hpre]
    have hlen : hist ≠ [] := by
      rintro rfl
      simpa using (h.leading hpre).2
    simp only [FrameDecoder.huntHeader, hpre, beq_self_eq_true, Bool.and_self, if_true]
    refine ⟨by simp, ?_, by simp, fun _ => ⟨rfl, rfl⟩, ?_, by simp, by simp, ?_⟩
    · simpa [Nat.one_le_iff_ne_zero] using hlen
    · exact closeTogether_cons (closeTogether_one hist) (h.stamped hin).2 (hgap hin)
    · simpa [trailing] using htr
  · have hif : (d.headerPrefix && b == headerLow) = false := by
      simpa using hc
    simp only [FrameDecoder.huntHeader, hif]
    refine ⟨by simp [h0], by simp [h0], by simp [h0], fun _ => ⟨rfl, rfl⟩, ?_, by simp [h0],
      by simp [h0], ?_⟩
    · exact (closeTogether_one _).mono (by simp [h0])
    · simpa [trailing, h0] using htr

theorem Tracks.takeLength (h : Tracks hist d) (h0 : d.received ≠ 0) (h4 : d.received < 4)
    (hgap : now - d.lastByteUs < frameTimeoutUs) :
    Tracks ((b, now) :: hist)
      ({ d with lastByteUs := now, haveLastByte := true }.takeLength b now).2 := by
  have htr : d.trailer = packed [] := by simpa [trailing, h4] using h.trailer
  have hcl := h.close_next (b := b) (inProgress_of_received h0) hgap
  have hk := h.known
  have h1 := h.notOne
  obtain h2 | h3 : d.received = 2 ∨ d.received = 3 := by omega
  · rw [h2] at hcl hk
    simp only [FrameDecoder.takeLength, h2, if_true]
    refine ⟨by simp, by simpa using hk, fun hp => ?_, fun _ => ⟨rfl, rfl⟩, hcl, fun _ => rfl,
      by simp, by simpa [trailing] using htr⟩
    exact absurd (h.leading hp).1 h0
  · rw [h3] at hcl hk
    simp only [FrameDecoder.takeLength, h3]
    rw [if_neg (by decide)]
    -- a length out of range may be the header of another frame
    by_cases hg : GoodLength d.lengthHigh b
    · rw [if_neg hg]
      obtain ⟨hg1, hg2, hg3⟩ := hg.bounds
      refine ⟨by simp, by simpa using hk, fun hp => absurd (h.leading hp).1 h0,
        fun _ => ⟨rfl, rfl⟩, hcl, by simp, fun _ => ⟨hg1, hg2, hg3, rfl, ?_⟩, ?_⟩
      · simp only
        omega
      · have hz : 4 - ((be16 d.lengthHigh b).toNat + 2) = 0 := by omega
        simpa [trailing, hz] using htr
    · rw [if_pos (not_not.mp hg)]
      simp only
      split
      · exact tracks_headerFound _ (by omega) (hcl.mono (by omega))
      · exact tracks_hunting _

/-- Storing a byte leaves the frame's length and position alone and shifts the trailer. -/
theorem storeByte_frame (d : FrameDecoder) (position : Nat) (b : UInt8) :
    (d.storeByte position b).packet.length = d.packet.length ∧
      (d.storeByte position b).packet.dataLength = d.packet.dataLength ∧
      (d.storeByte position b).expected = d.expected ∧
      (d.storeByte position b).headerPrefix = d.headerPrefix ∧
      (d.storeByte position b).haveLastByte = d.haveLastByte ∧
      (d.storeByte position b).trailer =
        if position ≥ d.packet.length.toNat + 2 then (d.trailer <<< 8) ||| b.toUInt32
        else d.trailer := by
  simp only [FrameDecoder.storeByte]
  split_ifs <;> exact ⟨rfl, rfl, rfl, rfl, rfl, rfl⟩

theorem packed_take_succ (b : UInt8) (bs : List UInt8) (n : Nat) :
    packed ((b :: bs).take (n + 1)) = (packed (bs.take n) <<< 8) ||| b.toUInt32 := by
  rw [List.take_succ_cons, packed_cons]

/-- Inside a frame the trailer takes in the bytes from the CRC on. -/
theorem Tracks.trailer_next (h : Tracks hist d) (h4 : 4 ≤ d.received) (b : UInt8) (now : UInt32) :
    ({ d with
        lastByteUs := now, haveLastByte := true, received := d.received + 1 }.storeByte d.received
          b).trailer = packed ((((b, now) :: hist).map Prod.fst).take
            (d.received + 1 - (d.packet.length.toNat + 2))) := by
  obtain ⟨-, -, -, -, -, ht⟩ := storeByte_frame { d with
    lastByteUs := now, haveLastByte := true, received := d.received + 1 } d.received b
  have htr := h.trailer
  rw [trailing, if_neg (by omega)] at htr
  rw [ht, htr]
  by_cases hp : d.packet.length.toNat + 2 ≤ d.received
  · rw [if_pos hp, List.map_cons, Nat.succ_sub hp, packed_take_succ]
  · rw [if_neg hp, show d.received - (d.packet.length.toNat + 2) = 0 by omega,
      show d.received + 1 - (d.packet.length.toNat + 2) = 0 by omega]
    rfl

theorem Tracks.storeByte (h : Tracks hist d) (h4 : 4 ≤ d.received)
    (hgap : now - d.lastByteUs < frameTimeoutUs) (hlt : d.received + 1 < d.expected) :
    Tracks ((b, now) :: hist) ({ d with
      lastByteUs := now, haveLastByte := true, received := d.received + 1 }.storeByte
        d.received b) := by
  have hcl := h.close_next (b := b) (inProgress_of_received (by omega)) hgap
  obtain ⟨hl3, hl538, hdl, hexp, -⟩ := h.length h4
  have htr := h.trailer_next h4 b now
  set d' := { d with
    lastByteUs := now, haveLastByte := true, received := d.received + 1 }.storeByte d.received b
    with hd'
  obtain ⟨el, edl, ee, ep, eh, -⟩ := storeByte_frame { d with
    lastByteUs := now, haveLastByte := true, received := d.received + 1 } d.received b
  rw [← hd'] at el edl ee ep eh
  have er : d'.received = d.received + 1 := received_storeByte _ _ _
  have et : d'.lastByteUs = now := lastByteUs_storeByte _ _ _
  have hpre : d'.headerPrefix ≠ true := fun hp => by
    rw [ep] at hp
    have := (h.leading hp).1
    omega
  refine ⟨by omega, by simpa [er] using h.known, fun hp => absurd hp hpre,
    fun _ => ⟨eh, by rw [et]; rfl⟩, er ▸ hcl, fun h3 => by omega, fun _ => ?_, ?_⟩
  · rw [el, edl, ee, er]
    exact ⟨hl3, hl538, hdl, hexp, hlt⟩
  · rw [htr, trailing, if_neg (by omega), er, el]

/-- At the last byte of a frame the trailer holds the last four bytes. -/
theorem Tracks.trailer_last (h : Tracks hist d) (h4 : 4 ≤ d.received)
    (hlast : ¬ d.received + 1 < d.expected) (b : UInt8) (now : UInt32) :
    ∃ x₁ x₂ x₃ rest, hist = x₃ :: x₂ :: x₁ :: rest ∧
      ({ d with lastByteUs := now, haveLastByte := true, received := d.received + 1 }.storeByte
        d.received b).trailer = packed [b, x₃.1, x₂.1, x₁.1] := by
  obtain ⟨hl3, -, -, hexp, hlt⟩ := h.length h4
  have hk := h.known
  obtain ⟨x₃, x₂, x₁, rest, rfl⟩ : ∃ x₃ x₂ x₁ rest, hist = x₃ :: x₂ :: x₁ :: rest := by
    match hist, hk with
    | x₃ :: x₂ :: x₁ :: rest, _ => exact ⟨x₃, x₂, x₁, rest, rfl⟩
    | [], hk | [_], hk | [_, _], hk => simp at hk; omega
  refine ⟨x₁, x₂, x₃, rest, rfl, ?_⟩
  rw [h.trailer_next h4,
    show d.received + 1 - (d.packet.length.toNat + 2) = 4 by omega]
  rfl

/-- A rejected footer leaves what hunting through the last four bytes finds. -/
theorem Tracks.finishFrame (h : Tracks hist d) (h4 : 4 ≤ d.received)
    (hlast : ¬ d.received + 1 < d.expected) (b : UInt8) (now : UInt32) :
    let d' := { d with
      lastByteUs := now, haveLastByte := true, received := d.received + 1 }.storeByte d.received b
    (∃ r, r ≠ .incomplete ∧ r ≠ .invalidFooter ∧ b = footerLowByte ∧
      d'.finishFrame d.received b now = (r, { packet := d'.packet })) ∨
    ∃ x₁ x₂ x₃ rest, hist = x₃ :: x₂ :: x₁ :: rest ∧ d'.finishFrame d.received b now =
      (.invalidFooter, scanFour d'.packet now x₁.1 x₂.1 x₃.1 b) := by
  intro d'
  -- The footer is wrong, and the last four bytes are looked at again, or it is right.
  by_cases hc : d.received ≠ d'.expected - 1 ∨ be16 d'.footerHigh b ≠ footer
  · right
    obtain ⟨x₁, x₂, x₃, rest, hh, ht⟩ := h.trailer_last h4 hlast b now
    refine ⟨x₁, x₂, x₃, rest, hh, ?_⟩
    rw [FrameDecoder.finishFrame, if_pos hc, restartFromTrailer_eq ht]
  · left
    have hb : b = footerLowByte := by
      have hf := congrArg UInt16.toNat (not_not.mp (not_or.mp hc).2)
      have := b.toNat_lt
      rw [be16_toNat] at hf
      simp only [← UInt8.toNat_inj, footerLowByte, UInt8.reduceToNat]
      simp only [footer, UInt16.reduceToNat] at hf
      omega
    rw [FrameDecoder.finishFrame, if_neg hc]
    by_cases hcrc : d'.packet.crc = d'.calculatedCrc
    · refine ⟨if d'.marked then .marked else .complete, ?_, ?_, hb, ?_⟩
      · split <;> simp
      · split <;> simp
      · simp only [hcrc, not_true_eq_false, if_false]
        rfl
    · refine ⟨.invalidCrc, by simp, by simp, hb, ?_⟩
      simp only [hcrc, not_false_eq_true, if_true]
      rfl

theorem Tracks.decodeByte (h : Tracks hist d) (b : UInt8) (now : UInt32) :
    Tracks ((b, now) :: hist) (d.decodeByte b now).2 := by
  obtain ht | ⟨ht, hgap⟩ := h.touch now
  · rw [decodeByte_of_reset b ht]
    exact tracks_hunting _
  by_cases h0 : d.received = 0
  · rw [decodeByte_hunt b now (by rw [ht]; exact h0), ht]
    exact h.huntHeader h0 hgap
  have hg := hgap (inProgress_of_received h0)
  by_cases h4 : d.received < 4
  · rw [decodeByte_takeLength b now (by rw [ht]; exact h0) (by rw [ht]; exact h4), ht]
    exact h.takeLength h0 h4 hg
  · have h4' : 4 ≤ d.received := by omega
    rw [decodeByte_store b (by rw [ht]; exact h4'), ht]
    simp only
    obtain ⟨-, -, ee, -⟩ := storeByte_frame { d with
      lastByteUs := now, haveLastByte := true, received := d.received + 1 } d.received b
    rw [ee]
    by_cases hlt : d.received + 1 < d.expected
    · rw [if_pos hlt]
      exact h.storeByte h4' hg hlt
    · rw [if_neg hlt]
      obtain ⟨r, -, -, -, hr⟩ | ⟨x₁, x₂, x₃, rest, hh, hr⟩ :=
        h.finishFrame h4' hlt b now
      · rw [hr]
        exact tracks_fresh _ _
      · rw [hr]
        have hcl := h.close_next (b := b) (inProgress_of_received h0) hg
        exact tracks_scanFour _ (by simp [hh]) (hcl.mono (by omega))

end Step

theorem tracks_reachable (p : Packet) (calls : List DecoderCall) :
    Tracks (bytesOf calls) (calls.foldl DecoderCall.apply { packet := p }) := by
  induction calls using List.reverseRecOn with
  | nil => exact tracks_fresh _ _
  | append_singleton calls c ih =>
    rw [bytesOf_concat, List.foldl_append]
    cases c with
    | byte b now => exact ih.decodeByte b now
    | mark => exact ⟨ih.1, ih.2, ih.3, ih.4, ih.5, ih.6, ih.7, ih.8⟩
    | reset => exact tracks_fresh _ _

end CarveraFirmware.Frames
