import Mathlib
import CarveraFirmware.Frames.RoundTrip
import CarveraFirmware.Frames.Resync

/-!
# Bounded loss after garbage

A header the decoder took from garbage claims at most `maxFrameSize` bytes. Once these are used
up, whatever ended the false frame, the decoder hunts from the bytes fed last, and since the only
headers in the stream are those the frames begin with, it is in step from the next frame on.
-/

namespace CarveraFirmware.Frames

open Crc WrapClock FrameDecoder

/-- No header pattern after the frame's own header. A frame ends in `0xAA`, so there is none
across the boundary to the next frame either. -/
def Frame.Clear (f : Frame) : Prop := ¬ [headerHigh, headerLow] <:+: f.bytes.drop 2

/-- Out of a frame; `last` was the last byte. -/
structure Hunts (last : UInt8) (d : FrameDecoder) : Prop where
  received : d.received = 0
  headerPrefix : d.headerPrefix = (last == headerHigh)
  crc : d.calculatedCrc = 0
  unmarked : d.marked = false

theorem hunts_hunting (p : Packet) (now : UInt32) (b : UInt8) : Hunts b (hunting p now b) :=
  ⟨rfl, rfl, rfl, rfl⟩

theorem Tracks.awaits {time : Nat → Nat} {k : Nat} {b : UInt8} {hist : History}
    {d : FrameDecoder} (h : Tracks ((b, stamp (time k)) :: hist) d) : Awaits time (k + 1) d := by
  by_cases hp : d.inProgress = true
  · have hl := (h.stamped hp).2
    simp only [List.head?_cons, Option.map_some, Option.some.injEq] at hl
    exact awaits_next hl.symm
  · exact .inl (by simpa using hp)

/-! ## Hunting through bytes without a header -/

theorem quiet_hunt {time : Nat → Nat} (hp : Paced time) {last : UInt8} {bs : List UInt8}
    (hno : ¬ [headerHigh, headerLow] <:+: last :: bs) {k : Nat} {d : FrameDecoder}
    (hd : Hunts last d) (ha : Awaits time k d) :
    Quiet time k d bs (Hunts (bs.getLastD last)) := by
  induction bs generalizing last k d with
  | nil => exact ⟨rfl, hd⟩
  | cons b bs ih =>
    rw [List.infix_cons_iff, not_or] at hno
    have hpair : ¬ (last = headerHigh ∧ b = headerLow) := fun h =>
      hno.1 (by rw [h.1, h.2]; exact ⟨bs, rfl⟩)
    have hif : (d.headerPrefix && b == headerLow) = false := by
      rw [hd.headerPrefix]
      simpa using hpair
    have ht := touch_paced hp ha
    have hdec := decodeByte_hunt b (stamp (time k)) (d := d) (by rw [ht]; exact hd.received)
    rw [ht] at hdec
    simp only [FrameDecoder.huntHeader, hif] at hdec
    have hnext : Hunts b (d.decodeByte b (stamp (time k))).2 := by
      rw [hdec]
      exact ⟨hd.received, rfl, hd.crc, rfl⟩
    have hrest := ih hno.2 hnext (awaits_next (k := k) (by rw [hdec]; rfl))
    exact Quiet.cons (by rw [hdec]) (by rw [List.getLastD_cons]; exact hrest)

/-! ## Where headers are -/

/-- The bytes at `k` and before it in a history are a header. -/
def HeaderAt (k : Nat) (bytes : List UInt8) : Prop :=
  bytes[k]? = some headerLow ∧ bytes[k + 1]? = some headerHigh

theorem Frame.bytes_length (f : Frame) : f.bytes.length = f.data.length + 9 := by
  simp [f.bytes_eq, Frame.body]

theorem Frame.Clear.at_start {f : Frame} (hf : f.Clear) {j : Nat}
    (hh : f.bytes[j]? = some headerHigh) (hl : f.bytes[j + 1]? = some headerLow) : j = 0 := by
  obtain rfl | rfl | h2 : j = 0 ∨ j = 1 ∨ 2 ≤ j := by omega
  · rfl
  · rw [f.bytes_eq] at hh
    simp [headerHigh, headerLow] at hh
  · exfalso
    apply hf
    obtain ⟨i, rfl⟩ : ∃ i, j = 2 + i := ⟨j - 2, by omega⟩
    rw [← List.getElem?_drop] at hh
    rw [Nat.add_assoc, ← List.getElem?_drop] at hl
    obtain ⟨h1, e1⟩ := List.getElem?_eq_some_iff.mp hh
    obtain ⟨h2', e2⟩ := List.getElem?_eq_some_iff.mp hl
    refine ⟨(f.bytes.drop 2).take i, (f.bytes.drop 2).drop (i + 2), ?_⟩
    conv_rhs => rw [← List.take_append_drop i (f.bytes.drop 2),
      List.drop_eq_getElem_cons h1, List.drop_eq_getElem_cons h2', e1, e2]
    simp

/-- No header ends among the last three of the `n` bytes fed since the garbage. -/
def HeaderFree (n : Nat) (before : List UInt8) : Prop := ∀ k < 3, k < n → ¬ HeaderAt k before

/-- A header that ends among the last three bytes of the stream is the frame's own. -/
theorem Frame.Clear.header_unique {f : Frame} (hf : f.Clear) {n i k : Nat} {before : List UInt8}
    (hbefore : HeaderFree n before) (hi : i ≤ f.bytes.length) (hk3 : k < 3) (hk : k < n + i)
    (h : HeaderAt k ((f.bytes.take i).reverse ++ before)) : k + 2 = i := by
  have hlen : (f.bytes.take i).reverse.length = i := by simp [hi]
  obtain ⟨hl, hh⟩ := h
  have hin {m : Nat} (hm : m < i) : ((f.bytes.take i).reverse ++ before)[m]? =
      f.bytes[i - 1 - m]? := by
    rw [List.getElem?_append_left (by omega), List.getElem?_reverse (by simp; omega)]
    simp only [List.length_take, Nat.min_eq_left hi]
    rw [List.getElem?_take, if_pos (by omega)]
  rcases Nat.lt_trichotomy (k + 1) i with hlt | heq | hgt
  · rw [hin (by omega)] at hl hh
    have := hf.at_start (j := i - 1 - (k + 1)) hh (by
      rw [show i - 1 - (k + 1) + 1 = i - 1 - k by omega]
      exact hl)
    omega
  · -- the low byte would be the first byte of the frame
    rw [hin (by omega), show i - 1 - k = 0 by omega, f.bytes_eq] at hl
    simp [headerHigh, headerLow] at hl
  · exfalso
    have hout {m : Nat} (hm : i ≤ m) : ((f.bytes.take i).reverse ++ before)[m]? =
        before[m - i]? := by
      rw [List.getElem?_append_right (by omega), hlen]
    rw [hout (by omega)] at hl hh
    refine hbefore (k - i) (by omega) (by omega) ⟨hl, ?_⟩
    rw [show k - i + 1 = k + 1 - i by omega]
    exact hh

/-- Past a whole frame the last three bytes end no header. -/
theorem Frame.Clear.headerFree {f : Frame} (hf : f.Clear) {n : Nat} {before : List UInt8}
    (hbefore : HeaderFree n before) :
    HeaderFree (n + f.bytes.length) (f.bytes.reverse ++ before) := by
  intro k hk3 hk h
  have hlen := f.bytes_length
  have := hf.header_unique (i := f.bytes.length) hbefore le_rfl hk3 hk (by
    rw [List.take_length]; exact h)
  omega

/-! ## False frames -/

/-- The decoder has taken a header whose end was `k` bytes ago, and what came after it. -/
inductive Entered : Nat → History → FrameDecoder → Prop
  | header (p now hist) : Entered 0 hist (headerFound p now)
  | lengthHigh (p now x hist) : Entered 1 (x :: hist) (lengthStarted p now x.1)
  | length (p now x y hist) (hg : GoodLength y.1 x.1) :
    Entered 2 (x :: y :: hist) (lengthFound p now y.1 x.1)

theorem Entered.received {k : Nat} {hist : History} {d : FrameDecoder} (h : Entered k hist d) :
    d.received = k + 2 := by
  cases h <;> rfl

theorem Tracks.received_lt {hist : History} {d : FrameDecoder} (h : Tracks hist d) :
    d.received < maxFrameSize := by
  by_cases h4 : 4 ≤ d.received
  · obtain ⟨-, hl, -, he, hlt⟩ := h.length h4
    simp only [maxFrameSize]
    omega
  · simp only [maxFrameSize]
    omega

/-- A frame `d` is inside of goes on, or it ends and the decoder hunts from the bytes fed last. -/
theorem Tracks.step_cases {hist : History} {d : FrameDecoder} (h : Tracks hist d)
    (h0 : d.received ≠ 0) (b : UInt8) (now : UInt32) :
    (d.decodeByte b now).2.received = d.received + 1 ∨ Hunts b (d.decodeByte b now).2 ∨
      ∃ k < 3, HeaderAt k (((b, now) :: hist).map Prod.fst) ∧
        Entered k ((b, now) :: hist) (d.decodeByte b now).2 := by
  -- Late, in the length, inside the packet, at its end: a packet goes on, is given up, or gives its
  -- end to the next one.
  obtain ht | ⟨ht, hgap⟩ := h.touch now
  · rw [decodeByte_of_reset b ht]
    exact .inr (.inl (hunts_hunting _ _ _))
  by_cases h4 : d.received < 4
  · have h1 := h.notOne
    rw [decodeByte_takeLength b now (by rw [ht]; exact h0) (by rw [ht]; exact h4), ht]
    simp only [FrameDecoder.takeLength]
    by_cases h2 : d.received = 2
    · rw [if_pos h2, h2]
      exact .inl rfl
    rw [if_neg h2]
    have h3 : d.received = 3 := by omega
    by_cases hg : GoodLength d.lengthHigh b
    · rw [if_neg hg, h3]
      exact .inl rfl
    · rw [if_pos (not_not.mp hg)]
      simp only [be16_eq_header]
      split
      · next hh =>
        refine .inr (.inr ⟨0, by omega, ⟨by simp [hh.2], ?_⟩, .header _ now _⟩)
        have hl := h.lengthHigh h3
        rw [hh.1, List.head?_eq_getElem?] at hl
        simpa using hl
      · exact .inr (.inl (hunts_hunting _ _ _))
  · have h4' : 4 ≤ d.received := Nat.not_lt.mp h4
    rw [decodeByte_store b (by rw [ht]; exact h4'), ht]
    simp only
    obtain ⟨-, -, ee, -⟩ := storeByte_frame { d with
      lastByteUs := now, haveLastByte := true, received := d.received + 1 } d.received b
    rw [ee]
    by_cases hlt : d.received + 1 < d.expected
    · rw [if_pos hlt]
      exact .inl (received_storeByte _ _ _)
    rw [if_neg hlt]
    obtain ⟨r, -, -, rfl, hr⟩ | ⟨x₁, x₂, x₃, rest, rfl, hr⟩ :=
      h.finishFrame h4' hlt b now
    · rw [hr]
      exact .inr (.inl ⟨rfl, rfl, rfl, rfl⟩)
    · rw [hr]
      simp only [scanFour]
      split_ifs with h34 h23 h12
      · exact .inr (.inr ⟨0, by omega, ⟨by simp [h34.2], by simp [h34.1]⟩,
          .header _ now _⟩)
      · exact .inr (.inr ⟨1, by omega, ⟨by simp [h23.2], by simp [h23.1]⟩,
          .lengthHigh _ now (b, now) _⟩)
      · exact .inr (.inr ⟨2, by omega, ⟨by simp [h12.1.2], by simp [h12.1.1]⟩,
          .length _ now (b, now) x₃ _ h12.2⟩)
      · exact .inr (.inl (hunts_hunting _ _ _))

/-- A header of `f` itself was found: the rest of `f` completes it. -/
theorem completes_entered {time : Nat → Nat} (hp : Paced time) {f : Frame} {k m : Nat}
    {hist : History} {before : List UInt8} {d : FrameDecoder} (hd : Entered k hist d)
    (hhist : hist.map Prod.fst = (f.bytes.take (k + 2)).reverse ++ before)
    (ha : Awaits time m d) : Completes time f m d (f.bytes.drop (k + 2)) := by
  cases hd with
  | header p now hist => exact completes_length hp ⟨rfl, rfl, rfl⟩ ha
  | lengthHigh p now x hist =>
    have hx : x.1 = UInt8.ofNat ((f.data.length + 3) >>> 8) := by
      have := congrArg List.head? hhist
      simpa [f.bytes_eq] using this
    exact completes_lengthLow hp ⟨rfl, hx, by rw [← hx]; rfl, rfl⟩ ha
  | length p now x y hist hg =>
    have hxy : x.1 = UInt8.ofNat (f.data.length + 3) ∧
        y.1 = UInt8.ofNat ((f.data.length + 3) >>> 8) := by
      have hx := congrArg List.head? hhist
      have hy := congrArg (fun l => l[1]?) hhist
      exact ⟨by simpa [f.bytes_eq] using hx, by simpa [f.bytes_eq] using hy⟩
    obtain ⟨hlen, hdata⟩ := f.length_field
    have hbody : f.bytes.drop (2 + 2) = f.body := by simp [f.bytes_eq]
    rw [hbody]
    rw [hxy.1, hxy.2] at ha ⊢
    refine completes_body hp ⟨rfl, ?_, hlen, hdata, by simp, by simp, ?_, by simp, by simp,
      by simp, rfl⟩ ha
    · simp only [lengthFound, hlen]
    · simp [lengthFound, ccitt, coveredBytes]

/-! ## The frames after the garbage -/

section Stream

variable {time : Nat → Nat}

/-- What a caller was told: the frames among the reports. -/
def frames (reports : List (DecodeResult × Option (UInt8 × List UInt8))) :
    List (UInt8 × List UInt8) := reports.filterMap Prod.snd

theorem frames_append (xs ys : List (DecodeResult × Option (UInt8 × List UInt8))) :
    frames (xs ++ ys) = frames xs ++ frames ys := List.filterMap_append

theorem frames_quiet (n : Nat) : frames (List.replicate n (.incomplete, none)) = [] := by
  simp [frames]

theorem Completes.frames_eq {f : Frame} {k : Nat} {d : FrameDecoder} {bs : List UInt8}
    (h : Completes time f k d bs) : frames (feed time k d bs).1 = [(f.type, f.data)] := by
  rw [h.1, frames_append, frames_quiet]
  rfl

/-- How feeding a frame from its byte `i` on goes, when the decoder is inside a false frame there:
`early` reports come from the false frame, `late` ones from the frame itself. -/
structure Passes (time : Nat → Nat) (n : Nat) (f : Frame) (before : List UInt8) (i k : Nat)
    (d : FrameDecoder) (early late : List (DecodeResult × Option (UInt8 × List UInt8))) : Prop where
  reports : (feed time k d (f.bytes.drop i)).1 = early ++ late
  bounded : n + i + early.length ≤ maxFrameSize
  sent : frames late <:+ [(f.type, f.data)]
  after : Idle (feed time k d (f.bytes.drop i)).2 ∨
    (late = [] ∧ n + f.bytes.length + 2 ≤ (feed time k d (f.bytes.drop i)).2.received ∧
      ∃ hist, hist.map Prod.fst = f.bytes.reverse ++ before ∧
        Tracks hist (feed time k d (f.bytes.drop i)).2)

/-- Out of the false frame after byte `i`: the rest of the frame is hunted through or completed. -/
theorem Frame.Clear.resumes (hp : Paced time) {f : Frame} (hf : f.Clear) {i k : Nat} {b : UInt8}
    {d : FrameDecoder} (hi : i < f.bytes.length) (hb : f.bytes[i]? = some b) (hd : Hunts b d)
    (ha : Awaits time k d) :
    frames (feed time k d (f.bytes.drop (i + 1))).1 <:+ [(f.type, f.data)] ∧
      Idle (feed time k d (f.bytes.drop (i + 1))).2 := by
  have hcons : f.bytes.drop i = b :: f.bytes.drop (i + 1) := by
    obtain ⟨hlt, hget⟩ := List.getElem?_eq_some_iff.mp hb
    rw [List.drop_eq_getElem_cons hlt, hget]
  -- From its first byte on the frame is found; from a later one on there is no header in it.
  cases i with
  | zero =>
    obtain rfl : headerHigh = b := by simpa [f.bytes_eq] using hb
    have hc := completes_header (f := f) hp (k := k) (d := d)
      ⟨hd.received, hd.headerPrefix, hd.crc, hd.unmarked⟩ ha
    exact ⟨by rw [hc.frames_eq], hc.2⟩
  | succ i =>
    have hno : ¬ [headerHigh, headerLow] <:+: b :: f.bytes.drop (i + 1 + 1) := by
      rw [← hcons]
      intro hin
      cases i with
      | zero =>
        have h1 : f.bytes.drop (0 + 1) = headerLow :: f.bytes.drop 2 := by simp [f.bytes_eq]
        rw [h1, List.infix_cons_iff] at hin
        obtain hpre | hin := hin
        · simp [headerHigh, headerLow] at hpre
        · exact hf hin
      | succ i =>
        apply hf
        refine hin.trans ?_
        rw [show i + 1 + 1 = 2 + i by omega, ← List.drop_drop]
        exact (List.drop_suffix _ _).isInfix
    obtain ⟨hrep, hend⟩ := quiet_hunt hp hno hd ha
    refine ⟨by rw [hrep, frames_quiet]; exact List.nil_suffix, ?_⟩
    have hlast : (f.bytes.drop (i + 1 + 1)).getLastD b = footerLowByte := by
      have h : (b :: f.bytes.drop (i + 1 + 1)).getLast? = some footerLowByte := by
        rw [← hcons, List.getLast?_drop, if_neg (by omega)]
        simp [f.bytes_eq, Frame.body, List.getLast?_cons, List.getLast?_append]
      simpa [List.getLast?_cons] using h
    rw [hlast] at hend
    exact ⟨hend.received, hend.headerPrefix, hend.crc⟩

theorem Frame.Clear.passes (hp : Paced time) {f : Frame} (hf : f.Clear) {n : Nat}
    {before : List UInt8} (hbefore : HeaderFree n before) (m : Nat) {i k : Nat}
    {d : FrameDecoder} {hist : History} (hi : i + m = f.bytes.length)
    (hhist : hist.map Prod.fst = (f.bytes.take i).reverse ++ before) (h : Tracks hist d)
    (hstale : n + i + 2 ≤ d.received) :
    ∃ early late, Passes time n f before i k d early late := by
  have hlt := h.received_lt
  simp only [maxFrameSize] at hlt
  induction m generalizing i k d hist with
  | zero =>
    obtain rfl : i = f.bytes.length := by omega
    refine ⟨[], [], ⟨by simp [feed], ?_, by simp [frames], .inr ⟨rfl, ?_, hist, ?_, ?_⟩⟩⟩
    · simp only [maxFrameSize, List.length_nil]
      omega
    · simpa [feed] using hstale
    · simpa using hhist
    · simpa [feed] using h
  | succ m ih =>
    have hilt : i < f.bytes.length := by omega
    set b := f.bytes[i] with hb
    have hget : f.bytes[i]? = some b := by simp [hb, hilt]
    set now := stamp (time k) with hnow
    set r := d.decodeByte b now with hr
    have hcons : f.bytes.drop i = b :: f.bytes.drop (i + 1) := List.drop_eq_getElem_cons hilt
    have hfeed : feed time k d (f.bytes.drop i) =
        (report r.1 r.2 :: (feed time (k + 1) r.2 (f.bytes.drop (i + 1))).1,
          (feed time (k + 1) r.2 (f.bytes.drop (i + 1))).2) := by
      rw [hcons]
      rfl
    have hhist' : ((b, now) :: hist).map Prod.fst =
        (f.bytes.take (i + 1)).reverse ++ before := by
      rw [List.take_add_one, hget]
      simp [hhist]
    have htr : Tracks ((b, now) :: hist) r.2 := h.decodeByte b now
    -- the false frame may end here; after that this frame is heard to its end
    have hout (hs : frames (feed time (k + 1) r.2 (f.bytes.drop (i + 1))).1 <:+ [(f.type, f.data)])
        (hidle : Idle (feed time (k + 1) r.2 (f.bytes.drop (i + 1))).2) :
        ∃ early late, Passes time n f before i k d early late := by
      refine ⟨[report r.1 r.2], _, ⟨by rw [hfeed]; rfl, ?_, hs, .inl (by rw [hfeed]; exact hidle)⟩⟩
      simp only [maxFrameSize, List.length_singleton]
      omega
    have hin (hst : n + (i + 1) + 2 ≤ r.2.received) :
        ∃ early late, Passes time n f before i k d early late := by
      have hlt' := htr.received_lt
      simp only [maxFrameSize] at hlt'
      obtain ⟨early, late, hrep, hbd, hsent, hafter⟩ :=
        ih (k := k + 1) (by omega) hhist' htr hst hlt'
      refine ⟨report r.1 r.2 :: early, late, ⟨?_, ?_, hsent, ?_⟩⟩
      · rw [hfeed, hrep]
        rfl
      · rw [List.length_cons]
        omega
      · rw [hfeed]
        exact hafter
    obtain hnext | hhunt | ⟨j, hj3, hat, hent⟩ := h.step_cases (by omega) b now
    · exact hin (by rw [hr, hnext]; omega)
    · obtain ⟨hs, hidle⟩ := hf.resumes hp hilt hget hhunt htr.awaits
      exact hout hs hidle
    · by_cases hjn : j < n + (i + 1)
      · rw [hhist'] at hat
        have hji := hf.header_unique hbefore (by omega) hj3 hjn hat
        have hc := completes_entered hp hent
          (by rw [hji]; exact hhist') htr.awaits
        rw [hji] at hc
        exact hout (by rw [hc.frames_eq]) hc.2
      · exact hin (by rw [hr, hent.received]; omega)

/-- How a run of frames goes after garbage that ended `n` bytes before it. -/
structure Recovers (n : Nat) (fs lost kept : List Frame)
    (reports early late : List (DecodeResult × Option (UInt8 × List UInt8))) : Prop where
  split : fs = lost ++ kept
  reports : reports = early ++ late ++ kept.flatMap frameReports
  length : (early ++ late).length = (lost.flatMap Frame.bytes).length
  bounded : early.length ≤ maxFrameSize - n
  sent : frames late <:+ lost.map (fun f => (f.type, f.data))
  near : ∀ pre f post, lost = pre ++ f :: post →
    n + (pre.flatMap Frame.bytes).length < maxFrameSize

theorem feed_length (k : Nat) (d : FrameDecoder) (bs : List UInt8) :
    (feed time k d bs).1.length = bs.length := by
  induction bs generalizing k d with
  | nil => rfl
  | cons b bs ih => simp [feed, ih]

theorem recovers (hp : Paced time) {fs : List Frame} (hclear : ∀ f ∈ fs, f.Clear) {n k : Nat}
    {d : FrameDecoder} {hist : History} (h : Tracks hist d)
    (hfree : HeaderFree n (hist.map Prod.fst))
    (hd : n + 2 ≤ d.received ∨ (d.received = 0 ∧ d.calculatedCrc = 0)) :
    ∃ lost kept early late,
      Recovers n fs lost kept (feed time k d (fs.flatMap Frame.bytes)).1 early late := by
  -- On the frames. A frame is lost while the decoder is still inside a packet that the garbage
  -- began.
  induction fs generalizing n k d hist with
  | nil => exact ⟨[], [], [], [], ⟨rfl, rfl, rfl, by simp, by simp [frames], by simp⟩⟩
  | cons f fs ih =>
    rcases hd with hstale | ⟨hr, hc⟩
    · have hlt := h.received_lt
      simp only [maxFrameSize] at hlt
      have hf := hclear f (by simp)
      obtain ⟨early, late, hrep, hbd, hsent, hafter⟩ := hf.passes hp hfree f.bytes.length
        (i := 0) (k := k) (by omega) (by simp) h (by omega)
      simp only [List.drop_zero, Nat.add_zero] at hrep hbd hafter
      have hlen : (early ++ late).length = f.bytes.length := by
        rw [← hrep, feed_length]
      rw [List.flatMap_cons, feed_append]
      simp only
      rcases hafter with hidle | ⟨rfl, hst, hist', hhist', htr⟩
      · obtain ⟨hreps, -⟩ := feed_frames hp fs (k + f.bytes.length) hidle
        refine ⟨[f], fs, early, late, ⟨rfl, by rw [hrep, hreps], by simpa using hlen,
          by omega, by simpa using hsent, ?_⟩⟩
        intro pre g post hg
        obtain rfl : pre = [] := by
          cases pre with
          | nil => rfl
          | cons _ pre => simp at hg
        simp only [maxFrameSize, List.flatMap_nil, List.length_nil]
        omega
      · obtain ⟨lost, kept, early', late', hsp, hrep', hlen', hbd', hsent', hnear⟩ :=
          ih (fun g hg => hclear g (by simp [hg])) (k := k + f.bytes.length) htr
            (by rw [hhist']; exact hf.headerFree hfree) (.inl hst)
        refine ⟨f :: lost, kept, early ++ early', late', ⟨by rw [hsp]; rfl, ?_, ?_, ?_, ?_, ?_⟩⟩
        · rw [hrep, hrep']
          simp
        · simp only [List.length_append, List.flatMap_cons, List.append_nil] at hlen hlen' ⊢
          omega
        · simp only [List.length_append, List.append_nil] at hlen ⊢
          omega
        · exact hsent'.trans (by simp)
        · intro pre g post hg
          cases pre with
          | nil =>
            simp only [maxFrameSize, List.flatMap_nil, List.length_nil]
            omega
          | cons _ pre =>
            simp only [List.cons_append, List.cons.injEq] at hg
            have := hnear pre g post hg.2
            simp only [List.flatMap_cons, List.length_append, ← hg.1]
            omega
    · obtain ⟨hrep, hidle⟩ := feed_frame hp k f hr hc
      obtain ⟨hreps, -⟩ := feed_frames hp fs (k + f.bytes.length) hidle
      refine ⟨[], f :: fs, [], [], ⟨rfl, ?_, rfl, by simp, by simp [frames], by simp⟩⟩
      rw [List.flatMap_cons, feed_append]
      simp [hrep, hreps]

theorem frameReports_length (f : Frame) : (frameReports f).length = f.bytes.length := by
  simp [frameReports, f.bytes_length]

theorem flatMap_frameReports_length (fs : List Frame) :
    (fs.flatMap frameReports).length = (fs.flatMap Frame.bytes).length := by
  simp [List.length_flatMap, frameReports_length]

theorem frames_frameReports (fs : List Frame) :
    frames (fs.flatMap frameReports) = fs.map (fun f => (f.type, f.data)) := by
  induction fs with
  | nil => rfl
  | cons f fs ih =>
    rw [List.flatMap_cons, frames_append, ih, frameReports, frames_append, frames_quiet]
    rfl

namespace Recovers

variable {n : Nat} {fs lost kept : List Frame}
  {reports early late : List (DecodeResult × Option (UInt8 × List UInt8))}

/-- A frame that begins far enough from the garbage is kept. -/
theorem kept_reports (h : Recovers n fs lost kept reports early late) {pre post : List Frame}
    {f : Frame} (hfs : fs = pre ++ f :: post)
    (hfar : maxFrameSize ≤ n + (pre.flatMap Frame.bytes).length) :
    (reports.drop (pre.flatMap Frame.bytes).length).take f.bytes.length = frameReports f := by
  obtain ⟨mid, rfl, hkept⟩ : ∃ mid, pre = lost ++ mid ∧ kept = mid ++ f :: post := by
    rcases List.append_eq_append_iff.mp (h.split.symm.trans hfs) with
      ⟨mid, hpre, hk⟩ | ⟨mid, hl, hk⟩
    · exact ⟨mid, hpre, hk⟩
    · cases mid with
      | nil => exact ⟨[], by simpa using hl.symm, by simpa using hk.symm⟩
      | cons g mid =>
        have hgf : f = g := by
          simp only [List.cons_append, List.cons.injEq] at hk
          exact hk.1
        have := h.near pre g mid hl
        omega
  have hlen : (lost.flatMap Frame.bytes).length + (mid.flatMap Frame.bytes).length =
      (early ++ late).length + (mid.flatMap frameReports).length := by
    rw [h.length, flatMap_frameReports_length]
  rw [h.reports, hkept, List.flatMap_append, List.length_append, hlen, ← List.drop_drop,
    List.drop_left, List.flatMap_append, List.drop_left, List.flatMap_cons,
    ← frameReports_length, List.take_left]

/-- Far enough from the garbage only sent frames are reported, in order. -/
theorem frames_suffix (h : Recovers n fs lost kept reports early late) :
    frames (reports.drop (maxFrameSize - n)) <:+ fs.map (fun f => (f.type, f.data)) := by
  have hsuf : reports.drop (maxFrameSize - n) <:+ late ++ kept.flatMap frameReports := by
    rw [h.reports, List.append_assoc, List.drop_append, List.drop_eq_nil_of_le h.bounded,
      List.nil_append]
    exact List.drop_suffix _ _
  refine (hsuf.filterMap _).trans ?_
  change frames _ <:+ _
  rw [frames_append, frames_frameReports, h.split, List.map_append]
  obtain ⟨t, ht⟩ := h.sent
  exact ⟨t, by rw [← ht]; simp⟩

end Recovers

end Stream

/-- The calls that feed garbage, each byte with its own reading of the clock. -/
def garbageCalls (g : List (UInt8 × UInt32)) : List DecoderCall :=
  g.map (fun x => .byte x.1 x.2)

/-- Frames that come after garbage are lost only while they begin within one maximal frame of it,
and a rejected footer leaves nothing behind but the last four bytes. -/
theorem feed_after_garbage :
    (∀ (d : FrameDecoder) (g : List (UInt8 × UInt32)) (time : Nat → Nat) (fs : List Frame),
      Reachable d → Paced time → (∀ f ∈ fs, f.Clear) →
      let reports := (feed time 0 ((garbageCalls g).foldl DecoderCall.apply d)
        (fs.flatMap Frame.bytes)).1
      (∀ pre f post, fs = pre ++ f :: post → 544 ≤ (pre.flatMap Frame.bytes).length →
        (reports.drop (pre.flatMap Frame.bytes).length).take f.bytes.length = frameReports f) ∧
      frames (reports.drop 544) <:+ fs.map (fun f => (f.type, f.data))) ∧
    (∀ (p : Packet) (calls : List DecoderCall) (b : UInt8) (now : UInt32),
      let d := calls.foldl DecoderCall.apply { packet := p }
      (d.decodeByte b now).1 = .invalidFooter →
      4 ≤ (bytesOf (calls ++ [.byte b now])).length ∧
        ∀ later, observe (d.decodeByte b now).2 later =
          observe (freshAfter ((bytesOf (calls ++ [.byte b now])).take 4)) later) := by
  constructor
  · rintro d g time fs ⟨p, calls, rfl⟩ hp hclear reports
    have hreach : Reachable ((garbageCalls g).foldl DecoderCall.apply
        (calls.foldl DecoderCall.apply { packet := p })) :=
      ⟨p, calls ++ garbageCalls g, by rw [List.foldl_append]⟩
    have htr := tracks_reachable p (calls ++ garbageCalls g)
    rw [List.foldl_append] at htr
    obtain ⟨lost, kept, early, late, hrec⟩ := recovers (k := 0) hp hclear htr (n := 0)
      (fun k _ hk => by omega) (by
        have hone := htr.notOne
        have hcrc := hreach.crcClean
        by_cases h0 : ((garbageCalls g).foldl DecoderCall.apply
            (calls.foldl DecoderCall.apply { packet := p })).received = 0
        · exact .inr ⟨h0, hcrc h0⟩
        · exact .inl (by omega))
    exact ⟨fun pre f post hfs hfar => hrec.kept_reports hfs (by simpa [maxFrameSize] using hfar),
      hrec.frames_suffix⟩
  · intro p calls b now d hr
    have h := alike_after_invalidFooter (tracks_reachable p calls) hr
    rw [bytesOf_concat]
    exact ⟨h.1, fun later => (h.2.observe later).symm⟩

/-- A frame of nine bytes. -/
def shortFrame : Frame := ⟨0x71, [], by decide⟩

def dataFrame : Frame := ⟨0x72, [1, 2, 3], by decide⟩

/-- The header of a frame of which nothing comes behind the length. -/
def brokenOff : List (UInt8 × UInt32) := [(0x86, 0), (0x68, 5), (0x02, 10), (0x1F, 15)]

/-- A short frame up to its last byte, which comes out wrong. -/
def wrongFooter : List DecoderCall :=
  shortFrame.bytes.dropLast.map fun b => .byte b 0

theorem clear_shortFrame : shortFrame.Clear := by
  unfold Frame.Clear
  decide

theorem clear_dataFrame : dataFrame.Clear := by
  unfold Frame.Clear
  decide

/-- Behind a header that broke off 61 short frames come; the frame behind them is reported. A frame
whose footer is wrong leaves its last four bytes. -/
theorem feed_after_garbage_brokenOff :
    (((feed (fun k => 400000 * k) 0 ((garbageCalls brokenOff).foldl DecoderCall.apply {})
        ((List.replicate 61 shortFrame ++ [dataFrame]).flatMap Frame.bytes)).1.drop 549).take 12 =
      frameReports dataFrame) ∧
    ((wrongFooter.foldl DecoderCall.apply {}).decodeByte 0xAB 0).1 = .invalidFooter ∧
    ∀ later, observe ((wrongFooter.foldl DecoderCall.apply {}).decodeByte 0xAB 0).2 later =
      observe (freshAfter ((bytesOf (wrongFooter ++ [.byte 0xAB 0])).take 4)) later := by
  have hreach : Reachable {} := ⟨{}, [], rfl⟩
  have hpaced : Paced (fun k => 400000 * k) := fun k => ⟨by simp only; omega, by simp only; omega⟩
  have hclear : ∀ f ∈ List.replicate 61 shortFrame ++ [dataFrame], f.Clear := by
    intro f hf
    obtain hf | hf := List.mem_append.1 hf
    · obtain rfl := List.eq_of_mem_replicate hf
      exact clear_shortFrame
    · obtain rfl := List.mem_singleton.1 hf
      exact clear_dataFrame
  have hlength : ((List.replicate 61 shortFrame).flatMap Frame.bytes).length = 549 := by
    decide +kernel
  have hfooter : ((wrongFooter.foldl DecoderCall.apply {}).decodeByte 0xAB 0).1 = .invalidFooter := by
    decide +kernel
  have hframes := (feed_after_garbage.1 {} brokenOff _ _ hreach hpaced hclear).1
    (List.replicate 61 shortFrame) dataFrame [] rfl (by rw [hlength]; omega)
  rw [hlength] at hframes
  exact ⟨hframes, hfooter, (feed_after_garbage.2 {} wrongFooter 0xAB 0 hfooter).2⟩

end CarveraFirmware.Frames
