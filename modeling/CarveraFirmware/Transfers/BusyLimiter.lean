import Mathlib
import CarveraFirmware.Library.WrapClock
import CarveraFirmware.Clients.Table

/-!
# How often a discarded read is answered

`BusyReplyLimiter` of `libs/TransferBusy.cpp` decides which of the reads discarded during a transfer
get a busy reply. It keeps four entries and compares readings of a counter that wraps every 71
minutes, while a transfer may take any time.
-/

namespace CarveraFirmware.Transfers

open Clients WrapClock

def busyReplyGapUs : Int := 250000

namespace BusyReplyLimiter

structure Entry where
  address : Address
  repliedToFrame : Bool := false
  lastFrameReplyUs : UInt32 := 0

def capacity : Nat := maxWifiClients + 1

/-- What is done about a read from a sender that has an entry. -/
def Entry.answer (entry : Entry) (needsReply : Bool) (now : UInt32) : Bool × Entry :=
  if !needsReply then (false, entry)
  else if entry.repliedToFrame && signedSub now entry.lastFrameReplyUs < busyReplyGapUs then
    (false, entry)
  else (true, { entry with repliedToFrame := true, lastFrameReplyUs := now })

/-- The loop over the entries: it ends at the sender's. -/
def answerKnown (sender : Address) (needsReply : Bool) (now : UInt32) :
    List Entry → Option (Bool × List Entry)
  | [] => none
  | entry :: entries =>
    if entry.address ≠ sender then
      (answerKnown sender needsReply now entries).map fun r => (r.1, entry :: r.2)
    else
      let r := entry.answer needsReply now
      some (r.1, r.2 :: entries)

end BusyReplyLimiter

open BusyReplyLimiter

/-- `BusyReplyLimiter`. `entries` are the first `count_` ones, the others are not looked at. -/
structure BusyReplyLimiter where
  entries : List Entry := []
  oldest : Nat := 0

namespace BusyReplyLimiter

def shouldReply (limiter : BusyReplyLimiter) (sender : Address)
    (needsReply sentTransferNotices : Bool) (now : UInt32) : Bool × BusyReplyLimiter :=
  if sentTransferNotices && !needsReply then (false, limiter)
  else
    match answerKnown sender needsReply now limiter.entries with
    | some (reply, entries) => (reply, { limiter with entries := entries })
    | none =>
      let entry :=
        { address := sender, repliedToFrame := needsReply, lastFrameReplyUs := now : Entry }
      if limiter.entries.length < capacity then
        (true, { limiter with entries := limiter.entries ++ [entry] })
      else
        (true, { limiter with
          entries := limiter.entries.set limiter.oldest entry
          oldest := (limiter.oldest + 1) % capacity })

def clear (_ : BusyReplyLimiter) : BusyReplyLimiter := {}

/-- A read that is discarded, at a true time. -/
structure Read where
  sender : Address
  needsReply : Bool
  sentTransferNotices : Bool
  time : Nat

/-- The limiter in use, and the reads it had answered, the last one first. -/
structure Run where
  limiter : BusyReplyLimiter := {}
  replied : List Read := []

namespace Run

def answer (s : Run) (r : Read) : Bool × BusyReplyLimiter :=
  s.limiter.shouldReply r.sender r.needsReply r.sentTransferNotices (stamp r.time)

def serve (s : Run) (r : Read) : Run :=
  { limiter := (s.answer r).2
    replied := if (s.answer r).1 then r :: s.replied else s.replied }

/-- The reads of a transfer, from the `clear` it begins with. -/
def after (limiter : BusyReplyLimiter) (reads : List Read) : Run :=
  reads.foldl serve { limiter := limiter.clear }

/-- The sender is sent notices or was answered before. -/
def Notified (s : Run) (r : Read) : Prop :=
  r.sentTransferNotices = true ∨ ∃ q ∈ s.replied, q.sender = r.sender

/-- The last reply to the sender, if there is one, was at least a gap ago. -/
def Due (s : Run) (r : Read) : Prop :=
  ∀ q ∈ s.replied, q.sender = r.sender → q.time + 250000 ≤ r.time

/-- What is promised about the answer to a read. -/
structure Promised (s : Run) (r : Read) : Prop where
  first : ¬ s.Notified r → (s.answer r).1 = true
  needing : s.Notified r → (s.answer r).1 = true → r.needsReply = true
  apart : (s.answer r).1 = true → r.needsReply = true →
    ∀ q ∈ s.replied, q.sender = r.sender → q.needsReply = true → q.time + 250000 ≤ r.time
  served : r.needsReply = true → s.Due r → (s.answer r).1 = true

end Run

/-- The last reply to a sender's reads that need one. -/
def lastFrameReply (replied : List Read) (sender : Address) : Option Read :=
  replied.find? fun q => q.sender = sender ∧ q.needsReply = true

/-- The gap since the last reply to a read that needed one reads as a gap that is long enough. -/
def Run.ReadsLong (s : Run) (r : Read) : Prop :=
  ∀ q, lastFrameReply s.replied r.sender = some q →
    250000 ≤ (r.time - q.time) % 2 ^ 32 ∧ (r.time - q.time) % 2 ^ 32 < 2 ^ 31

/-! ## One read -/

theorem lastFrameReply_cons (q : Read) (replied : List Read) (sender : Address) :
    lastFrameReply (q :: replied) sender =
      if q.sender = sender ∧ q.needsReply = true then some q else lastFrameReply replied sender := by
  by_cases h : q.sender = sender ∧ q.needsReply = true
  · rw [if_pos h]
    exact List.find?_cons_of_pos (by simpa using h)
  · rw [if_neg h]
    exact List.find?_cons_of_neg (by simpa using h)

theorem gap_reads_long {s t : Nat} (hst : s ≤ t) :
    ¬ signedSub (stamp t) (stamp s) < busyReplyGapUs ↔
      250000 ≤ (t - s) % 2 ^ 32 ∧ (t - s) % 2 ^ 32 < 2 ^ 31 := by
  rw [signedSub_eq, stamp_sub_toNat hst, busyReplyGapUs]
  split <;> omega

/-- An entry holds when its sender's last reply to a needing read was sent, if it was. -/
def Entry.Holds (replied : List Read) (entry : Entry) : Prop :=
  (lastFrameReply replied entry.address).map (fun q => stamp q.time) =
    if entry.repliedToFrame then some entry.lastFrameReplyUs else none

theorem Entry.Holds.cons_of_ne {replied : List Read} {entry : Entry} (h : entry.Holds replied)
    {q : Read} (hne : entry.address ≠ q.sender) : entry.Holds (q :: replied) := by
  rw [Entry.Holds, lastFrameReply_cons, if_neg fun hq => hne hq.1.symm]
  exact h

theorem answerKnown_eq_none {sender : Address} {needsReply : Bool} {now : UInt32}
    {entries : List Entry} :
    answerKnown sender needsReply now entries = none ↔ ∀ e ∈ entries, e.address ≠ sender := by
  induction entries with
  | nil => simp [answerKnown]
  | cons e entries ih =>
    rw [answerKnown, List.forall_mem_cons]
    split
    · next h => rw [Option.map_eq_none_iff, ih, and_iff_right h]
    · next h => exact iff_of_false (Option.some_ne_none _) fun hall => h hall.1

/-- Where the loop ends, the entries before and after the sender's stay as they are. -/
theorem answerKnown_of_mem {entry : Entry} {needsReply : Bool} {now : UInt32}
    {entries later : List Entry} (h : ∀ e ∈ entries, e.address ≠ entry.address) :
    answerKnown entry.address needsReply now (entries ++ entry :: later) =
      some ((entry.answer needsReply now).1,
        entries ++ (entry.answer needsReply now).2 :: later) := by
  induction entries with
  | nil => simp [answerKnown]
  | cons e entries ih =>
    obtain ⟨he, hrest⟩ := List.forall_mem_cons.mp h
    rw [List.cons_append, answerKnown, if_pos he, ih hrest]
    rfl

theorem lastFrameReply_eq_none {replied : List Read} {sender : Address}
    (h : ∀ q ∈ replied, q.sender ≠ sender) : lastFrameReply replied sender = none := by
  rw [lastFrameReply, List.find?_eq_none]
  intro q hq
  simp [h q hq]

/-- An entry that holds is answered when the gap reads as one that is long enough. -/
theorem Entry.Holds.answer_iff {replied : List Read} {entry : Entry} {r : Read}
    (h : entry.Holds replied)
    (hpast : ∀ q ∈ replied, q.time ≤ r.time) :
    (entry.answer r.needsReply (stamp r.time)).1 = true ↔ r.needsReply = true ∧
      ∀ q, lastFrameReply replied entry.address = some q →
        250000 ≤ (r.time - q.time) % 2 ^ 32 ∧ (r.time - q.time) % 2 ^ 32 < 2 ^ 31 := by
  rw [Entry.answer]
  cases hneeds : r.needsReply with
  | false => simp
  | true =>
    rw [Entry.Holds] at h
    cases hlast : lastFrameReply replied entry.address with
    | none =>
      rw [hlast] at h
      cases hreplied : entry.repliedToFrame with
      | false => simp
      | true => simp [hreplied] at h
    | some q =>
      rw [hlast] at h
      cases hreplied : entry.repliedToFrame with
      | false => simp [hreplied] at h
      | true =>
        simp only [hreplied, if_true, Option.map_some, Option.some.injEq] at h
        have hgap := gap_reads_long (hpast q (List.mem_of_find?_eq_some hlast))
        rw [← h]
        by_cases hc : signedSub (stamp r.time) (stamp q.time) < busyReplyGapUs
        · have hnot := mt hgap.mpr (not_not.mpr hc)
          simp only [Bool.not_true, hc, decide_true, Bool.and_self, if_true]
          exact iff_of_false Bool.false_ne_true fun hall => hnot (hall.2 q rfl)
        · simp only [Bool.not_true, hc, decide_false, Bool.and_false]
          refine iff_of_true rfl ⟨trivial, ?_⟩
          rintro _ ⟨⟩
          exact hgap.mp hc

theorem Entry.answer_cases (entry : Entry) (needsReply : Bool) (now : UInt32) :
    entry.answer needsReply now = (false, entry) ∨
      needsReply = true ∧ entry.answer needsReply now =
        (true, { entry with repliedToFrame := true, lastFrameReplyUs := now }) := by
  unfold Entry.answer
  split_ifs with hneeds hsoon
  · exact .inl rfl
  · exact .inl rfl
  · exact .inr ⟨by simpa using hneeds, rfl⟩

/-- The entries are the senders that were answered, one for each, with the time of the last reply to
a needing read. -/
structure Run.Tracks (s : Run) : Prop where
  nodup : (s.limiter.entries.map Entry.address).Nodup
  known : ∀ a, (∃ e ∈ s.limiter.entries, e.address = a) ↔ ∃ q ∈ s.replied, q.sender = a
  holds : ∀ e ∈ s.limiter.entries, e.Holds s.replied

namespace Run

variable {s : Run} {r : Read}

theorem serve_of_not (h : (s.answer r).1 = false) :
    s.serve r = { limiter := (s.answer r).2, replied := s.replied } := by
  rw [serve, h]
  rfl

theorem serve_of_answered (h : (s.answer r).1 = true) :
    s.serve r = { limiter := (s.answer r).2, replied := r :: s.replied } := by
  rw [serve, h]
  rfl

/-- A read that needs no answer of a sender that is sent notices. -/
theorem answer_of_notices (hn : r.sentTransferNotices = true) (hr : r.needsReply = false) :
    s.answer r = (false, s.limiter) := by
  rw [answer, shouldReply, hn, hr]
  rfl

/-- The first read that is looked at of a sender. -/
theorem answer_of_unknown (hn : ¬ (r.sentTransferNotices = true ∧ r.needsReply = false))
    (hnew : ∀ e ∈ s.limiter.entries, e.address ≠ r.sender)
    (hroom : s.limiter.entries.length < capacity) :
    s.answer r = (true, { s.limiter with entries := s.limiter.entries ++
      [{ address := r.sender, repliedToFrame := r.needsReply, lastFrameReplyUs := stamp r.time }] }) := by
  have hc : ¬ (r.sentTransferNotices && !r.needsReply) = true := by simpa using hn
  rw [answer, shouldReply, if_neg hc, answerKnown_eq_none.mpr hnew]
  simp only
  rw [if_pos hroom]

/-- A read of a sender that has an entry. -/
theorem answer_of_known (hn : ¬ (r.sentTransferNotices = true ∧ r.needsReply = false))
    {entry : Entry} {before later : List Entry} (hr : entry.address = r.sender)
    (hentries : s.limiter.entries = before ++ entry :: later)
    (hbefore : ∀ e ∈ before, e.address ≠ entry.address) :
    s.answer r = ((entry.answer r.needsReply (stamp r.time)).1,
      { s.limiter with
        entries := before ++ (entry.answer r.needsReply (stamp r.time)).2 :: later }) := by
  have hc : ¬ (r.sentTransferNotices && !r.needsReply) = true := by simpa using hn
  rw [answer, shouldReply, if_neg hc, ← hr, hentries, answerKnown_of_mem hbefore]

/-- What becomes of a read while there is room for its sender. -/
theorem Tracks.answer_cases (h : s.Tracks) (hroom : (∃ e ∈ s.limiter.entries, e.address = r.sender) ∨
      s.limiter.entries.length < capacity) :
    (r.sentTransferNotices = true ∧ r.needsReply = false ∧ s.answer r = (false, s.limiter)) ∨
    ¬ (r.sentTransferNotices = true ∧ r.needsReply = false) ∧
      ((∀ e ∈ s.limiter.entries, e.address ≠ r.sender) ∧
          s.answer r = (true, { s.limiter with entries := s.limiter.entries ++
            [{ address := r.sender, repliedToFrame := r.needsReply
               lastFrameReplyUs := stamp r.time }] }) ∨
        ∃ entry earlier later, entry.address = r.sender ∧
          s.limiter.entries = earlier ++ entry :: later ∧
          s.answer r = ((entry.answer r.needsReply (stamp r.time)).1,
            { s.limiter with
              entries := earlier ++ (entry.answer r.needsReply (stamp r.time)).2 :: later })) := by
  by_cases hn : r.sentTransferNotices = true ∧ r.needsReply = false
  · exact .inl ⟨hn.1, hn.2, answer_of_notices hn.1 hn.2⟩
  refine .inr ⟨hn, ?_⟩
  by_cases hknown : ∃ e ∈ s.limiter.entries, e.address = r.sender
  · obtain ⟨entry, hmem, haddress⟩ := hknown
    obtain ⟨earlier, later, hentries⟩ := List.append_of_mem hmem
    refine .inr ⟨entry, earlier, later, haddress, hentries, ?_⟩
    apply answer_of_known hn haddress hentries
    have hnodup := h.nodup
    rw [hentries, List.map_append, List.map_cons, List.nodup_append] at hnodup
    intro e he heq
    exact hnodup.2.2 _ (List.mem_map_of_mem he) _ (List.mem_cons_self ..) heq
  · have hnew : ∀ e ∈ s.limiter.entries, e.address ≠ r.sender :=
      fun e he heq => hknown ⟨e, he, heq⟩
    exact .inl ⟨hnew, answer_of_unknown hn hnew (hroom.resolve_left hknown)⟩

/-- Which reads are answered. -/
theorem Tracks.answered_iff (h : s.Tracks) (hroom : (∃ e ∈ s.limiter.entries, e.address = r.sender) ∨
      s.limiter.entries.length < capacity) (hpast : ∀ q ∈ s.replied, q.time ≤ r.time) :
    (s.answer r).1 = true ↔
      (r.sentTransferNotices = true → r.needsReply = true) ∧
      ((∀ q ∈ s.replied, q.sender ≠ r.sender) ∨ r.needsReply = true ∧ s.ReadsLong r) := by
  obtain ⟨hnotices, hneeds, ha⟩ | ⟨hn, hcases⟩ := h.answer_cases hroom
  · rw [ha]
    exact iff_of_false Bool.false_ne_true fun hc => by simp [hc.1 hnotices] at hneeds
  have hlooked : r.sentTransferNotices = true → r.needsReply = true := by
    intro hnotices
    by_contra hneeds
    exact hn ⟨hnotices, by simpa using hneeds⟩
  rw [and_iff_right hlooked]
  obtain ⟨hnew, ha⟩ | ⟨entry, earlier, later, haddress, hentries, ha⟩ := hcases
  · rw [ha]
    refine iff_of_true rfl (.inl fun q hq hsender => ?_)
    obtain ⟨e, he, hea⟩ := (h.known r.sender).mpr ⟨q, hq, hsender⟩
    exact hnew e he hea
  · have hmem : entry ∈ s.limiter.entries := by
      rw [hentries]
      simp
    obtain ⟨q, hq, hsender⟩ := (h.known r.sender).mp ⟨entry, hmem, haddress⟩
    rw [ha, (h.holds entry hmem).answer_iff hpast, haddress]
    exact ⟨.inr, fun hc => hc.resolve_left fun hnone => hnone q hq hsender⟩

theorem Tracks.serve (h : s.Tracks) (hroom : (∃ e ∈ s.limiter.entries, e.address = r.sender) ∨
      s.limiter.entries.length < capacity) : (s.serve r).Tracks := by
  obtain ⟨-, -, ha⟩ | ⟨-, ⟨hnew, ha⟩ | ⟨entry, earlier, later, haddress, hentries, ha⟩⟩ :=
    h.answer_cases hroom
  · rw [serve_of_not (by rw [ha]), ha]
    exact h
  · -- A sender without an entry gets one, and nothing was sent to it before.
    have hnone : ∀ q ∈ s.replied, q.sender ≠ r.sender := by
      intro q hq hsender
      obtain ⟨e, he, hea⟩ := (h.known r.sender).mpr ⟨q, hq, hsender⟩
      exact hnew e he hea
    rw [serve_of_answered (by rw [ha]), ha]
    refine ⟨?_, ?_, ?_⟩
    · rw [List.map_append, List.nodup_append]
      refine ⟨h.nodup, by simp, ?_⟩
      intro a ha' b hb
      obtain ⟨e, he, rfl⟩ := List.mem_map.mp ha'
      obtain rfl : b = r.sender := by simpa using hb
      exact hnew e he
    · intro a
      rw [List.exists_mem_cons_iff, ← h.known a]
      simp only [List.mem_append, List.mem_singleton]
      constructor
      · rintro ⟨e, he | rfl, hea⟩
        · exact .inr ⟨e, he, hea⟩
        · exact .inl hea
      · rintro (hra | ⟨e, he, hea⟩)
        · exact ⟨_, .inr rfl, hra⟩
        · exact ⟨e, .inl he, hea⟩
    · intro e he
      obtain he | he := List.mem_append.mp he
      · exact (h.holds e he).cons_of_ne (hnew e he)
      · obtain rfl := List.mem_singleton.mp he
        rw [Entry.Holds, lastFrameReply_cons, lastFrameReply_eq_none hnone]
        cases r.needsReply <;> simp
  · -- A sender with an entry: a reply writes it anew in its place, and without one everything
    -- stays.
    have hmem : entry ∈ s.limiter.entries := by
      rw [hentries]
      simp
    obtain heq | ⟨hneeds, heq⟩ := entry.answer_cases r.needsReply (stamp r.time)
    · rw [serve_of_not (by rw [ha, heq]), ha, heq]
      refine ⟨?_, ?_, ?_⟩
      · rw [← hentries]
        exact h.nodup
      · rw [← hentries]
        exact h.known
      · rw [← hentries]
        exact h.holds
    · rw [serve_of_answered (by rw [ha, heq]), ha, heq]
      have hnodup := h.nodup
      rw [hentries] at hnodup
      refine ⟨?_, ?_, ?_⟩
      · simpa using hnodup
      · intro a
        rw [List.exists_mem_cons_iff, ← h.known a, hentries]
        simp only [List.mem_append, List.mem_cons]
        constructor
        · rintro ⟨e, he | rfl | he, hea⟩
          · exact .inr ⟨e, .inl he, hea⟩
          · exact .inl (haddress.symm.trans hea)
          · exact .inr ⟨e, .inr (.inr he), hea⟩
        · rintro (hra | ⟨e, he | rfl | he, hea⟩)
          · exact ⟨_, .inr (.inl rfl), haddress.trans hra⟩
          · exact ⟨e, .inl he, hea⟩
          · exact ⟨_, .inr (.inl rfl), hea⟩
          · exact ⟨e, .inr (.inr he), hea⟩
      · -- the other entries are other senders'
        rw [List.map_append, List.map_cons, List.nodup_append, List.nodup_cons] at hnodup
        obtain ⟨-, ⟨hlater, -⟩, hdisjoint⟩ := hnodup
        intro e he
        obtain he | rfl | he : e ∈ earlier ∨ _ = e ∨ e ∈ later := by
          simpa [eq_comm] using he
        · refine (h.holds e (by rw [hentries]; simp [he])).cons_of_ne fun hc => ?_
          exact hdisjoint _ (List.mem_map_of_mem he) _ (List.mem_cons_self ..)
            (hc.trans haddress.symm)
        · rw [Entry.Holds, lastFrameReply_cons, if_pos ⟨haddress.symm, hneeds⟩]
          rfl
        · refine (h.holds e (by rw [hentries]; simp [he])).cons_of_ne fun hc => ?_
          exact hlater (by rw [haddress, ← hc]; exact List.mem_map_of_mem he)

/-- Four senders find room for their entries. -/
theorem Tracks.room (h : s.Tracks) {senders : Finset Address} (hcard : senders.card ≤ 4)
    (hs : ∀ q ∈ s.replied, q.sender ∈ senders) (hr : r.sender ∈ senders) :
    (∃ e ∈ s.limiter.entries, e.address = r.sender) ∨ s.limiter.entries.length < capacity := by
  refine or_iff_not_imp_left.mpr fun hnew => ?_
  have hnot : r.sender ∉ (s.limiter.entries.map Entry.address).toFinset := by
    simpa using hnew
  have hsub : insert r.sender (s.limiter.entries.map Entry.address).toFinset ⊆ senders := by
    intro a ha
    obtain rfl | ha := Finset.mem_insert.mp ha
    · exact hr
    · obtain ⟨e, he, hea⟩ := List.mem_map.mp (List.mem_toFinset.mp ha)
      obtain ⟨q, hq, rfl⟩ := (h.known a).mp ⟨e, he, hea⟩
      exact hs q hq
  have hle := Finset.card_le_card hsub
  rw [Finset.card_insert_of_notMem hnot, List.toFinset_card_of_nodup h.nodup,
    List.length_map] at hle
  exact hle.trans hcard

/-! ## A whole transfer -/

theorem after_concat (limiter : BusyReplyLimiter) (reads : List Read) (r : Read) :
    after limiter (reads ++ [r]) = (after limiter reads).serve r := by
  simp only [after, List.foldl_append, List.foldl_cons, List.foldl_nil]

theorem replied_after (limiter : BusyReplyLimiter) (reads : List Read) :
    (after limiter reads).replied.Sublist reads.reverse := by
  induction reads using List.reverseRecOn with
  | nil => exact List.Sublist.refl []
  | append_singleton reads r ih =>
    rw [after_concat, serve, List.reverse_append]
    simp only [List.reverse_singleton, List.singleton_append]
    split
    · exact ih.cons_cons r
    · exact ih.cons r

theorem tracks_after (limiter : BusyReplyLimiter) {reads : List Read} {senders : Finset Address}
    (hcard : senders.card ≤ 4) (hs : ∀ q ∈ reads, q.sender ∈ senders) :
    (after limiter reads).Tracks := by
  induction reads using List.reverseRecOn with
  | nil => exact ⟨List.nodup_nil, fun a => by simp [after, clear], by simp [after, clear]⟩
  | append_singleton reads r ih =>
    rw [after_concat]
    have hreads : ∀ q ∈ reads, q.sender ∈ senders := fun q hq => hs q (by simp [hq])
    have h := ih hreads
    refine h.serve (h.room hcard (fun q hq => hreads q ?_) (hs r (by simp)))
    exact List.mem_reverse.mp ((replied_after limiter reads).subset hq)

/-- Of the replies to a sender's reads that needed one, the last one is the latest. -/
theorem lastFrameReply_latest {replied : List Read}
    (h : replied.Pairwise fun a b => b.time ≤ a.time) {q : Read} (hq : q ∈ replied)
    (hneeds : q.needsReply = true) :
    ∃ last, lastFrameReply replied q.sender = some last ∧ q.time ≤ last.time := by
  induction replied with
  | nil => exact absurd hq List.not_mem_nil
  | cons p replied ih =>
    rw [lastFrameReply_cons]
    obtain ⟨hp, hrest⟩ := List.pairwise_cons.mp h
    split
    · obtain rfl | hq := List.mem_cons.mp hq
      · exact ⟨q, rfl, le_rfl⟩
      · exact ⟨p, rfl, hp q hq⟩
    · next hne =>
      obtain rfl | hq := List.mem_cons.mp hq
      · exact absurd ⟨rfl, hneeds⟩ hne
      · exact ih hrest hq

theorem Tracks.promised_iff (h : s.Tracks) (hroom : (∃ e ∈ s.limiter.entries, e.address = r.sender) ∨
      s.limiter.entries.length < capacity)
    (horder : s.replied.Pairwise fun a b => b.time ≤ a.time)
    (hpast : ∀ q ∈ s.replied, q.time ≤ r.time) :
    s.Promised r ↔ (r.needsReply = true → s.Due r → s.ReadsLong r) := by
  -- Whether a read is answered depends on what its own sender was sent before.
  have hanswer := h.answered_iff hroom hpast
  constructor
  · intro hp hneeds hdue
    obtain ⟨-, hnone | ⟨-, hlong⟩⟩ := hanswer.mp (hp.served hneeds hdue)
    · intro q hq
      rw [lastFrameReply_eq_none hnone] at hq
      cases hq
    · exact hlong
  · intro hlong
    refine ⟨?_, ?_, ?_, ?_⟩
    · intro hnew
      obtain ⟨hnotices, hnone⟩ := not_or.mp hnew
      exact hanswer.mpr ⟨fun hc => absurd hc hnotices,
        .inl fun q hq hsender => hnone ⟨q, hq, hsender⟩⟩
    · rintro (hnotices | ⟨q, hq, hsender⟩) ha
      · exact (hanswer.mp ha).1 hnotices
      · exact ((hanswer.mp ha).2.resolve_left fun hnone => hnone q hq hsender).1
    · intro ha hneeds q hq hsender hqneeds
      obtain ⟨-, hgap⟩ := (hanswer.mp ha).2.resolve_left fun hnone => hnone q hq hsender
      obtain ⟨last, hlast, hle⟩ := lastFrameReply_latest horder hq hqneeds
      rw [hsender] at hlast
      have hreads := (hgap last hlast).1
      have hmod := Nat.mod_le (r.time - last.time) (2 ^ 32)
      omega
    · intro hneeds hdue
      exact hanswer.mpr ⟨fun _ => hneeds, .inr ⟨hneeds, hlong hneeds hdue⟩⟩

/-- In a transfer with at most four other senders every read is treated as promised exactly where
each read that needs a reply, and has waited long enough for it, comes a gap after the last such
reply that also reads as long enough: its low 32 bits are at least the shortest gap, and positive as
a signed number. -/
theorem promised_iff_readsLong (limiter : BusyReplyLimiter) (reads : List Read)
    (hsenders : (reads.map Read.sender).toFinset.card ≤ 4)
    (htimes : reads.Pairwise fun a b => a.time ≤ b.time) :
    (∀ earlier r, earlier ++ [r] <+: reads → (after limiter earlier).Promised r) ↔
      ∀ earlier r, earlier ++ [r] <+: reads → r.needsReply = true →
        (after limiter earlier).Due r → (after limiter earlier).ReadsLong r := by
  refine forall_congr' fun earlier => forall_congr' fun r => forall_congr' fun hleads => ?_
  have hmem : ∀ q ∈ earlier ++ [r], q.sender ∈ (reads.map Read.sender).toFinset := by
    intro q hq
    exact List.mem_toFinset.mpr (List.mem_map_of_mem (hleads.subset hq))
  have hearlier : ∀ q ∈ earlier, q.sender ∈ (reads.map Read.sender).toFinset :=
    fun q hq => hmem q (by simp [hq])
  have hsub := replied_after limiter earlier
  have hordered := htimes.sublist hleads.sublist
  rw [List.pairwise_append] at hordered
  have htracks := tracks_after limiter hsenders hearlier
  refine htracks.promised_iff (htracks.room hsenders ?_ (hmem r (by simp))) ?_ ?_
  · exact fun q hq => hearlier q (List.mem_reverse.mp (hsub.subset hq))
  · exact (List.pairwise_reverse.mpr hordered.1).sublist hsub
  · exact fun q hq => hordered.2.2 q (List.mem_reverse.mp (hsub.subset hq)) r (by simp)

/-- A sender answered at once, and again after 300 ms. -/
theorem promised_iff_readsLong_twice :
    (after {} [⟨{}, true, false, 0⟩]).Promised ⟨{}, true, false, 300000⟩ := by
  refine (promised_iff_readsLong {} [⟨{}, true, false, 0⟩, ⟨{}, true, false, 300000⟩]
    (by decide) (by simp)).mpr ?_ _ _ (List.prefix_refl _)
  intro earlier r hleads _ _ q hq
  obtain _ | ⟨x, _ | ⟨y, later⟩⟩ := earlier
  · cases hq
  · obtain ⟨rfl, hr⟩ := List.cons_prefix_cons.mp hleads
    obtain ⟨rfl, -⟩ := List.cons_prefix_cons.mp hr
    obtain rfl : _ = q := Option.some_inj.mp hq
    decide
  · simp at hleads

/-- A read that needs a reply 2 ^ 31 microseconds after the last reply to its sender is not
answered. -/
theorem due_not_answered :
    ¬ (after {} [⟨{}, true, false, 0⟩]).Promised ⟨{}, true, false, 2 ^ 31⟩ := by
  intro h
  have hanswered := h.served rfl (by simp [Due, after, serve, answer, shouldReply])
  exact absurd hanswered (by decide)

end Run

end BusyReplyLimiter

end CarveraFirmware.Transfers
