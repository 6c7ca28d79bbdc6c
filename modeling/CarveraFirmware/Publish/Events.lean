import Mathlib
import CarveraFirmware.Publish.ConsoleLine

/-!
# Events

The builders of `libs/Publish.cpp` for the events that the machine tells every controller of. Each
writes its payload part by part and gives up where the next part does not fit.
-/

namespace CarveraFirmware.Publish

open Clients

def md5DigestBytes : Nat := 16
def maxJobStartNotReady : Nat := maxWifiClients + 1

/-- Bytes with a one-byte count of them: a path or a name, and its `path_len` or `name_len`. -/
@[ext] structure Counted where
  bytes : List UInt8
  length_le : bytes.length ≤ 255

/-- The count and the bytes. -/
def Counted.payload (p : Counted) : List UInt8 := UInt8.ofNat p.bytes.length :: p.bytes

abbrev Digest := Vector UInt8 md5DigestBytes

/-- `JobStartEvent`. -/
@[ext] structure JobStartEvent where
  path : Counted
  size : UInt32
  md5Digest : Option Digest
  startId : UInt16
  phase : UInt8
  reason : UInt8
  secondsLeft : UInt8
  starterId : UInt64
  notReadyIds : List UInt64

/-- What a builder leaves: the length that it returns, and what it has written from `out` on. -/
structure Built where
  length : Nat
  written : List UInt8

namespace Built

/-- The first part of a payload. -/
def first (part : List UInt8) (capacity : Nat) : Built :=
  if part.length > capacity then ⟨0, []⟩ else ⟨part.length, part⟩

/-- The next part, unless the builder has given up. -/
def next (b : Built) (part : List UInt8) (capacity : Nat) : Built :=
  if b.length = 0 then b
  else if b.length + part.length > capacity then { b with length := 0 }
  else ⟨b.length + part.length, b.written ++ part⟩

end Built

/-- `append_kind_and_path`. -/
def appendKindAndPath (kind : UInt8) (path : Counted) (capacity : Nat) : Built :=
  .first (kind :: path.payload) capacity

/-- `checksum_type` and the checksum. -/
def checksumBytes : Option Digest → List UInt8
  | none => [0]
  | some digest => 1 :: digest.toList

def sizeBytes (size : UInt32) : List UInt8 := BigEndian.bytes 4 size.toNat

/-- `build_file_event`. -/
def buildFileEvent (kind : UInt8) (path : Counted) (size : UInt32) (md5Digest : Option Digest)
    (capacity : Nat) : Built :=
  (appendKindAndPath kind path capacity).next (sizeBytes size ++ checksumBytes md5Digest) capacity

def buildUploadFinishedEvent (path : Counted) (size : UInt32) (md5Digest : Option Digest)
    (capacity : Nat) : Built :=
  buildFileEvent 1 path size md5Digest capacity

def buildPlayStartedEvent (path : Counted) (size : UInt32) (md5Digest : Option Digest)
    (capacity : Nat) : Built :=
  buildFileEvent 2 path size md5Digest capacity

/-- What a job start adds to the file. Ids past `maxJobStartNotReady` are not sent. -/
def JobStartEvent.waitBytes (e : JobStartEvent) : List UInt8 :=
  let ids := e.notReadyIds.take maxJobStartNotReady
  BigEndian.bytes 2 e.startId.toNat ++ e.phase :: e.reason :: e.secondsLeft ::
    (idBytes e.starterId ++ UInt8.ofNat ids.length :: ids.flatMap idBytes)

def buildJobStartEvent (e : JobStartEvent) (capacity : Nat) : Built :=
  (buildFileEvent 8 e.path e.size e.md5Digest capacity).next e.waitBytes capacity

def buildJobEndedEvent (path : Counted) (percentComplete : UInt8) (playedLines elapsedSecs : UInt32)
    (capacity : Nat) : Built :=
  (appendKindAndPath 3 path capacity).next
    (percentComplete :: (sizeBytes playedLines ++ sizeBytes elapsedSecs)) capacity

def buildAlarmHaltEvent (haltReason : UInt8) (capacity : Nat) : Built :=
  .first [4, haltReason] capacity

/-- `build_client_event`. -/
def buildClientEvent (kind : UInt8) (clientId : UInt64) (name : Counted) (capacity : Nat) : Built :=
  .first (kind :: (idBytes clientId ++ name.payload)) capacity

def buildControlChangedEvent (holderId : UInt64) (holderName : Counted) (capacity : Nat) : Built :=
  .first (5 :: (idBytes holderId ++ holderName.payload)) capacity

def buildClientJoinedEvent (clientId : UInt64) (name : Counted) (capacity : Nat) : Built :=
  buildClientEvent 6 clientId name capacity

def buildClientLeftEvent (clientId : UInt64) (name : Counted) (capacity : Nat) : Built :=
  buildClientEvent 7 clientId name capacity

/-- The events that have a builder. -/
inductive Event where
  | uploadFinished (path : Counted) (size : UInt32) (md5Digest : Option Digest)
  | playStarted (path : Counted) (size : UInt32) (md5Digest : Option Digest)
  | jobEnded (path : Counted) (percentComplete : UInt8) (playedLines elapsedSecs : UInt32)
  | alarmHalt (haltReason : UInt8)
  | controlChanged (holderId : UInt64) (holderName : Counted)
  | clientJoined (clientId : UInt64) (name : Counted)
  | clientLeft (clientId : UInt64) (name : Counted)
  | jobStart (e : JobStartEvent)

namespace Event

def build : Event → Nat → Built
  | uploadFinished path size md5Digest => buildUploadFinishedEvent path size md5Digest
  | playStarted path size md5Digest => buildPlayStartedEvent path size md5Digest
  | jobEnded path percentComplete playedLines elapsedSecs =>
    buildJobEndedEvent path percentComplete playedLines elapsedSecs
  | alarmHalt haltReason => buildAlarmHaltEvent haltReason
  | controlChanged holderId holderName => buildControlChangedEvent holderId holderName
  | clientJoined clientId name => buildClientJoinedEvent clientId name
  | clientLeft clientId name => buildClientLeftEvent clientId name
  | jobStart e => buildJobStartEvent e

/-- The documented layout of an event. -/
def encode : Event → List UInt8
  | uploadFinished path size md5Digest =>
    1 :: path.payload ++ (sizeBytes size ++ checksumBytes md5Digest)
  | playStarted path size md5Digest =>
    2 :: path.payload ++ (sizeBytes size ++ checksumBytes md5Digest)
  | jobEnded path percentComplete playedLines elapsedSecs =>
    3 :: path.payload ++ percentComplete :: (sizeBytes playedLines ++ sizeBytes elapsedSecs)
  | alarmHalt haltReason => [4, haltReason]
  | controlChanged holderId holderName => 5 :: (idBytes holderId ++ holderName.payload)
  | clientJoined clientId name => 6 :: (idBytes clientId ++ name.payload)
  | clientLeft clientId name => 7 :: (idBytes clientId ++ name.payload)
  | jobStart e =>
    8 :: e.path.payload ++ (sizeBytes e.size ++ checksumBytes e.md5Digest) ++ e.waitBytes

/-- Every controller that a job start waits for is in its list. -/
def ListsAll : Event → Prop
  | jobStart e => e.notReadyIds.length ≤ maxJobStartNotReady
  | _ => True

end Event

/-! ## What the builders leave -/

/-- A builder of the payload has left what it should. -/
structure Built.Holds (b : Built) (payload : List UInt8) (capacity : Nat) : Prop where
  gave_up : capacity < payload.length → b.length = 0
  whole : payload.length ≤ capacity → b.length = payload.length ∧ b.written = payload
  within : b.written.length ≤ capacity

namespace Built

variable {b : Built} {part payload : List UInt8} {capacity : Nat}

theorem first_holds (part : List UInt8) (capacity : Nat) : (first part capacity).Holds part capacity := by
  rw [first]
  split
  · next h => exact ⟨fun _ => rfl, fun hle => by omega, Nat.zero_le _⟩
  · next h => exact ⟨fun hlt => by omega, fun _ => ⟨rfl, rfl⟩, Nat.not_lt.mp h⟩

theorem Holds.next (h : b.Holds payload capacity) (hne : payload ≠ []) (part : List UInt8) :
    (b.next part capacity).Holds (payload ++ part) capacity := by
  have hpos := List.length_pos_of_ne_nil hne
  rw [Built.next]
  by_cases hfits : payload.length ≤ capacity
  · obtain ⟨hlength, hwritten⟩ := h.whole hfits
    rw [if_neg (by omega)]
    split
    · next hover =>
      refine ⟨fun _ => rfl, fun hle => ?_, h.within⟩
      rw [List.length_append] at hle
      omega
    · next hroom =>
      refine ⟨fun hlt => ?_, fun _ => ⟨?_, by rw [hwritten]⟩, ?_⟩
      · rw [List.length_append] at hlt
        omega
      · rw [List.length_append, hlength]
      · rw [List.length_append, hwritten, ← hlength]
        omega
  · rw [if_pos (h.gave_up (Nat.not_le.mp hfits))]
    refine ⟨fun _ => h.gave_up (Nat.not_le.mp hfits), fun hle => ?_, h.within⟩
    rw [List.length_append] at hle
    omega

theorem Holds.length_eq_zero (h : b.Holds payload capacity) (hne : payload ≠ []) :
    b.length = 0 ↔ capacity < payload.length := by
  have hpos := List.length_pos_of_ne_nil hne
  refine ⟨fun hzero => ?_, h.gave_up⟩
  by_contra hnot
  have hlength := (h.whole (Nat.not_lt.mp hnot)).1
  omega

end Built

namespace Event

theorem encode_ne_nil (e : Event) : e.encode ≠ [] := by
  cases e <;> exact List.cons_ne_nil _ _

/-- Every builder writes the layout of its event. -/
theorem build_holds (e : Event) (capacity : Nat) : (e.build capacity).Holds e.encode capacity := by
  cases e with
  | uploadFinished path size md5Digest => exact (Built.first_holds _ _).next (by simp) _
  | playStarted path size md5Digest => exact (Built.first_holds _ _).next (by simp) _
  | jobEnded path percentComplete playedLines elapsedSecs =>
    exact (Built.first_holds _ _).next (by simp) _
  | alarmHalt haltReason => exact Built.first_holds _ _
  | controlChanged holderId holderName => exact Built.first_holds _ _
  | clientJoined clientId name => exact Built.first_holds _ _
  | clientLeft clientId name => exact Built.first_holds _ _
  | jobStart e => exact ((Built.first_holds _ _).next (by simp) _).next (by simp) _

end Event

/-! ## Telling events apart -/

section Parts

variable {r r' : List UInt8}

theorem Counted.payload_append_inj {p q : Counted} (h : p.payload ++ r = q.payload ++ r') :
    p = q ∧ r = r' := by
  obtain ⟨hcount, hrest⟩ := List.cons.inj h
  have hp := p.length_le
  have hq := q.length_le
  have hlen : p.bytes.length = q.bytes.length := by
    have hnat := congrArg UInt8.toNat hcount
    rw [UInt8.toNat_ofNat', UInt8.toNat_ofNat'] at hnat
    omega
  obtain ⟨hbytes, hr⟩ := List.append_inj hrest hlen
  exact ⟨Counted.ext hbytes, hr⟩

theorem idBytes_append_inj {id id' : UInt64} (h : idBytes id ++ r = idBytes id' ++ r') :
    id = id' ∧ r = r' := by
  obtain ⟨hid, hr⟩ := BigEndian.bytes_append_inj id.toNat_lt id'.toNat_lt h
  exact ⟨UInt64.toNat_inj.mp hid, hr⟩

theorem sizeBytes_append_inj {size size' : UInt32} (h : sizeBytes size ++ r = sizeBytes size' ++ r') :
    size = size' ∧ r = r' := by
  obtain ⟨hsize, hr⟩ := BigEndian.bytes_append_inj size.toNat_lt size'.toNat_lt h
  exact ⟨UInt32.toNat_inj.mp hsize, hr⟩

theorem checksumBytes_append_inj {d d' : Option Digest}
    (h : checksumBytes d ++ r = checksumBytes d' ++ r') : d = d' ∧ r = r' := by
  cases d with
  | none =>
    cases d' with
    | none => exact ⟨rfl, (List.cons.inj h).2⟩
    | some v => exact absurd (List.cons.inj h).1 (by decide)
  | some v =>
    cases d' with
    | none => exact absurd (List.cons.inj h).1 (by decide)
    | some v' =>
      obtain ⟨hv, hr⟩ := List.append_inj (List.cons.inj h).2 (by simp)
      exact ⟨congrArg some (Vector.toList_inj.mp hv), hr⟩

/-- Lists of ids of one length. -/
theorem flatMap_idBytes_inj {ids ids' : List UInt64} (hlen : ids.length = ids'.length)
    (h : ids.flatMap idBytes = ids'.flatMap idBytes) : ids = ids' := by
  induction ids generalizing ids' with
  | nil => exact (List.length_eq_zero_iff.mp hlen.symm).symm
  | cons id ids ih =>
    cases ids' with
    | nil => cases hlen
    | cons id' ids' =>
      rw [List.flatMap_cons, List.flatMap_cons] at h
      obtain ⟨rfl, hrest⟩ := idBytes_append_inj h
      rw [ih (Nat.succ.inj hlen) hrest]

theorem JobStartEvent.waitBytes_inj {e e' : JobStartEvent}
    (he : e.notReadyIds.length ≤ maxJobStartNotReady)
    (he' : e'.notReadyIds.length ≤ maxJobStartNotReady) (h : e.waitBytes = e'.waitBytes) :
    e.startId = e'.startId ∧ e.phase = e'.phase ∧ e.reason = e'.reason ∧
      e.secondsLeft = e'.secondsLeft ∧ e.starterId = e'.starterId ∧
      e.notReadyIds = e'.notReadyIds := by
  have hmax : maxJobStartNotReady = 4 := rfl
  simp only [waitBytes, List.take_of_length_le he, List.take_of_length_le he'] at h
  obtain ⟨hstart, h⟩ := BigEndian.bytes_append_inj e.startId.toNat_lt e'.startId.toNat_lt h
  obtain ⟨hphase, h⟩ := List.cons.inj h
  obtain ⟨hreason, h⟩ := List.cons.inj h
  obtain ⟨hseconds, h⟩ := List.cons.inj h
  obtain ⟨hstarter, h⟩ := idBytes_append_inj h
  obtain ⟨hcount, hids⟩ := List.cons.inj h
  have hlen : e.notReadyIds.length = e'.notReadyIds.length := by
    have hnat := congrArg UInt8.toNat hcount
    rw [UInt8.toNat_ofNat', UInt8.toNat_ofNat'] at hnat
    omega
  exact ⟨UInt16.toNat_inj.mp hstart, hphase, hreason, hseconds, hstarter,
    flatMap_idBytes_inj hlen hids⟩

end Parts

namespace Event

/-- The file at the start of an event. -/
theorem file_inj {path path' : Counted} {size size' : UInt32} {d d' : Option Digest}
    {r r' : List UInt8}
    (h : path.payload ++ (sizeBytes size ++ checksumBytes d) ++ r =
      path'.payload ++ (sizeBytes size' ++ checksumBytes d') ++ r') :
    path = path' ∧ size = size' ∧ d = d' ∧ r = r' := by
  simp only [List.append_assoc] at h
  obtain ⟨hpath, h⟩ := Counted.payload_append_inj h
  obtain ⟨hsize, h⟩ := sizeBytes_append_inj h
  obtain ⟨hdigest, hr⟩ := checksumBytes_append_inj h
  exact ⟨hpath, hsize, hdigest, hr⟩

theorem file_inj_end {path path' : Counted} {size size' : UInt32} {d d' : Option Digest}
    (h : path.payload ++ (sizeBytes size ++ checksumBytes d) =
      path'.payload ++ (sizeBytes size' ++ checksumBytes d')) :
    path = path' ∧ size = size' ∧ d = d' := by
  obtain ⟨hpath, hsize, hdigest, -⟩ := file_inj (congrArg (· ++ []) h)
  exact ⟨hpath, hsize, hdigest⟩

/-- An id and a name at the end of an event. -/
theorem named_inj {id id' : UInt64} {name name' : Counted}
    (h : idBytes id ++ name.payload = idBytes id' ++ name'.payload) : id = id' ∧ name = name' := by
  obtain ⟨hid, hname⟩ := idBytes_append_inj h
  exact ⟨hid, (Counted.payload_append_inj (congrArg (· ++ []) hname)).1⟩

/-- The first byte is the kind of the event. -/
def kind : Event → UInt8
  | uploadFinished .. => 1
  | playStarted .. => 2
  | jobEnded .. => 3
  | alarmHalt .. => 4
  | controlChanged .. => 5
  | clientJoined .. => 6
  | clientLeft .. => 7
  | jobStart .. => 8

theorem encode_head (e : Event) : e.encode.head? = some e.kind := by
  cases e <;> rfl

/-- Different events are written differently, of one kind or of two. -/
theorem encode_injective {e e' : Event} (he : e.ListsAll) (he' : e'.ListsAll)
    (h : e.encode = e'.encode) : e = e' := by
  have hkind : e.kind = e'.kind := by
    have hhead := congrArg List.head? h
    rw [encode_head, encode_head] at hhead
    exact Option.some_inj.mp hhead
  -- The kind byte tells the layouts apart, and within one each field is read off the front.
  cases e with
  | uploadFinished path size md5Digest =>
    cases e' with
    | uploadFinished path' size' md5Digest' =>
      obtain ⟨rfl, rfl, rfl⟩ := file_inj_end (List.cons.inj h).2
      rfl
    | _ => simp [kind] at hkind
  | playStarted path size md5Digest =>
    cases e' with
    | playStarted path' size' md5Digest' =>
      obtain ⟨rfl, rfl, rfl⟩ := file_inj_end (List.cons.inj h).2
      rfl
    | _ => simp [kind] at hkind
  | jobEnded path percentComplete playedLines elapsedSecs =>
    cases e' with
    | jobEnded path' percentComplete' playedLines' elapsedSecs' =>
      obtain ⟨rfl, hrest⟩ := Counted.payload_append_inj (List.cons.inj h).2
      obtain ⟨rfl, htimes⟩ := List.cons.inj hrest
      obtain ⟨rfl, helapsed⟩ := sizeBytes_append_inj htimes
      obtain ⟨rfl, -⟩ := sizeBytes_append_inj (congrArg (· ++ []) helapsed)
      rfl
    | _ => simp [kind] at hkind
  | alarmHalt haltReason =>
    cases e' with
    | alarmHalt haltReason' =>
      obtain ⟨rfl, -⟩ := List.cons.inj (List.cons.inj h).2
      rfl
    | _ => simp [kind] at hkind
  | controlChanged holderId holderName =>
    cases e' with
    | controlChanged holderId' holderName' =>
      obtain ⟨rfl, rfl⟩ := named_inj (List.cons.inj h).2
      rfl
    | _ => simp [kind] at hkind
  | clientJoined clientId name =>
    cases e' with
    | clientJoined clientId' name' =>
      obtain ⟨rfl, rfl⟩ := named_inj (List.cons.inj h).2
      rfl
    | _ => simp [kind] at hkind
  | clientLeft clientId name =>
    cases e' with
    | clientLeft clientId' name' =>
      obtain ⟨rfl, rfl⟩ := named_inj (List.cons.inj h).2
      rfl
    | _ => simp [kind] at hkind
  | jobStart e =>
    cases e' with
    | jobStart e' =>
      obtain ⟨hpath, hsize, hdigest, hwait⟩ := file_inj (List.cons.inj h).2
      obtain ⟨hstart, hphase, hreason, hseconds, hstarter, hids⟩ :=
        JobStartEvent.waitBytes_inj he he' hwait
      exact congrArg jobStart (JobStartEvent.ext hpath hsize hdigest hstart hphase hreason hseconds
        hstarter hids)
    | _ => simp [kind] at hkind

end Event

end CarveraFirmware.Publish
