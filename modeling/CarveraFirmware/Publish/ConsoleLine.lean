import Mathlib
import CarveraFirmware.Library.BigEndian
import CarveraFirmware.Clients.ProperTables

/-!
# Published console lines

`publish_console_line` of both links cuts a line into fragments that fit a message, each with the id
and the name of its sender and a flag that says whether more follows.
-/

namespace CarveraFirmware.Publish

open Clients

def maxConsoleLineTextBytes : Nat := 535 - (8 + 1 + maxNameLength + 1)

def consoleLineChunkLength (remaining : Nat) : Nat :=
  if remaining > maxConsoleLineTextBytes then maxConsoleLineTextBytes else remaining

def consoleLineHasMore (remaining chunkLength : Nat) : Bool := remaining > chunkLength

/-- The eight bytes of an id. -/
def idBytes (id : UInt64) : List UInt8 := BigEndian.bytes 8 id.toNat

/-- `build_console_line_frame`: the payload, or nothing where it would not fit. -/
def buildConsoleLineFrame (sourceId : UInt64) (sourceName textChunk : List UInt8) (more : Bool)
    (capacity : Nat) : Option (List UInt8) :=
  if 8 + 1 + sourceName.length + 1 + textChunk.length > capacity then none
  else some (idBytes sourceId ++ UInt8.ofNat sourceName.length :: sourceName ++
    (if more then 1 else 0) :: textChunk)

/-- The size of the `frame` that the payloads are built in. -/
def consoleLineFrameSize : Nat := 8 + 1 + maxNameLength + 1 + maxConsoleLineTextBytes

theorem consoleLineChunkLength_pos {remaining : Nat} (h : 0 < remaining) :
    0 < consoleLineChunkLength remaining := by
  unfold consoleLineChunkLength
  split
  · decide
  · exact h

/-- The loop of `publish_console_line`: the payloads it publishes from an offset on. -/
def publishFrom (client : Client) (text : List UInt8) (offset : Nat) : List (List UInt8) :=
  let chunkLength := consoleLineChunkLength (text.length - offset)
  let more := consoleLineHasMore (text.length - offset) chunkLength
  match buildConsoleLineFrame client.id client.name ((text.drop offset).take chunkLength) more
    consoleLineFrameSize with
  | none => []
  | some frame =>
    frame :: if offset + chunkLength < text.length then
      publishFrom client text (offset + chunkLength) else []
termination_by text.length - offset
decreasing_by
  have hpos := consoleLineChunkLength_pos (Nat.sub_pos_of_lt (by omega : offset < text.length))
  omega

/-- `publish_console_line`, of the client at a seat. -/
def publishConsoleLine (table : ClientTable) (seat : Seat) (text : List UInt8) :
    List (List UInt8) :=
  match table.clientAt seat with
  | none => []
  | some client => publishFrom client text 0

/-! ## What a controller reads -/

/-- A fragment as it is read: its sender, whether more follows, and its text. -/
structure Fragment where
  id : UInt64
  name : List UInt8
  more : Bool
  text : List UInt8
  deriving DecidableEq

/-- A payload taken apart: the header is the id, the name and the flag. -/
def readFragment (payload : List UInt8) : Option Fragment :=
  match payload.drop 8 with
  | [] => none
  | nameLen :: rest =>
    match rest.drop nameLen.toNat with
    | [] => none
    | more :: text => some
      { id := UInt64.ofNat (BigEndian.value (payload.take 8)), name := rest.take nameLen.toNat
        more := more = 1, text := text }

section Fragments

variable {client : Client}

theorem idBytes_length (id : UInt64) : (idBytes id).length = 8 := BigEndian.length_bytes 8 _

theorem value_idBytes (id : UInt64) : UInt64.ofNat (BigEndian.value (idBytes id)) = id := by
  rw [idBytes, BigEndian.value_bytes id.toNat_lt, UInt64.ofNat_toNat]

/-- A built payload is read as it was built. -/
theorem readFragment_built (id : UInt64) {name : List UInt8} (hname : name.length ≤ maxNameLength)
    (text : List UInt8) (more : Bool) :
    readFragment (idBytes id ++ UInt8.ofNat name.length :: name ++
      (if more then 1 else 0) :: text) = some ⟨id, name, more, text⟩ := by
  have hlen : (UInt8.ofNat name.length).toNat = name.length := by
    rw [UInt8.toNat_ofNat']
    exact Nat.mod_eq_of_lt (hname.trans_lt (by decide))
  rw [readFragment, List.append_assoc, List.drop_left' (idBytes_length id),
    List.take_left' (idBytes_length id)]
  simp only [List.cons_append, hlen, List.drop_left, List.take_left, value_idBytes]
  cases more <;> rfl

theorem buildConsoleLineFrame_fits (hname : client.name.length ≤ maxNameLength)
    (text : List UInt8) {chunk : Nat} (hchunk : chunk ≤ maxConsoleLineTextBytes) (more : Bool) :
    buildConsoleLineFrame client.id client.name (text.take chunk) more consoleLineFrameSize =
      some (idBytes client.id ++ UInt8.ofNat client.name.length :: client.name ++
        (if more then 1 else 0) :: text.take chunk) := by
  have htake := List.length_take_le chunk text
  rw [buildConsoleLineFrame, if_neg]
  unfold consoleLineFrameSize
  omega

theorem consoleLineChunkLength_le (remaining : Nat) :
    consoleLineChunkLength remaining ≤ maxConsoleLineTextBytes ∧
      consoleLineChunkLength remaining ≤ remaining := by
  unfold consoleLineChunkLength
  split <;> omega

/-- Fragments of one sender that make up a text, of which the last only has no more to follow. -/
structure MakesUp (client : Client) (text : List UInt8) (fragments : List Fragment) : Prop where
  sender : ∀ f ∈ fragments, f.id = client.id ∧ f.name = client.name
  text : (fragments.map Fragment.text).flatten = text
  more : ∃ front last, fragments = front ++ [last] ∧ (∀ f ∈ front, f.more = true) ∧
    last.more = false

theorem publishFrom_makesUp (hname : client.name.length ≤ maxNameLength) (text : List UInt8)
    (offset : Nat) :
    ∃ fragments, (publishFrom client text offset).map readFragment = fragments.map some ∧
      MakesUp client (text.drop offset) fragments ∧
      ∀ payload ∈ publishFrom client text offset, payload.length ≤ 535 := by
  -- On what is left of the text: every fragment but the last takes at least one byte.
  induction hn : text.length - offset using Nat.strong_induction_on generalizing offset with
  | _ n ih =>
    subst hn
    set chunk := consoleLineChunkLength (text.length - offset) with hchunk
    obtain ⟨hroom, hle⟩ := consoleLineChunkLength_le (text.length - offset)
    rw [← hchunk] at hroom hle
    have hbuilt := buildConsoleLineFrame_fits hname (text.drop offset) hroom
      (consoleLineHasMore (text.length - offset) chunk)
    have hread := readFragment_built client.id hname ((text.drop offset).take chunk)
      (consoleLineHasMore (text.length - offset) chunk)
    have hsize : (idBytes client.id ++ UInt8.ofNat client.name.length :: client.name ++
        (if consoleLineHasMore (text.length - offset) chunk then 1 else 0) ::
          (text.drop offset).take chunk).length ≤ 535 := by
      have htake := List.length_take_le chunk (text.drop offset)
      have hlimit : maxConsoleLineTextBytes = 494 := rfl
      have hmax : maxNameLength = 31 := rfl
      simp only [List.length_append, List.length_cons, idBytes_length]
      omega
    rw [publishFrom]
    simp only [← hchunk, hbuilt]
    by_cases hmore : offset + chunk < text.length
    · have hpos : 0 < consoleLineChunkLength (text.length - offset) :=
        consoleLineChunkLength_pos (by omega)
      obtain ⟨fragments, hmap, hmakes, hshort⟩ :=
        ih (text.length - (offset + chunk)) (by omega) (offset + chunk) rfl
      have hflag : consoleLineHasMore (text.length - offset) chunk = true := by
        rw [consoleLineHasMore, decide_eq_true_iff]
        omega
      rw [hflag] at hread hsize ⊢
      rw [if_pos hmore]
      refine ⟨⟨client.id, client.name, true, (text.drop offset).take chunk⟩ :: fragments, ?_,
        ⟨?_, ?_, ?_⟩, ?_⟩
      · rw [List.map_cons, hread, hmap, List.map_cons]
      · exact List.forall_mem_cons.mpr ⟨⟨rfl, rfl⟩, hmakes.sender⟩
      · rw [List.map_cons, List.flatten_cons, hmakes.text, ← List.drop_drop]
        exact List.take_append_drop _ _
      · obtain ⟨front, last, rfl, hfront, hlast⟩ := hmakes.more
        exact ⟨_ :: front, last, rfl,
          List.forall_mem_cons.mpr ⟨rfl, hfront⟩, hlast⟩
      · exact List.forall_mem_cons.mpr ⟨hsize, hshort⟩
    · -- the last fragment takes what is left, also if that is nothing
      have hall : text.length - offset ≤ chunk := by omega
      have hflag : consoleLineHasMore (text.length - offset) chunk = false := by
        rw [consoleLineHasMore, decide_eq_false_iff_not]
        omega
      rw [hflag] at hread hsize ⊢
      rw [if_neg hmore]
      refine ⟨[⟨client.id, client.name, false, (text.drop offset).take chunk⟩], ?_,
        ⟨?_, ?_, [], _, rfl, by simp, rfl⟩, ?_⟩
      · rw [List.map_cons, hread, List.map_nil, List.map_cons, List.map_nil]
      · exact List.forall_mem_singleton.mpr ⟨rfl, rfl⟩
      · rw [List.map_cons, List.map_nil, List.flatten_cons, List.flatten_nil, List.append_nil]
        exact List.take_of_length_le (by rw [List.length_drop]; exact hall)
      · exact List.forall_mem_singleton.mpr hsize

/-- A full payload goes out while more is left than it holds, and one more at the end. -/
theorem length_publishFrom (hname : client.name.length ≤ maxNameLength) (text : List UInt8)
    (offset : Nat) :
    (publishFrom client text offset).length =
      if offset + maxConsoleLineTextBytes < text.length then
        (publishFrom client text (offset + maxConsoleLineTextBytes)).length + 1
      else 1 := by
  have hbuilt := buildConsoleLineFrame_fits hname (text.drop offset)
    (consoleLineChunkLength_le (text.length - offset)).1
  rw [publishFrom]
  simp only [hbuilt, List.length_cons]
  by_cases hmore : offset + maxConsoleLineTextBytes < text.length
  · have hchunk : consoleLineChunkLength (text.length - offset) = maxConsoleLineTextBytes :=
      if_pos (by omega)
    rw [hchunk, if_pos hmore, if_pos hmore]
  · have hchunk : consoleLineChunkLength (text.length - offset) = text.length - offset :=
      if_neg (by omega)
    rw [hchunk, if_neg (by omega), if_neg hmore, List.length_nil]

end Fragments

/-- The payloads published for a line of a client, read one by one, make up the line; there is one at
least, only the last is not followed by another, and none is longer than a message may be. -/
theorem console_line_fragments {table : ClientTable} (htable : table.Proper) {seat : Seat}
    {client : Client} (hclient : table.clientAt seat = some client) (text : List UInt8) :
    ∃ fragments, (publishConsoleLine table seat text).map readFragment = fragments.map some ∧
      MakesUp client text fragments ∧
      ∀ payload ∈ publishConsoleLine table seat text, payload.length ≤ 535 := by
  rw [publishConsoleLine, hclient]
  exact publishFrom_makesUp (htable seat client hclient).name text 0

/-- A controller on WiFi that has identified as `CNC`. -/
def namedController : Timed :=
  Timed.init.run [(1000, .admits { port := 2222 }),
    (500, .identify (.wifi 0) { id := 0x0102030405060708, name := [67, 78, 67] })]

/-- A line of a thousand bytes goes out in three payloads. -/
theorem console_line_fragments_named :
    ∃ fragments : List Fragment,
      (publishConsoleLine namedController.table (.wifi 0) (List.replicate 1000 65)).map readFragment =
        fragments.map some ∧
      fragments.length = 3 ∧
      (∀ f ∈ fragments, f.id = 0x0102030405060708 ∧ f.name = [67, 78, 67]) ∧
      (fragments.map Fragment.text).flatten = List.replicate 1000 65 := by
  obtain ⟨client, hclient, hid, hname⟩ : ∃ client,
      namedController.table.clientAt (.wifi 0) = some client ∧ client.id = 0x0102030405060708 ∧
        client.name = [67, 78, 67] := ⟨_, rfl, by decide, by decide⟩
  obtain ⟨fragments, hmap, hmakes, -⟩ := console_line_fragments
    (Timed.proper_run [(1000, .admits { port := 2222 }),
      (500, .identify (.wifi 0) { id := 0x0102030405060708, name := [67, 78, 67] })])
    hclient (List.replicate 1000 65)
  refine ⟨fragments, hmap, ?_, fun f hf => ?_, hmakes.text⟩
  · have hcount := congrArg List.length hmap
    rw [List.length_map, List.length_map] at hcount
    rw [← hcount]
    change (publishConsoleLine namedController.table (.wifi 0) (List.replicate 1000 65)).length = 3
    have hshort : client.name.length ≤ maxNameLength := by
      rw [hname]
      decide
    have hlength := length_publishFrom hshort (List.replicate 1000 65)
    rw [List.length_replicate] at hlength
    have hlast := hlength 988
    have hsecond := hlength 494
    have hfirst := hlength 0
    rw [if_neg (by decide)] at hlast
    rw [if_pos (by decide)] at hsecond hfirst
    rw [publishConsoleLine, hclient]
    exact hfirst.trans (congrArg (· + 1) (hsecond.trans (congrArg (· + 1) hlast)))
  · obtain ⟨hid', hname'⟩ := hmakes.sender f hf
    exact ⟨hid'.trans hid, hname'.trans hname⟩

end CarveraFirmware.Publish
