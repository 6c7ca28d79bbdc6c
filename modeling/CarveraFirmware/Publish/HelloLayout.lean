import Mathlib
import CarveraFirmware.Clients.Check
import CarveraFirmware.Publish.Events

/-!
# Hellos and client lists on the wire

`parse_hello` and `build_client_list_reply` of `libs/Hello.cpp`, and what a controller sends and
reads on the other side of them.
-/

namespace CarveraFirmware.Publish

open Clients ClientTable

def helloProtocolVersion : UInt8 := 1

/-- The loop that shifts eight bytes into an id. -/
def readId (payload : List UInt8) : UInt64 :=
  (payload.take 8).foldl (fun (id : UInt64) b => (id <<< 8) ||| b.toUInt64) 0

/-- `parse_hello(payload, length, out)`. -/
def parseHello (payload : List UInt8) : Option Hello :=
  let minimumLength := 1 + 8 + 1 + 1
  if payload.length < minimumLength then none
  else if payload.getD 0 0 ≠ helloProtocolVersion then none
  else
    let nameLen := (payload.getD 9 0).toNat
    if nameLen > maxNameLength then none
    else
      let fullLength := minimumLength + nameLen
      if payload.length < fullLength then none
      else
        let hasLaunch := payload.length ≥ fullLength + 1 + 8
        some
          { id := readId (payload.drop 1)
            name := (payload.drop 10).take nameLen
            link := if payload.getD (10 + nameLen) 0 = 1 then .usb else .wifi
            features := if payload.length > fullLength then payload.getD fullLength 0 else 0
            hasLaunch := hasLaunch
            launch := if hasLaunch then readId (payload.drop (fullLength + 1)) else 0 }

def linkByte : Link → UInt8
  | .wifi => 0
  | .usb => 1

/-- The documented layout of a hello: everything up to the link, the features byte, and the launch
part if there is one. -/
def helloLayout (id : UInt64) (name : List UInt8) (link : Link) (features : UInt8)
    (launch : Option UInt64) : List UInt8 :=
  helloProtocolVersion :: (idBytes id ++ UInt8.ofNat name.length :: (name ++
    linkByte link :: features :: launch.elim [] idBytes))

/-- What such a hello says. -/
def helloOf (id : UInt64) (name : List UInt8) (link : Link) (features : UInt8)
    (launch : Option UInt64) : Hello :=
  { id := id, name := name, link := link, features := features
    hasLaunch := launch.isSome, launch := launch.getD 0 }

/-! ## Reading a hello -/

theorem readId_append (id : UInt64) (rest : List UInt8) : readId (idBytes id ++ rest) = id := by
  rw [readId, List.take_left' (idBytes_length id)]
  have hfold := BigEndian.foldl_shift_in (idBytes id) 0
  exact hfold.trans (value_idBytes id)

theorem getD_of_drop {l r : List UInt8} {n : Nat} {x : UInt8} (h : l.drop n = x :: r) :
    l.getD n 0 = x := by
  have hget : (l.drop n)[0]? = l[n]? := by
    rw [List.getElem?_drop, Nat.add_zero]
  rw [h] at hget
  rw [List.getD_eq_getElem?_getD, ← hget]
  rfl

theorem drop_of_drop {l x r : List UInt8} {n : Nat} (h : l.drop n = x ++ r) :
    l.drop (n + x.length) = r := by
  rw [← List.drop_drop, h, List.drop_left]

section Hellos

variable {payload name tail : List UInt8} {id : UInt64} {link : Link}

/-- A payload with a good head, of which `tail` comes after the link. -/
theorem parseHello_of_head (hname : name.length ≤ maxNameLength)
    (hpayload : payload = helloProtocolVersion :: (idBytes id ++
      UInt8.ofNat name.length :: (name ++ linkByte link :: tail))) :
    parseHello payload = some
      { id := id, name := name, link := link, features := tail.headD 0
        hasLaunch := decide (9 ≤ tail.length)
        launch := if 9 ≤ tail.length then readId tail.tail else 0 } := by
  have hlen : (UInt8.ofNat name.length).toNat = name.length := by
    rw [UInt8.toNat_ofNat']
    exact Nat.mod_eq_of_lt (hname.trans_lt (by decide))
  -- From field to field, by what is left of the payload behind it.
  have h1 : payload.drop 1 = idBytes id ++
      UInt8.ofNat name.length :: (name ++ linkByte link :: tail) := by
    rw [hpayload]
    rfl
  have h9 : payload.drop 9 = UInt8.ofNat name.length :: (name ++ linkByte link :: tail) := by
    have h := drop_of_drop h1
    rwa [idBytes_length] at h
  have h10 : payload.drop 10 = name ++ linkByte link :: tail :=
    drop_of_drop (x := [UInt8.ofNat name.length]) h9
  have hlink : payload.drop (10 + name.length) = linkByte link :: tail := drop_of_drop h10
  have htail : payload.drop (11 + name.length) = tail := by
    have h := drop_of_drop (x := [linkByte link]) hlink
    rwa [List.length_singleton, Nat.add_right_comm] at h
  have hlength : payload.length = 11 + name.length + tail.length := by
    rw [hpayload]
    simp only [List.length_cons, List.length_append, idBytes_length]
    omega
  have hversion : payload.getD 0 0 = helloProtocolVersion := getD_of_drop (by rw [hpayload]; rfl)
  have hfeatures : (if payload.length > 11 + name.length then payload.getD (11 + name.length) 0
      else 0) = tail.headD 0 := by
    cases tail with
    | nil => rw [if_neg (by rw [hlength]; simp), List.headD_nil]
    | cons x r => rw [if_pos (by rw [hlength]; simp), getD_of_drop htail, List.headD_cons]
  have hlaunch : payload.drop (11 + name.length + 1) = tail.tail := by
    rw [← List.drop_drop, htail, List.drop_one]
  have hsome : payload.length ≥ 11 + name.length + 1 + 8 ↔ 9 ≤ tail.length := by
    rw [hlength]
    omega
  have husb : (if linkByte link = 1 then Link.usb else .wifi) = link := by
    cases link <;> rfl
  unfold parseHello
  simp only [Nat.reduceAdd, getD_of_drop h9, hlen, h1, h10, getD_of_drop hlink, List.take_left,
    readId_append, hfeatures, hlaunch, hsome, husb, hversion]
  rw [if_neg (by omega), if_neg (by simp), if_neg (by omega), if_neg (by omega)]

/-- Recovering what the layout was made of. Eight bytes or more after a layout without a launch part
would be taken for one. -/
theorem parseHello_layout (hname : name.length ≤ maxNameLength) (features : UInt8)
    (launch : Option UInt64) {extra : List UInt8} (hextra : launch = none → extra.length < 8) :
    parseHello (helloLayout id name link features launch ++ extra) =
      some (helloOf id name link features launch) := by
  have hpayload : helloLayout id name link features launch ++ extra =
      helloProtocolVersion :: (idBytes id ++ UInt8.ofNat name.length :: (name ++
        linkByte link :: features :: (launch.elim [] idBytes ++ extra))) := by
    simp [helloLayout]
  rw [parseHello_of_head hname hpayload]
  cases launch with
  | none =>
    have hshort := hextra rfl
    have hnot : ¬ 9 ≤ (features :: (none.elim [] idBytes ++ extra)).length := by
      simp only [Option.elim_none, List.nil_append, List.length_cons]
      omega
    rw [if_neg hnot, decide_eq_false hnot]
    rfl
  | some v =>
    have hlong : 9 ≤ (features :: ((some v).elim [] idBytes ++ extra)).length := by
      simp only [Option.elim_some, List.length_append, List.length_cons, idBytes_length]
      omega
    rw [if_pos hlong, decide_eq_true hlong, List.tail_cons, Option.elim_some, readId_append]
    rfl

/-- The layout of a controller from before the features byte. -/
theorem parseHello_old (hname : name.length ≤ maxNameLength) :
    parseHello (helloProtocolVersion :: (idBytes id ++ UInt8.ofNat name.length ::
      (name ++ [linkByte link]))) = some (helloOf id name link 0 none) :=
  parseHello_of_head hname rfl

theorem parseHello_eq_none (payload : List UInt8) :
    parseHello payload = none ↔ payload.length < 11 ∨ payload.getD 0 0 ≠ helloProtocolVersion ∨
      maxNameLength < (payload.getD 9 0).toNat ∨
      payload.length < 11 + (payload.getD 9 0).toNat := by
  unfold parseHello
  simp only [Nat.reduceAdd]
  split_ifs with hshort hversion hlong hcut
  · exact iff_of_true rfl (.inl hshort)
  · exact iff_of_true rfl (.inr (.inl hversion))
  · exact iff_of_true rfl (.inr (.inr (.inl hlong)))
  · exact iff_of_true rfl (.inr (.inr (.inr hcut)))
  · refine iff_of_false not_false ?_
    rintro (h | h | h | h)
    · exact hshort h
    · exact hversion h
    · exact hlong h
    · exact hcut h

end Hellos

/-! ## The client list -/

def clientAddressLength : Nat := 4
def maxClientListReplyLength : Nat :=
  1 + (maxWifiClients + 1) * (8 + 1 + maxNameLength + 1 + 1 + clientAddressLength)

/-- The bytes of an entry: id, name, link and whether it has control. -/
def entryBytes (client : Client) (hasControl : Bool) : List UInt8 :=
  idBytes client.id ++ UInt8.ofNat client.name.length ::
    (client.name ++ [linkByte client.link, if hasControl then 1 else 0])

/-- `append_client_entry`, where `out` is what follows the count. -/
def appendClientEntry (client : Client) (hasControl : Bool) (out : List UInt8) (capacity : Nat) :
    List UInt8 :=
  if 1 + out.length + (8 + 1 + client.name.length + 1 + 1) > capacity then out
  else out ++ entryBytes client hasControl

/-- What the loops of `build_client_list_reply` keep: `full` once the first of them has broken off. -/
structure Listing where
  out : List UInt8 := []
  listed : List Client := []
  full : Bool := false

def hasControl (control : ControlToken) (client : Client) : Bool :=
  control.hasHolder && client.id == control.holder.id

def Listing.wifi (table : ClientTable) (control : ControlToken) (capacity : Nat) (s : Listing)
    (i : Fin maxWifiClients) : Listing :=
  if s.full then s
  else
    match table.wifi i with
    | none => s
    | some client =>
      if !client.identified then s
      else
        let next := appendClientEntry client (hasControl control client) s.out capacity
        if next.length = s.out.length then { s with full := true }
        else { s with out := next, listed := s.listed ++ [client] }

def Listing.usb (table : ClientTable) (control : ControlToken) (capacity : Nat) (s : Listing) :
    Listing :=
  match table.usb with
  | none => s
  | some client =>
    if !client.identified then s
    else
      let next := appendClientEntry client (hasControl control client) s.out capacity
      if next.length ≠ s.out.length then { s with out := next, listed := s.listed ++ [client] }
      else s

/-- An IPv4 address of a listed client. -/
abbrev Ip := UInt8 × UInt8 × UInt8 × UInt8

def listedIp (client : Client) : Ip :=
  match client.link with
  | .usb => (0, 0, 0, 0)
  | .wifi => client.address.ip

def ipBytes (ip : Ip) : List UInt8 := [ip.1, ip.2.1, ip.2.2.1, ip.2.2.2]

/-- `build_client_list_reply(table, control, out, out_capacity)`. -/
def buildClientListReply (table : ClientTable) (control : ControlToken) (capacity : Nat) :
    List UInt8 :=
  let s := (slots.foldl (Listing.wifi table control capacity) {}).usb table control capacity
  UInt8.ofNat s.listed.length ::
    if 1 + s.out.length + clientAddressLength * s.listed.length ≤ capacity then
      s.out ++ s.listed.flatMap fun client => ipBytes (listedIp client)
    else s.out

/-! ### Reading a client list -/

/-- An entry of a client list as a controller reads it. -/
structure Entry where
  id : UInt64
  name : List UInt8
  link : Link
  hasControl : Bool
  deriving DecidableEq

def readEntry (l : List UInt8) : Option (Entry × List UInt8) :=
  match l.drop 8 with
  | [] => none
  | nameLen :: rest =>
    match rest.drop nameLen.toNat with
    | link :: control :: rest' => some
      ({ id := readId l, name := rest.take nameLen.toNat, link := if link = 1 then .usb else .wifi
         hasControl := control = 1 }, rest')
    | _ => none

def readEntries : Nat → List UInt8 → Option (List Entry × List UInt8)
  | 0, l => some ([], l)
  | n + 1, l =>
    (readEntry l).bind fun r => (readEntries n r.2).map fun s => (r.1 :: s.1, s.2)

def readIps : List UInt8 → Option (List Ip)
  | [] => some []
  | a :: b :: c :: d :: l => (readIps l).map ((a, b, c, d) :: ·)
  | _ => none

/-- The entries of a reply, each with its address. -/
def readClientList : List UInt8 → Option (List (Entry × Ip))
  | [] => none
  | count :: l =>
    (readEntries count.toNat l).bind fun r => (readIps r.2).bind fun ips =>
      if ips.length = count.toNat then some (r.1.zip ips) else none

/-- The clients that have identified, in the order of the seats. -/
def identifiedClients (table : ClientTable) : List Client :=
  (slots.filterMap table.wifi ++ table.usb.toList).filter (·.identified)

/-- What the list says of a client. -/
def entryOf (control : ControlToken) (client : Client) : Entry × Ip :=
  ({ id := client.id, name := client.name, link := client.link
     hasControl := control.holder.identified = true ∧ client.id = control.holder.id },
    listedIp client)

section ClientList

variable {control : ControlToken} {client : Client}

theorem length_entryBytes (client : Client) (hasControl : Bool) :
    (entryBytes client hasControl).length = 8 + 1 + client.name.length + 1 + 1 := by
  simp only [entryBytes, List.length_append, List.length_cons, List.length_nil, idBytes_length]
  omega

theorem hasControl_eq (control : ControlToken) (client : Client) :
    hasControl control client = (entryOf control client).1.hasControl := by
  rw [Bool.eq_iff_iff]
  simp [hasControl, ControlToken.hasHolder, entryOf]

theorem readEntry_entryBytes (hname : client.name.length ≤ maxNameLength) (rest : List UInt8) :
    readEntry (entryBytes client (hasControl control client) ++ rest) =
      some ((entryOf control client).1, rest) := by
  have hlen : (UInt8.ofNat client.name.length).toNat = client.name.length := by
    rw [UInt8.toNat_ofNat']
    exact Nat.mod_eq_of_lt (hname.trans_lt (by decide))
  have hlink : (if linkByte client.link = 1 then Link.usb else .wifi) = client.link := by
    cases client.link <;> rfl
  have hflag : ∀ b : Bool, decide ((if b then (1 : UInt8) else 0) = 1) = b := by decide
  rw [readEntry, entryBytes, List.append_assoc, List.drop_left' (idBytes_length client.id),
    readId_append]
  simp only [List.cons_append, List.append_assoc, hlen, List.drop_left, List.take_left,
    List.nil_append, hlink, hflag]
  rw [hasControl_eq]
  rfl

theorem readEntries_flatMap {clients : List Client}
    (hnames : ∀ c ∈ clients, c.name.length ≤ maxNameLength) (rest : List UInt8) :
    readEntries clients.length
        ((clients.flatMap fun c => entryBytes c (hasControl control c)) ++ rest) =
      some (clients.map fun c => (entryOf control c).1, rest) := by
  induction clients with
  | nil => rfl
  | cons c clients ih =>
    obtain ⟨hc, hrest⟩ := List.forall_mem_cons.mp hnames
    rw [List.length_cons, readEntries, List.flatMap_cons, List.append_assoc,
      readEntry_entryBytes hc]
    simp only [Option.bind_some, ih hrest, Option.map_some, List.map_cons]

theorem readIps_flatMap (clients : List Client) :
    readIps (clients.flatMap fun c => ipBytes (listedIp c)) = some (clients.map listedIp) := by
  induction clients with
  | nil => rfl
  | cons c clients ih =>
    rw [List.flatMap_cons]
    show (readIps (clients.flatMap fun c => ipBytes (listedIp c))).map _ = _
    rw [ih]
    rfl

/-- Entries of names that a hello may carry. -/
theorem length_entries_le {clients : List Client}
    (hnames : ∀ c ∈ clients, c.name.length ≤ maxNameLength) :
    (clients.flatMap fun c => entryBytes c (hasControl control c)).length ≤
      42 * clients.length := by
  induction clients with
  | nil => exact Nat.zero_le _
  | cons c clients ih =>
    obtain ⟨hc, hrest⟩ := List.forall_mem_cons.mp hnames
    have hle := ih hrest
    have hmax : maxNameLength = 31 := rfl
    rw [List.flatMap_cons, List.length_append, length_entryBytes, List.length_cons]
    omega

/-- A listing of the given clients, none left out. -/
structure Listing.Lists (control : ControlToken) (s : Listing) (clients : List Client) : Prop where
  out : s.out = clients.flatMap fun c => entryBytes c (hasControl control c)
  listed : s.listed = clients
  full : s.full = false
  names : ∀ c ∈ clients, c.name.length ≤ maxNameLength

variable {table : ClientTable} {capacity : Nat} {s : Listing} {clients : List Client}

theorem Listing.Lists.length_le (h : s.Lists control clients) :
    s.out.length ≤ 42 * clients.length := by
  rw [h.out]
  exact length_entries_le h.names

/-- There is room for one more entry. -/
theorem Listing.Lists.append (h : s.Lists control clients)
    (hroom : 1 + 42 * (clients.length + 1) ≤ capacity)
    (hname : client.name.length ≤ maxNameLength) :
    let next := appendClientEntry client (hasControl control client) s.out capacity
    next.length ≠ s.out.length ∧
      { s with out := next, listed := s.listed ++ [client] : Listing }.Lists control
        (clients ++ [client]) := by
  have hle := h.length_le
  have hmax : maxNameLength = 31 := rfl
  have hfits : ¬ 1 + s.out.length + (8 + 1 + client.name.length + 1 + 1) > capacity := by omega
  simp only [appendClientEntry]
  rw [if_neg hfits]
  refine ⟨?_, ?_, ?_, h.full, ?_⟩
  · rw [List.length_append, length_entryBytes]
    omega
  · rw [h.out, List.flatMap_append, List.flatMap_singleton]
  · rw [h.listed]
  · intro c hc
    obtain hc | hc := List.mem_append.mp hc
    · exact h.names c hc
    · rw [List.mem_singleton.mp hc]
      exact hname

theorem Listing.Lists.wifi (h : s.Lists control clients)
    (hroom : 1 + 42 * (clients.length + 1) ≤ capacity) (htable : table.Proper)
    (i : Fin maxWifiClients) :
    (s.wifi table control capacity i).Lists control
      (clients ++ ((table.wifi i).toList.filter (·.identified))) := by
  rw [Listing.wifi, if_neg (by rw [h.full]; exact Bool.false_ne_true)]
  cases hc : table.wifi i with
  | none => simpa using h
  | some client =>
    cases hid : client.identified with
    | false => simpa [hid] using h
    | true =>
      obtain ⟨hne, hnext⟩ := h.append hroom (htable (.wifi i) client hc).name
      simp only [hid, Bool.not_true, Bool.false_eq_true, if_false, if_neg hne]
      simpa [hid] using hnext

theorem Listing.Lists.usb (h : s.Lists control clients)
    (hroom : 1 + 42 * (clients.length + 1) ≤ capacity) (htable : table.Proper) :
    (s.usb table control capacity).Lists control
      (clients ++ (table.usb.toList.filter (·.identified))) := by
  rw [Listing.usb]
  cases hc : table.usb with
  | none => simpa using h
  | some client =>
    cases hid : client.identified with
    | false => simpa [hid] using h
    | true =>
      obtain ⟨hne, hnext⟩ := h.append hroom (htable .usb client hc).name
      simp only [hid, Bool.not_true, Bool.false_eq_true, if_false, if_pos hne]
      simpa [hid] using hnext

theorem Listing.Lists.foldl_wifi (h : s.Lists control clients) (htable : table.Proper)
    (seats : List (Fin maxWifiClients)) (hroom : 1 + 42 * (clients.length + seats.length) ≤ capacity) :
    (seats.foldl (Listing.wifi table control capacity) s).Lists control
      (clients ++ (seats.filterMap table.wifi).filter (·.identified)) := by
  induction seats generalizing s clients with
  | nil => simpa using h
  | cons i seats ih =>
    rw [List.length_cons] at hroom
    have hnext := h.wifi (show 1 + 42 * (clients.length + 1) ≤ capacity by omega) htable i
    have hone : ((table.wifi i).toList.filter (·.identified)).length ≤ 1 := by
      refine (List.length_filter_le _ _).trans ?_
      cases table.wifi i <;> simp
    have hall := ih hnext (by rw [List.length_append]; omega)
    have hlist : (table.wifi i).toList.filter (·.identified) ++
        (seats.filterMap table.wifi).filter (·.identified) =
          ((i :: seats).filterMap table.wifi).filter (·.identified) := by
      cases hc : table.wifi i with
      | none => rw [List.filterMap_cons_none hc]; rfl
      | some client => rw [List.filterMap_cons_some hc, ← List.filter_append]; rfl
    rw [List.append_assoc, hlist] at hall
    exact hall

/-- A reply with room for the longest list is read as the list of the identified clients. -/
theorem readClientList_reply (htable : table.Proper) (control : ControlToken)
    (hcapacity : maxClientListReplyLength ≤ capacity) :
    readClientList (buildClientListReply table control capacity) =
        some ((identifiedClients table).map (entryOf control)) ∧
      (buildClientListReply table control capacity).length ≤ maxClientListReplyLength := by
  have hmax : maxClientListReplyLength = 185 := rfl
  have hslots : slots.length = 3 := rfl
  have hstart : ({} : Listing).Lists control [] := ⟨rfl, rfl, rfl, by simp⟩
  -- Three WiFi slots and USB: four entries always fit the reply.
  have hwifi := hstart.foldl_wifi htable slots
    (show 1 + 42 * (([] : List Client).length + slots.length) ≤ capacity by
      rw [List.length_nil]; omega)
  rw [List.nil_append] at hwifi
  have hthree : ((slots.filterMap table.wifi).filter (·.identified)).length ≤ 3 :=
    (List.length_filter_le _ _).trans ((List.length_filterMap_le _ _).trans hslots.le)
  have hall := hwifi.usb (show 1 + 42 * (_ + 1) ≤ capacity by omega) htable
  have hfour : (identifiedClients table).length ≤ 4 := by
    have husb : (table.usb.toList.filter (·.identified)).length ≤ 1 := by
      refine (List.length_filter_le _ _).trans ?_
      cases table.usb <;> simp
    rw [identifiedClients, List.filter_append, List.length_append]
    omega
  rw [← List.filter_append, ← identifiedClients] at hall
  have hlength := hall.length_le
  have hcount : (UInt8.ofNat (identifiedClients table).length).toNat =
      (identifiedClients table).length := by
    rw [UInt8.toNat_ofNat']
    omega
  have hips : ((identifiedClients table).flatMap fun c => ipBytes (listedIp c)).length =
      4 * (identifiedClients table).length := by
    rw [List.length_flatMap]
    simp [ipBytes, Nat.mul_comm]
  have hreply : buildClientListReply table control capacity =
      UInt8.ofNat (identifiedClients table).length ::
        ((identifiedClients table).flatMap fun c => entryBytes c (hasControl control c)) ++
          (identifiedClients table).flatMap fun c => ipBytes (listedIp c) := by
    rw [buildClientListReply]
    simp only [hall.listed, clientAddressLength]
    rw [if_pos (by omega), hall.out, List.cons_append]
  rw [hreply]
  refine ⟨?_, ?_⟩
  · rw [List.cons_append, readClientList, hcount, readEntries_flatMap hall.names]
    simp only [Option.bind_some, readIps_flatMap, List.length_map, if_true, List.zip_map']
    rfl
  · rw [hall.out] at hlength
    rw [List.cons_append, List.length_cons, List.length_append, hips]
    omega

end ClientList

/-- A hello is read as it was written, bytes of later versions after it or not, and refused where it
is cut off, of another version or has too long a name; the client list is read as the clients that
have identified; and each event is built where it fits, within the capacity, and is told apart from
the others of its kind. -/
theorem layouts :
    (∀ (id : UInt64) (name : List UInt8) (link : Link) (features : UInt8) (launch : Option UInt64)
      (extra : List UInt8), name.length ≤ maxNameLength → (launch = none → extra.length < 8) →
      parseHello (helloLayout id name link features launch ++ extra) =
        some (helloOf id name link features launch)) ∧
    (∀ payload, parseHello payload = none ↔
      payload.length < 11 ∨ payload.getD 0 0 ≠ helloProtocolVersion ∨
        maxNameLength < (payload.getD 9 0).toNat ∨
        payload.length < 11 + (payload.getD 9 0).toNat) ∧
    (∀ (table : ClientTable) (control : ControlToken) (capacity : Nat), table.Proper →
      maxClientListReplyLength ≤ capacity →
      readClientList (buildClientListReply table control capacity) =
          some ((identifiedClients table).map (entryOf control)) ∧
        (buildClientListReply table control capacity).length ≤ maxClientListReplyLength) ∧
    (∀ (e : Event) (capacity : Nat),
      ((e.build capacity).length = 0 ↔ capacity < e.encode.length) ∧
      (e.encode.length ≤ capacity →
        (e.build capacity).length = e.encode.length ∧ (e.build capacity).written = e.encode) ∧
      (e.build capacity).written.length ≤ capacity) ∧
    ∀ e e' : Event, e.kind = e'.kind → e.ListsAll → e'.ListsAll → e.encode = e'.encode → e = e' := by
  refine ⟨?_, parseHello_eq_none, ?_, ?_, ?_⟩
  · intro id name link features launch extra hname hextra
    exact parseHello_layout hname features launch hextra
  · intro table control capacity htable hcapacity
    exact readClientList_reply htable control hcapacity
  · intro e capacity
    have h := e.build_holds capacity
    exact ⟨h.length_eq_zero e.encode_ne_nil, h.whole, h.within⟩
  · exact fun e e' _ he he' h => Event.encode_injective he he' h

/-- Two controllers have identified, one over each link, and the one over USB has control. -/
def twoClients : Timed :=
  Timed.init.run
    [(0, .admits { ip := (192, 168, 1, 20), port := 2222 }),
      (10, .identify (.wifi 0) (helloOf 7 [0x41] .wifi 1 (some 9))),
      (20, .usbTalks), (30, .identify .usb (helloOf 8 [0x42, 0x43] .usb 0 none))]

/-- A hello with a launch part and more after it, the list of two clients, and two alarms. -/
theorem layouts_of_few :
    parseHello (helloLayout 7 [0x41] .wifi 1 (some 9) ++ [0, 1]) =
        some (helloOf 7 [0x41] .wifi 1 (some 9)) ∧
      readClientList (buildClientListReply twoClients.table
          { holder := { identified := true, id := 8 } } 185) =
        some [({ id := 7, name := [0x41], link := .wifi, hasControl := false }, (192, 168, 1, 20)),
          ({ id := 8, name := [0x42, 0x43], link := .usb, hasControl := true }, (0, 0, 0, 0))] ∧
      ((Event.alarmHalt 1).encode = (Event.alarmHalt 2).encode →
        Event.alarmHalt 1 = Event.alarmHalt 2) := by
  refine ⟨layouts.1 7 [0x41] .wifi 1 (some 9) [0, 1] (by decide) nofun, ?_,
    layouts.2.2.2.2 _ _ rfl trivial trivial⟩
  have hlist := (layouts.2.2.1 twoClients.table { holder := { identified := true, id := 8 } } 185
    (Timed.proper_run _) le_rfl).1
  rw [hlist]
  decide

/-- A job start that waits for as many controllers as a count says, all of the same id. -/
def waitsFor (count : Nat) : JobStartEvent :=
  { path := ⟨[], Nat.zero_le _⟩, size := 0, md5Digest := none, startId := 1, phase := 0, reason := 0
    secondsLeft := 0, starterId := 1, notReadyIds := List.replicate count 2 }

/-- Eight bytes after a hello without a launch part are taken for one, and a job start does not say
whether it waits for a fifth controller. -/
theorem layouts_confused :
    parseHello (helloLayout 7 [] .wifi 0 none ++ List.replicate 8 0) ≠
        some (helloOf 7 [] .wifi 0 none) ∧
      Event.jobStart (waitsFor 4) ≠ Event.jobStart (waitsFor 5) ∧
      (Event.jobStart (waitsFor 4)).encode = (Event.jobStart (waitsFor 5)).encode := by
  refine ⟨by decide, ?_, by decide⟩
  intro h
  have hids := congrArg JobStartEvent.notReadyIds (Event.jobStart.inj h)
  exact absurd (congrArg List.length hids) (by decide)

end CarveraFirmware.Publish
