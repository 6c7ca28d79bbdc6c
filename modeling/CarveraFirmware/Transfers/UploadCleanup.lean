import Mathlib
import CarveraFirmware.Transfers.Upload

/-!
# What a failed upload leaves behind

`upload_error` removes the name the upload was asked for. A plain upload writes exactly there; a
compressed one writes into the `.lz` folder, and that file stays.
-/

namespace CarveraFirmware.Transfers

/-! ## Names -/

theorem find_spec {pat s : List Char} {i : Nat} (h : find pat s = some i) :
    ∃ rest, s = s.take i ++ pat ++ rest ∧ i ≤ s.length := by
  induction s generalizing i with
  | nil =>
    rw [find] at h
    split at h
    next hp =>
      obtain rfl := Option.some.inj h
      obtain ⟨rest, hrest⟩ := List.isPrefixOf_iff_prefix.mp hp
      exact ⟨rest, by simpa using hrest.symm, Nat.zero_le _⟩
    · simp at h
  | cons c s ih =>
    rw [find] at h
    split at h
    next hp =>
      obtain rfl := Option.some.inj h
      obtain ⟨rest, hrest⟩ := List.isPrefixOf_iff_prefix.mp hp
      exact ⟨rest, by simpa using hrest.symm, Nat.zero_le _⟩
    · obtain ⟨j, hj, rfl⟩ := Option.map_eq_some_iff.mp h
      obtain ⟨rest, hrest, hle⟩ := ih hj
      refine ⟨rest, ?_, by simpa using hle⟩
      rw [List.take_succ_cons, List.cons_append, List.cons_append, ← hrest]

theorem rfind_spec {pat s : List Char} {i : Nat} (h : rfind pat s = some i) :
    ∃ rest, s = s.take i ++ pat ++ rest ∧ i ≤ s.length := by
  induction s generalizing i with
  | nil =>
    rw [rfind] at h
    split at h
    next hp =>
      obtain rfl := Option.some.inj h
      obtain ⟨rest, hrest⟩ := List.isPrefixOf_iff_prefix.mp hp
      exact ⟨rest, by simpa using hrest.symm, Nat.zero_le _⟩
    · simp at h
  | cons c s ih =>
    rw [rfind] at h
    split at h
    next j hj =>
      obtain rfl := Option.some.inj h
      obtain ⟨rest, hrest, hle⟩ := ih hj
      refine ⟨rest, ?_, by simpa using hle⟩
      rw [List.take_succ_cons, List.cons_append, List.cons_append, ← hrest]
    · split at h
      next hp =>
        obtain rfl := Option.some.inj h
        obtain ⟨rest, hrest⟩ := List.isPrefixOf_iff_prefix.mp hp
        exact ⟨rest, by simpa using hrest.symm, Nat.zero_le _⟩
      · simp at h

theorem rfind_isSome_append (pat a b : List Char) : (rfind pat (a ++ pat ++ b)).isSome = true := by
  induction a with
  | nil =>
    have hp : pat.isPrefixOf (pat ++ b) = true := List.isPrefixOf_iff_prefix.mpr ⟨b, rfl⟩
    rw [List.nil_append]
    cases hpat : pat ++ b with
    | nil => rw [hpat] at hp; simp [rfind, hp]
    | cons c s =>
      rw [hpat] at hp
      rw [rfind]
      split
      · rfl
      · rw [if_pos hp]
        rfl
  | cons c a ih =>
    obtain ⟨i, hi⟩ := Option.isSome_iff_exists.mp ih
    rw [List.cons_append, List.cons_append, rfind, hi]
    rfl

def sdGcodes : FilePath := ['/', 's', 'd', '/', 'g', 'c', 'o', 'd', 'e', 's', '/']

theorem lzFilename_split (filename : FilePath) :
    ∃ rest, lzFolder ++ sidecarRelativeName filename = lzFilename filename ++ lzSuffix ++ rest := by
  have hpath : changeToLzPath filename =
      sdGcodes ++ lzSuffix ++ ('/' :: sidecarRelativeName filename) := rfl
  have hsome : (rfind lzSuffix (changeToLzPath filename)).isSome = true := by
    rw [hpath]
    exact rfind_isSome_append _ _ _
  obtain ⟨i, hi⟩ := Option.isSome_iff_exists.mp hsome
  obtain ⟨rest, hrest, -⟩ := rfind_spec hi
  refine ⟨rest, ?_⟩
  have hname : lzFilename filename = (changeToLzPath filename).take i := by
    rw [lzFilename, hi, Option.getD_some]
  rw [hname, ← changeToLzPath, ← hrest]

/-- A `.lz` past the folder itself: in the folder's own name it starts only at its last part. -/
theorem folder_split {folder rel name rest : List Char} (h : folder ++ rel = name ++ lzSuffix ++ rest)
    (hlt : name.length < folder.length) : folder[name.length]? = some '.' ∧ name <+: folder := by
  have hget : (folder ++ rel)[name.length]? = some '.' := by
    rw [h, List.append_assoc, List.getElem?_append_right (Nat.le_refl _), Nat.sub_self]
    rfl
  rw [List.getElem?_append_left hlt] at hget
  refine ⟨hget, List.prefix_of_prefix_length_le ⟨lzSuffix ++ rest, ?_⟩ ⟨rel, rfl⟩ hlt.le⟩
  rw [h, List.append_assoc]

theorem lzFilename_folder {filename : FilePath} (hlast : (lzFilename filename).getLast? ≠ some '/') :
    ∃ name, lzFilename filename = lzFolder ++ name := by
  obtain ⟨rest, hrest⟩ := lzFilename_split filename
  by_cases hlt : (lzFilename filename).length < lzFolder.length
  · -- the only `.` of the folder's name stands right after a slash
    obtain ⟨hdot, hleads⟩ := folder_split hrest hlt
    have hlen : (lzFilename filename).length = 11 := by
      generalize (lzFilename filename).length = n at hdot hlt
      have : n < 15 := hlt
      interval_cases n <;> first | rfl | exact absurd hdot (by decide)
    have hname : lzFilename filename = sdGcodes := by
      rw [List.prefix_iff_eq_take.mp hleads, hlen]
      rfl
    rw [hname] at hlast
    exact absurd rfl hlast
  · obtain ⟨name, hname⟩ : lzFolder <+: lzFilename filename :=
      List.prefix_of_prefix_length_le ⟨sidecarRelativeName filename, rfl⟩
        ⟨lzSuffix ++ rest, by rw [hrest, List.append_assoc]⟩ (not_lt.mp hlt)
    exact ⟨name, hname.symm⟩

theorem lzFilename_ne_filename {filename : FilePath}
    (hlast : (lzFilename filename).getLast? ≠ some '/') : lzFilename filename ≠ filename := by
  intro heq
  obtain ⟨name, hname⟩ := lzFilename_folder hlast
  obtain ⟨rest, hrest⟩ := lzFilename_split filename
  have hrel : sidecarRelativeName filename = lzSuffix ++ '/' :: name := by
    rw [← heq, hname]
    rfl
  have htail : lzSuffix ++ '/' :: name = name ++ lzSuffix ++ rest := by
    rw [hrel, hname, List.append_assoc, List.append_assoc] at hrest
    rw [List.append_assoc]
    exact List.append_cancel_left hrest
  -- both sides have as many slashes, so what follows the last `.lz` is one
  have hlen := congrArg List.length htail
  have hcount := congrArg (List.count '/') htail
  simp only [List.length_append, List.length_cons, List.count_append, List.count_cons_self]
    at hlen hcount
  have hone : rest.length = 1 := by omega
  have hslash : List.count '/' rest = 1 := by omega
  obtain ⟨c, rfl⟩ := List.length_eq_one_iff.mp hone
  obtain rfl : c = '/' := by
    by_contra hc
    simp [hc] at hslash
  refine hlast ?_
  rw [hname, show lzFolder ++ name = sdGcodes ++ (lzSuffix ++ '/' :: name) from rfl, htail,
    ← List.append_assoc]
  exact List.getLast?_concat

theorem md5Filename_folder (filename : FilePath) : ∃ name, md5Filename filename = md5Folder ++ name := by
  cases hfind : find lzSuffix (changeToMd5Path filename) with
  | none =>
    rw [md5Filename, cutAt, hfind, Option.getD_none, List.take_length]
    exact ⟨sidecarRelativeName filename, rfl⟩
  | some i =>
    have hname : md5Filename filename = (changeToMd5Path filename).take i := by
      rw [md5Filename, cutAt, hfind, Option.getD_some]
    obtain ⟨rest, hrest, hle⟩ := find_spec hfind
    have hlen : ((changeToMd5Path filename).take i).length = i := List.length_take_of_le hle
    have hge : md5Folder.length ≤ i := by
      by_contra hlt
      obtain ⟨hdot, -⟩ := folder_split hrest (by rw [hlen]; exact not_le.mp hlt)
      have hnext : (changeToMd5Path filename)[i + 1]? = some 'l' := by
        rw [hrest, List.append_assoc, List.getElem?_append_right (by omega), hlen,
          Nat.add_sub_cancel_left]
        rfl
      rw [hlen] at hdot
      have hi : i < 16 := not_le.mp hlt
      clear hlen hrest hle hfind hlt
      -- the `.` of the folder is followed by an `m`
      interval_cases i <;> first | exact absurd hdot (by decide) | exact absurd hnext (by simp [changeToMd5Path, md5Folder])
    refine ⟨(sidecarRelativeName filename).take (i - md5Folder.length), ?_⟩
    rw [hname, changeToMd5Path, List.take_append, List.take_of_length_le hge]

theorem lzFilename_ne_md5Filename {filename : FilePath}
    (hlast : (lzFilename filename).getLast? ≠ some '/') :
    lzFilename filename ≠ md5Filename filename := by
  obtain ⟨name, hname⟩ := lzFilename_folder hlast
  obtain ⟨name', hname'⟩ := md5Filename_folder filename
  intro heq
  rw [hname, hname'] at heq
  simp [lzFolder, md5Folder] at heq

theorem changeToLzPath_ne (path : FilePath) : changeToLzPath path ≠ path := by
  intro h
  have hrel : sidecarRelativeName path = lzSuffix ++ '/' :: sidecarRelativeName path := by
    conv_lhs => rw [← h]
    rfl
  have hlen := congrArg List.length hrel
  simp only [List.length_append, List.length_cons] at hlen
  omega

theorem changeToMd5Path_ne (path : FilePath) : changeToMd5Path path ≠ path := by
  intro h
  have hrel : sidecarRelativeName path = ['.', 'm', 'd', '5', '/'] ++ sidecarRelativeName path := by
    conv_lhs => rw [← h]
    rfl
  have hlen := congrArg List.length hrel
  simp only [List.length_append, List.length_cons, List.length_nil] at hlen
  omega

theorem changeToLzPath_ne_md5 (path other : FilePath) :
    changeToLzPath path ≠ changeToMd5Path other := by
  intro h
  simp [changeToLzPath, changeToMd5Path, lzFolder, md5Folder] at h

/-! ## What a run leaves -/

theorem content_create_if {card : Card} {path other : FilePath} (b : Bool) (h : b = true → path ≠ other) :
    (if b then card.create other else card).content path = card.content path := by
  cases b with
  | false => rfl
  | true => exact Function.update_of_ne (h rfl) _ _

theorem content_remove_if {card : Card} {path other : FilePath} (b : Bool) (h : b = true → path ≠ other) :
    (if b then card.remove other else card).content path = card.content path := by
  cases b with
  | false => rfl
  | true => exact Function.update_of_ne (h rfl) _ _

/-- A file that the run has created or written to. -/
def Card.LeftBehind (card : Card) (path : FilePath) : Prop :=
  (card.content path).isSome = true ∧ card.written path = true

theorem Card.leftBehind_create (card : Card) (path : FilePath) : (card.create path).LeftBehind path := by
  simp [LeftBehind, create]

theorem Card.LeftBehind.create {card : Card} {path : FilePath} (h : card.LeftBehind path)
    (other : FilePath) : (card.create other).LeftBehind path := by
  by_cases heq : path = other
  · rw [heq]
    exact card.leftBehind_create other
  · simpa [LeftBehind, Card.create, Function.update_of_ne heq] using h

theorem Card.LeftBehind.append {card : Card} {path : FilePath} (h : card.LeftBehind path)
    (other : FilePath) (bytes : List UInt8) : (card.append other bytes).LeftBehind path := by
  by_cases heq : path = other
  · subst heq
    simpa [LeftBehind, Card.append] using h
  · simpa [LeftBehind, Card.append, Function.update_of_ne heq] using h

theorem Card.LeftBehind.remove {card : Card} {path other : FilePath} (h : card.LeftBehind path)
    (hne : path ≠ other) : (card.remove other).LeftBehind path := by
  simpa [LeftBehind, Card.remove, Function.update_of_ne hne] using h

/-- What a round may change: the data file, and the MD5 if it is open. -/
def Touches (filename : FilePath) (r : Receiving) (path : FilePath) : Prop :=
  path = dataPath filename ∨ (r.md5Open = true ∧ path = md5Filename filename)

/-- The same files are open and have been written, and no other has changed. -/
structure SameFiles (filename : FilePath) (r r' : Receiving) : Prop where
  fdOpen : r'.fdOpen = r.fdOpen
  md5Open : r'.md5Open = r.md5Open
  written : r'.card.written = r.card.written
  leftBehind : ∀ path, r.card.LeftBehind path → r'.card.LeftBehind path
  frame : ∀ path, ¬ Touches filename r path → r'.card.content path = r.card.content path

section

variable (filename : FilePath) (r : Receiving)

theorem SameFiles.refl : SameFiles filename r r := ⟨rfl, rfl, rfl, fun _ h => h, fun _ _ => rfl⟩

variable {filename}

theorem SameFiles.trans {r r' r'' : Receiving} (h : SameFiles filename r r')
    (h' : SameFiles filename r' r'') : SameFiles filename r r'' := by
  refine ⟨h'.fdOpen.trans h.fdOpen, h'.md5Open.trans h.md5Open, h'.written.trans h.written,
    fun path hp => h'.leftBehind path (h.leftBehind path hp), fun path hpath => ?_⟩
  have hpath' : ¬ Touches filename r' path := by
    rw [Touches, h.md5Open]
    exact hpath
  exact (h'.frame path hpath').trans (h.frame path hpath)

theorem Card.append_content_of_ne {card : Card} {path other : FilePath} (h : path ≠ other)
    (bytes : List UInt8) : (card.append other bytes).content path = card.content path :=
  Function.update_of_ne h _ _

variable (filename)

theorem sameFiles_writeData (bytes : List UInt8) (stored : Option Nat) :
    SameFiles filename r (r.writeData filename bytes stored) := by
  unfold Receiving.writeData
  split
  · exact ⟨rfl, rfl, rfl, fun path h => h.append _ _,
      fun path h => Card.append_content_of_ne (fun heq => h (.inl heq)) _⟩
  · exact SameFiles.refl filename r

theorem sameFiles_writeMd5 (bytes : List UInt8) (stored : Option Nat) :
    SameFiles filename r (r.writeMd5 filename bytes stored) := by
  unfold Receiving.writeMd5
  split
  next hopen =>
    exact ⟨rfl, rfl, rfl, fun path h => h.append _ _,
      fun path h => Card.append_content_of_ne (fun heq => h (.inr ⟨hopen, heq⟩)) _⟩
  · exact SameFiles.refl filename r

theorem SameFiles.filesize {r r' : Receiving} (h : SameFiles filename r r') (n : UInt32) :
    SameFiles filename r { r' with filesize := n } :=
  ⟨h.fdOpen, h.md5Open, h.written, h.leftBehind, h.frame⟩

theorem sameFiles_xmodem (x : Xmodem) (input : XmodemInput) :
    SameFiles filename r (Xmodem.round filename r x input).1 := by
  cases input with
  | silence =>
    simp only [Xmodem.round]
    split <;> exact SameFiles.refl filename r
  | eot => exact SameFiles.refl filename r
  | can => exact SameFiles.refl filename r
  | block isStx received stored =>
    simp only [Xmodem.round]
    split_ifs
    all_goals first
      | exact SameFiles.refl filename r
      | exact sameFiles_writeMd5 filename r _ _
      | exact (sameFiles_writeData filename r _ _).filesize filename _

theorem sameFiles_makera (m : Makera) (input : MakeraInput) :
    SameFiles filename r (Makera.round filename r m input).1 := by
  cases input with
  | silence connected =>
    simp only [Makera.round]
    split <;> exact SameFiles.refl filename r
  | frame cmdType recvBuff stored =>
    simp only [Makera.round]
    split
    · exact SameFiles.refl filename r
    split
    · split
      · exact sameFiles_writeMd5 filename r _ _
      · exact SameFiles.refl filename r
    · split <;> exact SameFiles.refl filename r
    · split
      · unfold Makera.dataFrame
        have hdata := sameFiles_writeData filename r
        simp only
        split
        · exact SameFiles.refl filename r
        split
        · exact hdata _ _
        split <;> exact (hdata _ _).filesize filename _
      · exact SameFiles.refl filename r

end

/-- The rounds of a session: what holds of the files, the protocol and the inputs still to come is kept
by a round that goes on, and gives what holds at each of the ends. -/
theorem rounds_rule {σ ι : Type} {step : Receiving → σ → ι → Receiving × σ × Turn}
    {inv : Receiving → σ → List ι → Prop} {runs failed : Receiving → Prop}
    {done : σ → Receiving → Prop} {filename : FilePath} (success : σ → Receiving → UploadEnd × Card)
    (hnil : ∀ r s, inv r s [] → runs r)
    (hgoesOn : ∀ r s input inputs, inv r s (input :: inputs) → (step r s input).2.2 = .goesOn →
      inv (step r s input).1 (step r s input).2.1 inputs)
    (herror : ∀ r s input inputs, inv r s (input :: inputs) → (step r s input).2.2 = .uploadError →
      failed (step r s input).1)
    (hsuccess : ∀ r s input inputs, inv r s (input :: inputs) → (step r s input).2.2 = .uploadSuccess →
      done (step r s input).2.1 (step r s input).1)
    (r : Receiving) (s : σ) (inputs : List ι) (h : inv r s inputs) :
    (∃ r', runs r' ∧ rounds step success filename r s inputs = (.running, r'.card)) ∨
      (∃ r', failed r' ∧ rounds step success filename r s inputs = uploadError filename r') ∨
      ∃ s' r', done s' r' ∧ rounds step success filename r s inputs = success s' r' := by
  induction inputs generalizing r s with
  | nil => exact .inl ⟨r, hnil r s h, rfl⟩
  | cons input inputs ih =>
    have hnext := hgoesOn r s input inputs h
    have hfailed := herror r s input inputs h
    have hdone := hsuccess r s input inputs h
    rw [rounds]
    generalize step r s input = next at hnext hfailed hdone ⊢
    obtain ⟨r', s', turn⟩ := next
    cases turn with
    | goesOn => exact ih r' s' (hnext rfl)
    | uploadError => exact .inr (.inl ⟨r', hfailed rfl, rfl⟩)
    | uploadSuccess => exact .inr (.inr ⟨s', r', hdone rfl, rfl⟩)

/-- Where what holds lets every round go on or succeed, and inputs are left, the session succeeds. -/
theorem rounds_total {σ ι : Type} {step : Receiving → σ → ι → Receiving × σ × Turn}
    {inv : Receiving → σ → List ι → Prop} {done : Receiving → Prop} {filename : FilePath}
    (success : σ → Receiving → UploadEnd × Card) (hnil : ∀ r s, ¬ inv r s [])
    (hstep : ∀ r s input inputs, inv r s (input :: inputs) →
      ((step r s input).2.2 = .goesOn ∧ inv (step r s input).1 (step r s input).2.1 inputs) ∨
      ((step r s input).2.2 = .uploadSuccess ∧ done (step r s input).1))
    (r : Receiving) (s : σ) (inputs : List ι) (h : inv r s inputs) :
    ∃ s' r', done r' ∧ rounds step success filename r s inputs = success s' r' := by
  have hend := @rounds_rule σ ι step inv (fun _ => False) (fun _ => False) (fun _ r' => done r') filename
    success hnil ?_ ?_ ?_ r s inputs h
  · obtain ⟨_, hnever, -⟩ | ⟨_, hnever, -⟩ | hend := hend
    · exact hnever.elim
    · exact hnever.elim
    · exact hend
  · intro r s input inputs h hgoes
    obtain ⟨-, hnext⟩ | ⟨hsuccess, -⟩ := hstep r s input inputs h
    · exact hnext
    · exact Turn.noConfusion (hgoes.symm.trans hsuccess)
  · intro r s input inputs h herror
    obtain ⟨hgoes, -⟩ | ⟨hsuccess, -⟩ := hstep r s input inputs h
    · exact Turn.noConfusion (herror.symm.trans hgoes)
    · exact Turn.noConfusion (herror.symm.trans hsuccess)
  · intro r s input inputs h hsuccess
    obtain ⟨hgoes, -⟩ | ⟨-, hdone⟩ := hstep r s input inputs h
    · exact Turn.noConfusion (hsuccess.symm.trans hgoes)
    · exact hdone

/-- A run ends where a round ends it, or goes on, with the files it opened. -/
theorem rounds_cases {σ ι : Type} {step : Receiving → σ → ι → Receiving × σ × Turn}
    {filename : FilePath} (hstep : ∀ r s input, SameFiles filename r (step r s input).1)
    (success : σ → Receiving → UploadEnd × Card) (inputs : List ι) (r : Receiving) (s : σ) :
    (∃ r', SameFiles filename r r' ∧ rounds step success filename r s inputs = (.running, r'.card)) ∨
      (∃ r', SameFiles filename r r' ∧
        rounds step success filename r s inputs = uploadError filename r') ∨
      ∃ s' r', SameFiles filename r r' ∧ rounds step success filename r s inputs = success s' r' :=
  @rounds_rule σ ι step (fun r' _ _ => SameFiles filename r r') _ _ _ filename success (fun _ _ h => h)
    (fun _ _ _ _ h _ => h.trans (hstep ..)) (fun _ _ _ _ h _ => h.trans (hstep ..))
    (fun _ _ _ _ h _ => h.trans (hstep ..)) r s inputs (SameFiles.refl filename r)

/-! ## The two ends -/

theorem written_remove_if (card : Card) (b : Bool) (path other : FilePath) :
    (if b then card.remove path else card).written other = true ↔
      card.written other = true ∧ ¬ (b = true ∧ other = path) := by
  cases b with
  | false => simp
  | true =>
    by_cases heq : other = path
    · simp [heq, Card.remove]
    · simp [heq, Card.remove]

/-- Where only the target and the MD5 have been written, both are removed. -/
theorem uploadError_clean {filename : FilePath} {r : Receiving}
    (h : ∀ path, r.card.written path = true →
      (r.fdOpen = true ∧ path = filename) ∨ (r.md5Open = true ∧ path = md5Filename filename))
    (path : FilePath) : ¬ (uploadError filename r).2.LeftBehind path := by
  rintro ⟨-, hwritten⟩
  obtain ⟨hwritten, hmd5⟩ := (written_remove_if _ _ _ _).mp hwritten
  obtain ⟨hwritten, hfd⟩ := (written_remove_if _ _ _ _).mp hwritten
  exact (h path hwritten).elim hfd hmd5

theorem leftBehind_remove_if {card : Card} {path other : FilePath} (h : card.LeftBehind path)
    (b : Bool) (hne : path ≠ other) : (if b then card.remove other else card).LeftBehind path := by
  cases b with
  | false => exact h
  | true => exact h.remove hne

/-- A file that is neither the target nor the MD5 stays. -/
theorem uploadError_leftBehind {filename : FilePath} {r : Receiving} {path : FilePath}
    (h : r.card.LeftBehind path) (htarget : path ≠ filename) (hmd5 : path ≠ md5Filename filename) :
    (uploadError filename r).2.LeftBehind path :=
  leftBehind_remove_if (leftBehind_remove_if h _ htarget) _ hmd5

theorem decompress_leftBehind (storage : Storage) (smoothie : Bool) {card : Card} {path : FilePath}
    (h : card.LeftBehind path) (xbuff : List UInt8) (source target : FilePath) (size : UInt32) :
    (decompress storage smoothie xbuff card source target size).2.LeftBehind path := by
  have hmade : (if storage.canOpen target then card.create target else card).LeftBehind path := by
    split
    · exact h.create target
    · exact h
  simp only [decompress]
  split
  · exact hmade
  · split
    · exact hmade
    · split
      · exact hmade.append _ _
      · exact hmade

/-- Without a compressed file the upload is done. -/
theorem uploadSuccess_plain (storage : Storage) (smoothie : Bool) {filename : FilePath}
    (hplain : isCompressed filename = false) (xbuff : List UInt8) (r : Receiving) :
    (uploadSuccess storage smoothie filename xbuff r).1 = .success := by
  simp [uploadSuccess, hplain]

theorem uploadSuccess_leftBehind (storage : Storage) (smoothie : Bool) {filename : FilePath}
    {r : Receiving} {path : FilePath} (h : r.card.LeftBehind path) (htarget : path ≠ filename)
    (hmd5 : path ≠ md5Filename filename) (xbuff : List UInt8) :
    (uploadSuccess storage smoothie filename xbuff r).2.LeftBehind path := by
  simp only [uploadSuccess]
  split
  · have hkept := decompress_leftBehind storage smoothie h xbuff (lzFilename filename)
      (desFilename filename) r.filesize
    split
    · rename_i heq
      rwa [heq] at hkept
    · rename_i heq
      rw [heq] at hkept
      exact uploadError_leftBehind hkept htarget hmd5
    · rename_i heq
      rwa [heq] at hkept
  · exact h

/-! ## The command -/

/-- The paths an upload of `filename` may write: the target, the compressed copy, the decompressed
target and the MD5. -/
def uploadPaths (filename : FilePath) : List FilePath :=
  [filename, lzFilename filename, desFilename filename, md5Filename filename]

variable {storage : Storage} {card : Card} {filename : FilePath}

theorem written_create_if (card : Card) (b : Bool) (path other : FilePath) :
    (if b then card.create path else card).written other = true ↔
      card.written other = true ∨ (b = true ∧ other = path) := by
  cases b with
  | false => simp
  | true =>
    by_cases heq : other = path
    · simp [heq, Card.create]
    · simp [heq, Card.create]

theorem openFiles_written (hcard : ∀ path, card.written path = false) (needsMd5 : Bool)
    {path : FilePath} (h : (openFiles storage card filename needsMd5).card.written path = true) :
    ((openFiles storage card filename needsMd5).fdOpen = true ∧ path = dataPath filename) ∨
    ((openFiles storage card filename needsMd5).md5Open = true ∧ path = md5Filename filename) := by
  obtain h | h := (written_create_if _ _ _ _).mp h
  · obtain h | h := (written_create_if _ _ _ _).mp h
    · simp [hcard] at h
    · exact .inl h
  · exact .inr h

theorem openFiles_leftBehind (needsMd5 : Bool) (hopen : storage.canOpen (dataPath filename) = true) :
    (openFiles storage card filename needsMd5).card.LeftBehind (dataPath filename) := by
  simp only [openFiles, hopen, if_true]
  split
  · exact (Card.leftBehind_create _ _).create _
  · exact Card.leftBehind_create _ _

/-- However an upload ends, it ends with the files it opened. -/
theorem uploadCommand_cases (session : Session) :
    let r := openFiles storage card filename (session.needsMd5 filename)
    ∃ r' smoothie xbuff, SameFiles filename r r' ∧
      (uploadCommand storage card filename session = (.running, r'.card) ∨
        uploadCommand storage card filename session = uploadError filename r' ∨
        (r.fdOpen = true ∧ uploadCommand storage card filename session
          = uploadSuccess storage smoothie filename xbuff r')) := by
  intro r
  simp only [uploadCommand]
  by_cases hopen : (!r.fdOpen || (session.needsMd5 filename && !r.md5Open)) = true
  · rw [if_pos hopen]
    exact ⟨r, true, [], SameFiles.refl filename r, .inr (.inl rfl)⟩
  rw [if_neg hopen]
  have hfd : r.fdOpen = true := by
    by_contra hfd
    simp [hfd] at hopen
  -- Both protocols end in the same ways, by the rule for rounds.
  cases session with
  | smoothie inputs =>
    obtain ⟨r', hsame, hend⟩ | ⟨r', hsame, hend⟩ | ⟨x, r', hsame, hend⟩ := rounds_cases
      (sameFiles_xmodem filename) (fun x => uploadSuccess storage true filename x.xbuff) inputs r _
    · exact ⟨r', true, [], hsame, .inl hend⟩
    · exact ⟨r', true, [], hsame, .inr (.inl hend)⟩
    · exact ⟨r', true, x.xbuff, hsame, .inr (.inr ⟨hfd, hend⟩)⟩
  | makera inputs =>
    obtain ⟨r', hsame, hend⟩ | ⟨r', hsame, hend⟩ | ⟨_, r', hsame, hend⟩ := rounds_cases
      (sameFiles_makera filename) (fun _ => uploadSuccess storage false filename storage.xbuff) inputs r _
    · exact ⟨r', false, [], hsame, .inl hend⟩
    · exact ⟨r', false, [], hsame, .inr (.inl hend)⟩
    · exact ⟨r', false, storage.xbuff, hsame, .inr (.inr ⟨hfd, hend⟩)⟩

theorem plain_leaves_nothing (hcard : ∀ path, card.written path = false) (session : Session)
    (hend : (uploadCommand storage card filename session).1 = .error)
    (hplain : isCompressed filename = false ∨ storage.canOpen (dataPath filename) = false)
    (path : FilePath) : ¬ (uploadCommand storage card filename session).2.LeftBehind path := by
  obtain ⟨r', smoothie, xbuff, hsame, hrun | herror | ⟨hfd, hsuccess⟩⟩ :=
    @uploadCommand_cases storage card filename session
  · simp [hrun] at hend
  · rw [herror]
    refine uploadError_clean (fun other hother => ?_) path
    rw [hsame.written] at hother
    rw [hsame.fdOpen, hsame.md5Open]
    refine (openFiles_written hcard _ hother).imp_left fun hdata => ⟨hdata.1, ?_⟩
    obtain hplain | hplain := hplain
    · rw [hdata.2, dataPath, if_neg (by simp [hplain])]
    · exact absurd hdata.1 (by simp [openFiles, hplain])
  · obtain hplain | hplain := hplain
    · rw [hsuccess, uploadSuccess_plain storage smoothie hplain] at hend
      exact absurd hend (by decide)
    · exact absurd hfd (by simp [openFiles, hplain])

theorem compressed_leaves_copy (session : Session)
    (hend : (uploadCommand storage card filename session).1 = .error)
    (hlz : isCompressed filename = true) (hopen : storage.canOpen (dataPath filename) = true) :
    (uploadCommand storage card filename session).2.LeftBehind (lzFilename filename) := by
  have hdata : dataPath filename = lzFilename filename := if_pos hlz
  have hlast : (lzFilename filename).getLast? ≠ some '/' := by
    rw [hdata] at hopen
    simp only [Storage.canOpen, Bool.and_eq_true, bne_iff_ne] at hopen
    exact hopen.1
  have htarget := lzFilename_ne_filename hlast
  have hmd5 := lzFilename_ne_md5Filename hlast
  obtain ⟨r', smoothie, xbuff, hsame, hrun | herror | ⟨-, hsuccess⟩⟩ :=
    @uploadCommand_cases storage card filename session
  · simp [hrun] at hend
  all_goals
    have hkept := hsame.leftBehind _ (openFiles_leftBehind _ hopen)
    rw [hdata] at hkept
  · rw [herror]
    exact uploadError_leftBehind hkept htarget hmd5
  · rw [hsuccess]
    exact uploadSuccess_leftBehind storage smoothie hkept htarget hmd5 xbuff

/-- An upload that ends through `upload_error` leaves none of its files behind exactly if it is not
of a compressed file, or could not open that file. -/
theorem failed_upload_clean_iff (hcard : ∀ path, card.written path = false) (session : Session)
    (hend : (uploadCommand storage card filename session).1 = .error) :
    (∀ path ∈ uploadPaths filename,
      ¬ (uploadCommand storage card filename session).2.LeftBehind path) ↔
    (isCompressed filename = false ∨ storage.canOpen (dataPath filename) = false) := by
  constructor
  · intro hclean
    by_contra hbad
    simp only [not_or, Bool.not_eq_false] at hbad
    exact hclean (lzFilename filename) (by simp [uploadPaths])
      (compressed_leaves_copy session hend hbad.1 hbad.2)
  · exact fun hplain path _ => plain_leaves_nothing hcard session hend hplain path

/-! ## A cancelled upload -/

/-- A card that lets every file be opened and takes every write; nothing decompresses. -/
def openCard : Storage :=
  { opens := fun _ => true, blocks := ⟨fun _ n => n, fun _ n => n, fun _ => []⟩ }

def emptyCard : Card := { content := fun _ => none }

/-- The controller cancels with its first frame. -/
def cancelled : Session := .makera [.frame 0xB5 [] none]

def plainName : FilePath := ['/', 's', 'd', '/', 'g', 'c', 'o', 'd', 'e', 's', '/', 'a']

theorem failed_upload_clean_iff_plain :
    (uploadCommand openCard emptyCard plainName cancelled).1 = .error ∧
    ∀ path ∈ uploadPaths plainName,
      ¬ (uploadCommand openCard emptyCard plainName cancelled).2.LeftBehind path :=
  ⟨rfl, (failed_upload_clean_iff (fun _ => rfl) cancelled rfl).mpr (.inl rfl)⟩

/-- Cancelling the upload of `a.lz` leaves the copy in the `.lz` folder. -/
theorem cancelled_lz_left_behind :
    (uploadCommand openCard emptyCard (plainName ++ lzSuffix) cancelled).1 = .error ∧
    ¬ ∀ path ∈ uploadPaths (plainName ++ lzSuffix),
      ¬ (uploadCommand openCard emptyCard (plainName ++ lzSuffix) cancelled).2.LeftBehind path := by
  refine ⟨rfl, fun hclean => ?_⟩
  have hlz : lzFilename (plainName ++ lzSuffix) = lzFolder ++ ['a'] := rfl
  refine hclean (lzFolder ++ ['a']) (by simp [uploadPaths, hlz]) ⟨?_, ?_⟩
  · rfl
  · rfl

end CarveraFirmware.Transfers
