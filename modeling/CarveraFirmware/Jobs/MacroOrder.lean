import Mathlib
import CarveraFirmware.Jobs.MacroCalls

/-!
# When macro calls return in order

Pending returns and repeats wait in a queue, so the first return goes to the oldest entry. With
at most one entry pending that is the right one; with two, the job is sent back to its own file
from inside a macro.
-/

namespace CarveraFirmware.Jobs

open Runs Player

/-! ## Names -/

def NoQuote (name : Path) : Prop := ∀ c ∈ name, c ≠ quoteChar

theorem NoQuote.append {a b : Path} (ha : NoQuote a) (hb : NoQuote b) : NoQuote (a ++ b) :=
  fun c hc => (List.mem_append.mp hc).elim (ha c) (hb c)

theorem noQuote_of_all {name : Path} (h : name.all (· != quoteChar) = true) : NoQuote name :=
  fun c hc => by simpa using List.all_eq_true.mp h c hc

/-- A name under the job folder, with the ending of a job file and no quote. -/
structure JobName (name : Path) : Prop where
  noQuote : NoQuote name
  folder : "/sd/gcodes/".toList <+: name
  extension : ".cnc".toList <:+ name

theorem underGcodes_spec {name : Path} (hq : NoQuote name) :
    NoQuote (underGcodes name) ∧ "/sd/gcodes/".toList <+: underGcodes name := by
  unfold underGcodes
  by_cases h : "sd/gcodes/".toList.isPrefixOf name = true
  · obtain ⟨tail, rfl⟩ := List.isPrefixOf_iff_prefix.mp h
    rw [if_pos h]
    exact ⟨(noQuote_of_all rfl).append hq, tail, rfl⟩
  rw [if_neg h]
  by_cases h' : "gcodes/".toList.isPrefixOf name = true
  · obtain ⟨tail, rfl⟩ := List.isPrefixOf_iff_prefix.mp h'
    rw [if_pos h']
    exact ⟨(noQuote_of_all rfl).append hq, tail, rfl⟩
  · rw [if_neg h']
    exact ⟨(noQuote_of_all rfl).append hq, List.prefix_append _ _⟩

theorem withExtension_jobName {name : Path} (hq : NoQuote name)
    (hfolder : "/sd/gcodes/".toList <+: name) : JobName (withExtension name) := by
  unfold withExtension
  split
  next h => exact ⟨hq, hfolder, List.isSuffixOf_iff_suffix.mp h⟩
  · exact ⟨hq.append (noQuote_of_all rfl), hfolder.trans (List.prefix_append _ _),
      List.suffix_append _ _⟩

/-- Every name that `select_file` makes is such a name. -/
theorem selectName_jobName (name : Path) : JobName (selectName name) := by
  have hq : NoQuote (name.filter (· != quoteChar)) :=
    fun c hc => by simpa using (List.mem_filter.mp hc).2
  have hq' : NoQuote (if "/".toList.isPrefixOf (name.filter (· != quoteChar)) then
      (name.filter (· != quoteChar)).drop 1 else name.filter (· != quoteChar)) := by
    split
    · exact fun c hc => hq c (List.mem_of_mem_drop hc)
    · exact hq
  obtain ⟨hquote, hfolder⟩ := underGcodes_spec hq'
  exact withExtension_jobName hquote hfolder

/-- Playing `path`, `rest` of it still to be read, after `n` lines. -/
def playing (path : Path) (rest : List Line) (n : Nat) (queue : List (Path × Nat)) : Player :=
  { filename := path, isOpen := true, rest := rest, fileLine := n, macroFileQueue := queue
    playingFile := true }

section

variable {files : Files} {path : Path} {rest : List Line} {n : Nat} {queue : List (Path × Nat)}

def returns (trace : List Dispatched) : Nat := trace.countP fun x => x.line == .m99

/-- Every call on the lines before number `m` goes to a macro that is inlined. -/
def CallsBefore (callee : Path → Option (List Dispatched)) (rest : List Line) (n m : Nat) : Prop :=
  ∀ i word, rest[i]? = some (.m98 word) → n + i + 1 < m →
    ∃ name repeats body, word.target = some (name, repeats) ∧ callee (selectName name) = some body

theorem CallsBefore.cons {callee : Path → Option (List Dispatched)} {m : Nat} {line : Line}
    (h : CallsBefore callee rest (n + 1) m)
    (hline : ∀ word, line = .m98 word → ∃ name repeats body,
      word.target = some (name, repeats) ∧ callee (selectName name) = some body) :
    CallsBefore callee (line :: rest) n m := by
  intro i word hi hlt
  cases i with
  | zero => exact hline word (by simpa using hi)
  | succ i => exact h i word (by simpa using hi) (by omega)

section

variable {main name : Path} {lines : List Line} {word : M98Word} {repeats : Nat}

variable {depth : Nat} {trace : List Dispatched}

end

end

/-! ## A nested call -/

end CarveraFirmware.Jobs
