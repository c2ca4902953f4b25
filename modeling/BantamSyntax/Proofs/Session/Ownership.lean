import BantamSyntax.Proofs.Session.Ledgers

/-!
# Ownership

Who closes what a session reads. A source is closed through its own handle or through that of the
scanner that was made with it, if it owns what it reads; and what a parse opens is closed after it.
-/
namespace BantamSyntax

open Session

/-! ## what becomes of a source -/

namespace Ledger

variable {l : Ledger} {i : Nat} {owner : Option Nat} {c : Custody}

/-- The source `i` is in this custody, and `owner` is the scanner that owns it, if one does. -/
structure Tracks (l : Ledger) (i : Nat) (owner : Option Nat) (c : Custody) : Prop where
  source : l.sources[i]? = some c
  scanner : ∀ k, l.scanners[k]? = some (some i) ↔ owner = some k

/-- The handles through which a source is closed: its own, and that of the scanner that owns it. -/
def closers (i : Nat) (owner : Option Nat) : List Handle :=
  .source i :: (owner.map .scanner).toList

theorem any_closes_iff (i : Nat) (owner : Option Nat) (commands : List Command) :
    commands.any (·.closing?.any (· ∈ closers i owner)) = true ↔
      ∃ u ∈ commands, u.closing? = some (.source i) ∨
        ∃ k, owner = some k ∧ u.closing? = some (.scanner k) := by
  simp only [List.any_eq_true, Option.any_eq_true, closers, decide_eq_true_eq, List.mem_cons,
    Option.mem_toList, Option.map_eq_some_iff]
  refine exists_congr fun u => and_congr_right fun _ => ⟨?_, ?_⟩
  · rintro ⟨h, closing, rfl | ⟨k, owned, rfl⟩⟩
    · exact .inl closing
    · exact .inr ⟨k, owned, closing⟩
  · rintro (closing | ⟨k, owned, closing⟩)
    · exact ⟨_, closing, .inl rfl⟩
    · exact ⟨_, closing, .inr ⟨k, owned, rfl⟩⟩

theorem Tracks.target?_eq (t : l.Tracks i owner c) (h : Handle) :
    l.target? h = some i ↔ h ∈ closers i owner := by
  cases h with
  | source j => simp [target?, closers]
  | scanner k => simp [target?, closers, Option.join_eq_some_iff, t.scanner]

theorem Tracks.close (t : l.Tracks i owner c) (h : Handle) :
    (l.close h).Tracks i owner (if h ∈ closers i owner then c.close else c) := by
  have closes := t.target?_eq h
  unfold Ledger.close
  cases target : l.target? h with
  | none =>
    have other : h ∉ closers i owner := by simp [← closes, target]
    rw [if_neg other]
    exact t
  | some j =>
    refine ⟨?_, t.scanner⟩
    by_cases here : j = i
    · have closed : h ∈ closers i owner := by simp [← closes, target, here]
      simp [t.source, here, closed]
    · have other : h ∉ closers i owner := by simp [← closes, target, here]
      simp [t.source, here, other]

theorem Tracks.add (t : l.Tracks i owner c) (d : Custody) :
    Tracks { l with sources := l.sources ++ [d] } i owner c := by
  have inside := (List.getElem?_eq_some_iff.1 t.source).1
  exact ⟨(List.getElem?_append_left inside).trans t.source, t.scanner⟩

/-- A further scanner does not own the source. -/
theorem Tracks.addScanner (t : l.Tracks i owner c) {owned : Option Nat} (other : owned ≠ some i) :
    Tracks { l with scanners := l.scanners ++ [owned] } i owner c := by
  refine ⟨t.source, fun k => ?_⟩
  rw [← t.scanner k, List.getElem?_append]
  split
  · rfl
  · rename_i outside
    rw [List.getElem?_eq_none (Nat.not_lt.1 outside)]
    rw [List.getElem?_singleton]
    split <;> simp [other]

/-- One command closes the source or leaves it as it is. -/
theorem Tracks.change (t : l.Tracks i owner c) (u : Command) :
    (u.change l).Tracks i owner
      (if u.closing?.any (· ∈ closers i owner) then c.close else c) := by
  have inside := (List.getElem?_eq_some_iff.1 t.source).1
  cases u with
  | source _ supply | parse supply =>
    rw [Command.change]
    split
    · exact t.add _
    · exact t
  | scanner _ supply =>
    rw [Command.change]
    split
    · exact (t.add _).addScanner (by simpa using Nat.ne_of_gt inside)
    · exact t
  | share => exact t.addScanner (by simp)
  | close h | leave h => simpa [Command.closing?, Command.change] using t.close h
  | _ => exact t

theorem Tracks.foldl (t : l.Tracks i owner c) (commands : List Command) :
    (commands.foldl Command.change l).Tracks i owner
      (if commands.any (·.closing?.any (· ∈ closers i owner)) then c.close else c) := by
  induction commands generalizing l c with
  | nil => exact t
  | cons u commands ih =>
    have again : c.close.close = c.close := by simp [Custody.close]
    have rest := ih (t.change u)
    rw [List.foldl_cons, List.any_cons]
    cases closing : u.closing?.any (· ∈ closers i owner) with
    | true => simpa [closing, again] using rest
    | false => simpa [closing] using rest

/-! ## where sources come from -/

/-- No scanner owns a source that is not there yet. -/
def Sound (l : Ledger) : Prop :=
  ∀ (k : Nat) (i : Nat), l.scanners[k]? = some (some i) → i < l.sources.length

theorem Sound.add (h : l.Sound) (c : Custody) : Sound { l with sources := l.sources ++ [c] } :=
  fun k i owned => by
    rw [List.length_append]
    exact Nat.lt_add_right _ (h k i owned)

theorem Sound.addScanner (h : l.Sound) {owned : Option Nat}
    (there : ∀ i ∈ owned, i < l.sources.length) :
    Sound { l with scanners := l.scanners ++ [owned] } := by
  intro k i found
  rw [List.getElem?_append] at found
  split at found
  · exact h k i found
  · rw [List.getElem?_singleton] at found
    split at found
    · exact there i (Option.some.inj found)
    · cases found

theorem Sound.close (h : l.Sound) (handle : Handle) : (l.close handle).Sound := by
  unfold Ledger.close
  split
  · exact fun k i owned => by simpa using h k i owned
  · exact h

theorem Sound.change (h : l.Sound) (u : Command) : (u.change l).Sound := by
  cases u with
  | source _ supply | parse supply =>
    rw [Command.change]
    split
    · exact h.add _
    · exact h
  | scanner _ supply =>
    rw [Command.change]
    split
    · exact (h.add _).addScanner (by simp)
    · exact h
  | share => exact h.addScanner (by simp)
  | close handle | leave handle => exact h.close handle
  | _ => exact h

theorem Sound.foldl (h : l.Sound) (commands : List Command) :
    (commands.foldl Command.change l).Sound := by
  induction commands generalizing l with
  | nil => exact h
  | cons u commands ih => exact ih (h.change u)

theorem Sound.new_unowned (h : l.Sound) (k : Nat) : l.scanners[k]? ≠ some (some l.sources.length) :=
  fun owned => Nat.lt_irrefl _ (h k _ owned)

theorem files_change (l : Ledger) (u : Command) : (u.change l).files = l.files := by
  cases u with
  | source _ supply | scanner _ supply | parse supply =>
    rw [Command.change]
    split <;> rfl
  | close h | leave h =>
    change (l.close h).files = l.files
    unfold Ledger.close
    split <;> rfl
  | _ => rfl

theorem files_foldl (commands : List Command) (l : Ledger) :
    (commands.foldl Command.change l).files = l.files := by
  induction commands generalizing l with
  | nil => rfl
  | cons u commands ih => exact (ih _).trans (files_change l u)

end Ledger

namespace Session.Command

/-- The scanner that the command makes, if it is to be under `k`, with a source of its own. -/
def owner? (k : Nat) : Command → Option Nat
  | scanner .. => some k
  | _ => none

def isParse : Command → Bool
  | parse _ => true
  | _ => false

variable {l : Ledger} {u : Command} {supply : Supply}

/-- A command that makes a source puts it after those that are there. -/
theorem change_makes (sound : l.Sound) {c : Source} (makes : u.supply? = some supply)
    (found : supply.origin.find l.files = .ok c) :
    (u.change l).Tracks l.sources.length (u.owner? l.scanners.length)
      ⟨supply.isPath, u.isParse && supply.isPath⟩ := by
  have custody := Supply.custody_of_find found
  cases u with
  | source id given =>
    cases makes
    rw [change, found]
    exact ⟨by simp [custody, isParse], fun k => by simpa [owner?] using sound.new_unowned k⟩
  | parse given =>
    cases makes
    rw [change, found]
    exact ⟨by simp [custody, isParse, Custody.close],
      fun k => by simpa [owner?] using sound.new_unowned k⟩
  | scanner id given =>
    cases makes
    rw [change, found]
    refine ⟨by simp [custody, isParse], fun k => ?_⟩
    rcases Nat.lt_trichotomy k l.scanners.length with before | rfl | behind
    · simp [owner?, List.getElem?_append_left before, sound.new_unowned k, Nat.ne_of_gt before]
    · simp [owner?]
    · have outside : (l.scanners ++ [some l.sources.length]).length ≤ k := by
        simpa using Nat.succ_le_of_lt behind
      simp [owner?, List.getElem?_eq_none outside, Nat.ne_of_lt behind]
  | _ => cases makes

/-- Each source that a command adds is one that it makes. -/
theorem length_change (l : Ledger) (u : Command) :
    (u.change l).sources.length = l.sources.length ∨
      (u.change l).sources.length = l.sources.length + 1 ∧
        ∃ supply c, u.supply? = some supply ∧ supply.origin.find l.files = .ok c := by
  cases u with
  | source _ supply | scanner _ supply | parse supply =>
    rw [change]
    split
    · exact .inr ⟨by simp, supply, _, rfl, ‹_›⟩
    · exact .inl rfl
  | close h | leave h =>
    left
    change (l.close h).sources.length = _
    unfold Ledger.close
    split <;> simp
  | _ => exact .inl rfl

theorem exists_making (commands : List Command) (l : Ledger) {i : Nat}
    (new : l.sources.length ≤ i) (there : i < (commands.foldl change l).sources.length) :
    ∃ before u after, commands = before ++ u :: after ∧
      (before.foldl change l).sources.length = i ∧
      ∃ supply c, u.supply? = some supply ∧ supply.origin.find l.files = .ok c := by
  induction commands generalizing l with
  | nil => exact absurd there (Nat.not_lt.2 new)
  | cons u commands ih =>
    rcases Nat.lt_or_ge i (u.change l).sources.length with added | later
    · rcases length_change l u with same | ⟨longer, makes⟩
      · omega
      · exact ⟨[], u, commands, rfl, (by simpa using (by omega : l.sources.length = i)), makes⟩
    · obtain ⟨before, v, after, rfl, length, makes⟩ := ih (u.change l) later there
      rw [Ledger.files_change] at makes
      exact ⟨u :: before, v, after, rfl, length, makes⟩

end Session.Command

namespace Session

open Command

theorem length_ledger (s : Session) : s.ledger.sources.length = s.sources.length :=
  List.length_map _

theorem length_scanners (s : Session) : s.ledger.scanners.length = s.scanners.length :=
  List.length_map _

theorem ledger_sound (files : Files) (commands : List Command) :
    (commands.foldl perform { files }).ledger.Sound := by
  rw [ledger_foldl]
  exact Ledger.Sound.foldl (fun k i owned => by cases owned) commands

theorem files_perform (files : Files) (commands : List Command) :
    (commands.foldl perform { files }).files = files := by
  have same := Ledger.files_foldl commands (ledger { files })
  rwa [← ledger_foldl] at same

/-- What becomes of a source from when it is made. -/
theorem tracks_made {t : Session} {u : Command} {supply : Supply} {c : Source}
    (sound : t.ledger.Sound) (makes : u.supply? = some supply)
    (found : supply.origin.find t.files = .ok c) (after : List Command) :
    let made : Custody := ⟨supply.isPath, u.isParse && supply.isPath⟩
    ((u :: after).foldl perform t).ledger.Tracks t.sources.length (u.owner? t.scanners.length)
      (if after.any (·.closing?.any (· ∈ Ledger.closers t.sources.length
        (u.owner? t.scanners.length))) then made.close else made) := by
  intro made
  have tracked := (change_makes sound makes found).foldl after
  rwa [length_ledger, length_scanners, ← ledger_perform, ← ledger_foldl] at tracked

/-- Whatever is done in a session, each source is made by one of the commands. If it was made from a
stream it is never closed. If it was made from a file by a parse it is closed from then on. Any
other is closed just if its own handle has been closed or left since, or that of the scanner that
was made with it. -/
theorem closed_by_owners (files : Files) (commands : List Command) :
    let s := commands.foldl perform { files }
    (∀ i < s.sources.length, ∃ before u after, commands = before ++ u :: after ∧
      (before.foldl perform { files }).sources.length = i ∧
      ∃ supply c, u.supply? = some supply ∧ supply.origin.find files = .ok c) ∧
    ∀ before u after supply c, commands = before ++ u :: after → u.supply? = some supply →
      supply.origin.find files = .ok c →
      let t := before.foldl perform { files }
      ∃ d, s.sources[t.sources.length]? = some d ∧
        (d.closed = true ↔ supply.isPath = true ∧ (u.isParse = true ∨
          ∃ v ∈ after, v.closing? = some (.source t.sources.length) ∨
            ∃ k, u.owner? t.scanners.length = some k ∧ v.closing? = some (.scanner k))) := by
  intro s
  refine ⟨fun i there => ?_, ?_⟩
  · rw [← length_ledger, ledger_foldl] at there
    obtain ⟨before, u, after, split, length, makes⟩ :=
      exists_making commands _ (Nat.zero_le i) there
    rw [← ledger_foldl, length_ledger] at length
    exact ⟨before, u, after, split, length, makes⟩
  · rintro before u after supply c split makes found t
    have known : supply.origin.find t.files = .ok c := by rwa [files_perform]
    obtain ⟨source, -⟩ := tracks_made (ledger_sound files before) makes known after
    rw [← List.foldl_append, ← split] at source
    obtain ⟨d, there, custody⟩ := Option.map_eq_some_iff.1 (List.getElem?_map.symm.trans source)
    refine ⟨d, there, ?_⟩
    rw [show d.closed = d.custody.closed from rfl, custody, ← Ledger.any_closes_iff]
    cases after.any (·.closing?.any (· ∈ Ledger.closers t.sources.length
      (u.owner? t.scanners.length))) <;> simp [Custody.close, and_comm]

/-- A scanner and a parse that are handed a source leave it open. -/
theorem open_after_shared_scanner :
    let files : Files := { find := fun _ => .ok [] }
    let commands : List Command :=
      [.source "a" (.path "f"), .share "b" 0, .close (.scanner 0), .parseShared 0]
    ∃ d, (commands.foldl perform { files }).sources[0]? = some d ∧ d.closed = false := by
  intro files commands
  obtain ⟨d, there, closed⟩ := (closed_by_owners files commands).2 [] (.source "a" (.path "f"))
    [.share "b" 0, .close (.scanner 0), .parseShared 0] (.path "f") _ rfl rfl rfl
  refine ⟨d, there, ?_⟩
  rw [← Bool.not_eq_true, closed]
  simp [isParse, owner?, closing?]

end Session
end BantamSyntax
