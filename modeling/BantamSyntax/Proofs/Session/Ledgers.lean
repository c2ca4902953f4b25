import BantamSyntax.Proofs.Scanning.Closing
import BantamSyntax.Proofs.Session.History

/-!
# Ledgers

The part of a session that tells who closes what: the custody of each source, and which source each
scanner owns. Reading leaves it as it is, so that of the commands of a session those that make or
close something move it on, in ways that do not depend on anything else.
-/
namespace BantamSyntax

variable {α : Type}

/-! ## what scanners keep -/

namespace Source

theorem custody_skip (n : Nat) (s : Source) : (s.skip n).custody = s.custody := by
  induction n generalizing s with
  | zero => rfl
  | succ n ih =>
    cases h : s.next with
    | ok c t => simpa only [skip, h] using (ih t).trans (keeping_next.ok h)
    | error cause t => simpa only [skip, h] using (ih t).trans (keeping_next.error h)

end Source

namespace Scanner

theorem Passes.custody {s t : Scanner} {cs : List Char} (h : s.Passes cs t) :
    t.source.custody = s.source.custody := by
  obtain ⟨n, left, -⟩ := h.calls
  rw [left, Source.custody_skip]

theorem Proceeds.custody {x : ScannerM α} (h : Proceeds x) (s : Scanner) :
    (stateOf (x s)).source.custody = s.source.custody := by
  cases hx : x s with
  | ok a t =>
    obtain ⟨cs, passes⟩ := h.ok hx
    exact passes.custody
  | error cause t =>
    obtain ⟨cs, passes⟩ := (h.error hx).passes
    exact passes.custody

theorem proceeds_skipBlanks : Proceeds skipBlanks :=
  proceeds_collectWhile.bind fun _ => proceeds_pure _

theorem custody_after (n : Nat) (s : Scanner) : (s.after n).source.custody = s.source.custody := by
  obtain ⟨takes, passes, -⟩ := requests_take n s
  exact passes.custody

end Scanner

/-! ## ledgers -/

/-- The source that a scanner owns. -/
def SharedScanner.owned? (c : SharedScanner) : Option Nat :=
  if c.owns then some c.source else none

/-- What of a session has a part in who closes what: the files that can be opened, the custody of
each source, and which source each scanner owns. -/
structure Ledger where
  files : Files
  sources : List Custody := []
  scanners : List (Option Nat) := []

namespace Ledger

/-- The source that a handle closes. -/
def target? (l : Ledger) : Handle → Option Nat
  | .source i => some i
  | .scanner k => l.scanners[k]?.join

def close (l : Ledger) (h : Handle) : Ledger :=
  match l.target? h with
  | some i => { l with sources := l.sources.modify i Custody.close }
  | none => l

end Ledger

namespace Session

variable {s t : Session} {i k : Nat}

def ledger (s : Session) : Ledger where
  files := s.files
  sources := s.sources.map Source.custody
  scanners := s.scanners.map SharedScanner.owned?

theorem source_eq (i : Nat) (s : Session) : source i s = match s.sources[i]? with
    | some c => .ok c s
    | none => .error (.unknown "") s := by
  refine (bind_of_ok (rfl : (get : SessionM Session) s = .ok s s)).trans ?_
  cases s.sources[i]? <;> rfl

theorem shared_eq (k : Nat) (s : Session) : shared k s = match s.scanners[k]? with
    | some c => .ok c s
    | none => .error (.unknown "") s := by
  refine (bind_of_ok (rfl : (get : SessionM Session) s = .ok s s)).trans ?_
  cases s.scanners[k]? <;> rfl

/-- A scanner is there with its source, or the session stays as it is. -/
theorem has_or_error (k : Nat) (s : Session) :
    (∃ c, s.Has k c) ∨ ∃ e, scanner k s = .error e s := by
  cases hk : s.scanners[k]? with
  | none => exact .inr ⟨_, bind_of_error (by rw [shared_eq, hk])⟩
  | some c =>
    have shared := shared_eq k s
    rw [hk] at shared
    cases hs : s.sources[c.source]? with
    | none => exact .inr ⟨_, (bind_of_ok shared).trans (bind_of_error (by rw [source_eq, hs]))⟩
    | some source => exact .inl ⟨⟨source, c.lookahead⟩, c, hk, hs, rfl⟩

/-! ## actions on what may be missing -/

section

variable {P : Session → Prop}

theorem stateOf_source {f : Source → SessionM α} (missing : s.sources[i]? = none → P s)
    (there : ∀ c, s.sources[i]? = some c → P (stateOf (f c s))) :
    P (stateOf ((source i >>= f) s)) := by
  have found := source_eq i s
  cases hi : s.sources[i]? with
  | none =>
    rw [hi] at found
    rw [bind_of_error found]
    exact missing hi
  | some c =>
    rw [hi] at found
    rw [bind_of_ok found]
    exact there c hi

theorem stateOf_shared {f : SharedScanner → SessionM α} (missing : s.scanners[k]? = none → P s)
    (there : ∀ c, s.scanners[k]? = some c → P (stateOf (f c s))) :
    P (stateOf ((shared k >>= f) s)) := by
  have found := shared_eq k s
  cases hk : s.scanners[k]? with
  | none =>
    rw [hk] at found
    rw [bind_of_error found]
    exact missing hk
  | some c =>
    rw [hk] at found
    rw [bind_of_ok found]
    exact there c hk

theorem stateOf_scanner {f : Scanner → SessionM α} (missing : P s)
    (there : ∀ c, s.Has k c → P (stateOf (f c s))) : P (stateOf ((scanner k >>= f) s)) := by
  rcases has_or_error k s with ⟨c, has⟩ | ⟨e, failed⟩
  · rw [bind_of_ok (scanner_eq has)]
    exact there c has
  · rw [bind_of_error failed]
    exact missing

end

theorem map_set_eq_modify {α β : Type} {f : α → β} {g : β → β} {xs : List α} {i : Nat} {a b : α}
    (found : xs[i]? = some a) (changed : f b = g (f a)) :
    (xs.set i b).map f = (xs.map f).modify i g := by
  obtain ⟨inside, rfl⟩ := List.getElem?_eq_some_iff.1 found
  refine List.ext_getElem (by simp) fun j _ _ => ?_
  rw [List.getElem_map, List.getElem_set, List.getElem_modify, List.getElem_map]
  split
  · rename_i here
    subst here
    exact changed
  · rfl

theorem map_set_of_same {α β : Type} {f : α → β} {xs : List α} {i : Nat} {a b : α}
    (found : xs[i]? = some a) (same : f b = f a) : (xs.set i b).map f = xs.map f :=
  (map_set_eq_modify (g := id) found same).trans (List.modify_id i _)

/-! ## what requests keep -/

/-- Whatever the action comes to, the ledger stays. -/
def Keeps (x : SessionM α) (s : Session) : Prop :=
  (stateOf (x s)).ledger = s.ledger

theorem Keeps.bind {β : Type} {x : SessionM α} {f : α → SessionM β} (hx : Keeps x s)
    (hf : ∀ a t, Keeps (f a) t) : Keeps (x >>= f) s :=
  stateOf_bind (R := fun s t : Session => t.ledger = s.ledger)
    (fun first rest => rest.trans first) hx hf

theorem keeps_pure (a : α) (s : Session) : Keeps (pure a) s := rfl

theorem keeps_failInput (cause : InputFailure) (s : Session) :
    Keeps (failInput cause : SessionM α) s := rfl

theorem keeps_setSource {c d : Source} (found : s.sources[i]? = some c)
    (same : d.custody = c.custody) : Keeps (setSource i d) s :=
  congrArg (Ledger.mk _ · _) (map_set_of_same found same)

theorem keeps_setScanner {c d : Scanner} (h : s.Has k c)
    (same : d.source.custody = c.source.custody) : Keeps (setScanner k d) s := by
  obtain ⟨shared, hk, hs, -⟩ := h.parts
  have sources : (s.sources.set shared.source d.source).map Source.custody =
    s.sources.map Source.custody := map_set_of_same hs same
  have scanners : (s.scanners.set k { shared with lookahead := d.lookahead }).map
    SharedScanner.owned? = s.scanners.map SharedScanner.owned? := map_set_of_same hk rfl
  rw [Keeps, setScanner_put hk d]
  exact congrArg₂ (Ledger.mk _) sources scanners

theorem keeps_onSource {x : SourceM α} (h : Source.Keeping x) (i : Nat) (s : Session) :
    Keeps (onSource i x) s := by
  apply stateOf_source (P := fun t => t.ledger = s.ledger) fun _ => rfl
  intro c found
  cases hx : x c with
  | ok a d => exact (keeps_setSource found (h.ok hx)).bind fun _ => keeps_pure a
  | error cause d => exact (keeps_setSource found (h.error hx)).bind fun _ => keeps_failInput cause

theorem keeps_onScanner {x : ScannerM α} (h : Scanner.Proceeds x) (k : Nat) (s : Session) :
    Keeps (onScanner k x) s := by
  apply stateOf_scanner (P := fun t => t.ledger = s.ledger) rfl
  intro c has
  have same := h.custody c
  cases hx : x c with
  | ok a d =>
    rw [hx] at same
    exact (keeps_setScanner has same).bind fun _ => keeps_pure a
  | error cause d =>
    rw [hx] at same
    exact (keeps_setScanner has same).bind fun _ => keeps_failInput cause

theorem keeps_report (k : Nat) (ls : List Lexeme) (s : Session) : Keeps (report k ls) s :=
  stateOf_scanner (P := fun t => t.ledger = s.ledger) rfl fun _ _ => rfl

theorem keeps_scan (k : Nat) (s : Session) : Keeps (scan k) s :=
  (keeps_onScanner Scanner.proceeds_scan k s).bind fun l t =>
    (keeps_report k [l] t).bind fun _ => keeps_pure l.token

theorem keeps_tokenize (k : Nat) (s : Session) : Keeps (tokenize k) s := by
  apply stateOf_scanner (P := fun t => t.ledger = s.ledger) rfl
  intro c has
  apply (keeps_setScanner has (c.custody_after _)).bind
  intro _ t
  apply (keeps_report k _ t).bind
  intro _ t
  split
  · exact keeps_failInput _ t
  · exact keeps_pure _ t

/-! ## parses -/

/-- A parse through a source leaves its custody as it was. -/
theorem parseThrough_custody (source : Source) (s : Session) :
    ∃ result rest diagnostics, rest.custody = source.custody ∧
      parseThrough source s = .ok (result, rest) { s with diagnostics } := by
  have gets : (get : SessionM Session) s = .ok s s := rfl
  rw [parseThrough, bind_of_ok gets]
  cases h : source.parse s.diagnostics with
  | ok r p => exact ⟨_, _, _, Scanner.custody_after p.taken (.ofSource source), rfl⟩
  | error cause p => exact ⟨_, _, _, Scanner.custody_after p.taken (.ofSource source), rfl⟩

theorem stateOf_finish (result : Except ParseFailure Program) (s : Session) :
    stateOf (finish result s) = s := by
  cases result <;> rfl

theorem ledger_parse (source : Source) (s : Session) :
    (stateOf (parse source s)).ledger =
      { s.ledger with sources := s.ledger.sources ++ [source.custody.close] } := by
  have add : addSource source s =
    .ok s.sources.length { s with sources := s.sources ++ [source] } := rfl
  obtain ⟨result, rest, diagnostics, same, through⟩ :=
    parseThrough_custody source { s with sources := s.sources ++ [source] }
  have closed : ((s.sources ++ [source]).set s.sources.length rest.close).map Source.custody =
      s.sources.map Source.custody ++ [source.custody.close] := by
    rw [← same]
    simp
    rfl
  rw [parse, bind_of_ok add, bind_of_ok through]
  refine (congrArg ledger (stateOf_finish result _)).trans ?_
  exact congrArg (Ledger.mk _ · _) closed

theorem keeps_parseShared (i : Nat) (s : Session) : Keeps (parseShared i) s := by
  apply stateOf_source (P := fun t => t.ledger = s.ledger) fun _ => rfl
  intro c found
  obtain ⟨result, rest, diagnostics, same, through⟩ := parseThrough_custody c s
  rw [bind_of_ok through]
  refine (congrArg ledger (stateOf_finish result _)).trans ?_
  exact congrArg (Ledger.mk _ · _) (map_set_of_same found same)

/-! ## closing -/

theorem ledger_close_of_missing {h : Handle}
    (missing : ∀ i, s.ledger.target? h = some i → s.sources[i]? = none) :
    s.ledger.close h = s.ledger := by
  unfold Ledger.close
  split
  · rename_i i target
    have outside : (s.sources.map Source.custody).length ≤ i := by
      simpa using missing i target
    exact congrArg (Ledger.mk _ · _) (List.modify_eq_self outside)
  · rfl

theorem ledger_close (h : Handle) (s : Session) :
    (stateOf (close h s)).ledger = s.ledger.close h := by
  have stays (missing : ∀ i, s.ledger.target? h = some i → s.sources[i]? = none) :
      s.ledger = s.ledger.close h := (ledger_close_of_missing missing).symm
  cases h with
  | source i =>
    apply stateOf_source (P := fun t => t.ledger = s.ledger.close (.source i))
    · intro missing
      apply stays
      rintro j ⟨⟩
      exact missing
    · intro c found
      exact congrArg (Ledger.mk _ · _) (map_set_eq_modify found rfl)
  | scanner k =>
    apply stateOf_shared (P := fun t => t.ledger = s.ledger.close (.scanner k))
    · intro missing
      simp [Ledger.close, Ledger.target?, ledger, missing]
    intro c shared
    have target : s.ledger.target? (.scanner k) = c.owned? := by
      simp [Ledger.target?, ledger, shared]
    apply stateOf_source (P := fun t => t.ledger = s.ledger.close (.scanner k))
    · intro missing
      apply stays
      intro j owned
      rw [target, SharedScanner.owned?] at owned
      split at owned
      · cases owned
        exact missing
      · cases owned
    · intro d found
      rw [Ledger.close, target, SharedScanner.owned?]
      cases c.owns with
      | true => exact congrArg (Ledger.mk _ · _) (map_set_eq_modify found rfl)
      | false => exact congrArg (Ledger.mk _ · _) (map_set_of_same found rfl)

/-! ## commands -/

/-- What a source is made from: a file that it opens itself, or a stream that it is given. -/
inductive Supply where
  | path (name : String)
  | stream (name : String) (reader : Reader)

namespace Supply

def origin : Supply → Origin
  | path name => .file name
  | stream name reader => .stream { name, reader }

def isPath : Supply → Bool
  | path _ => true
  | stream .. => false

/-- What is opened is owned, what is given is not, and both are open at first. -/
theorem custody_of_find {files : Files} {supply : Supply} {c : Source}
    (h : supply.origin.find files = .ok c) : c.custody = ⟨supply.isPath, false⟩ := by
  cases supply with
  | stream name reader =>
    cases h
    rfl
  | path name =>
    change files.open name = .ok c at h
    unfold Files.open at h
    split at h
    · split at h
      · cases h
        rfl
      · cases h
    · cases h

end Supply

/-- What can be done with sources, scanners and parses. Streams and files may be made into a source,
a scanner or a parse, and existing sources handed to scanners and parses. -/
inductive Command where
  | source (id : String) (supply : Supply)
  | scanner (id : String) (supply : Supply)
  | parse (supply : Supply)
  | share (id : String) (i : Nat)
  | parseShared (i : Nat)
  | next (i : Nat)
  | scan (k : Nat)
  | tokenize (k : Nat)
  | advance (k : Nat)
  | skipBlanks (k : Nat)
  | close (h : Handle)
  | enter (h : Handle)
  | leave (h : Handle)
  | register (d : Diagnostic)
  | clear

namespace Command

def act : Command → SessionM Unit
  | source id supply => do newSource id (← supply.origin.source)
  | scanner id supply => do newScanner id (← supply.origin.source)
  | parse supply => do let _ ← parseFrom supply.origin
  | share id i => newSharedScanner id i
  | parseShared i => do let _ ← Session.parseShared i
  | next i => do let _ ← nextChar i
  | scan k => do let _ ← Session.scan k
  | tokenize k => do let _ ← Session.tokenize k
  | advance k => do let _ ← onScanner k Scanner.advance
  | skipBlanks k => onScanner k Scanner.skipBlanks
  | close h | leave h => do let _ ← Session.close h
  | enter _ => pure ()
  | register d => Session.register [d]
  | clear => Session.clear

/-- The session after a command, whatever that came to. -/
def perform (s : Session) (u : Command) : Session :=
  stateOf (u.act s)

/-- What the command makes a source from. -/
def supply? : Command → Option Supply
  | source _ supply | scanner _ supply | parse supply => some supply
  | _ => none

/-- The handle on which the command calls `close`, or whose context it leaves. -/
def closing? : Command → Option Handle
  | close h | leave h => some h
  | _ => none

/-- What a command makes of the ledger. -/
def change (l : Ledger) : Command → Ledger
  | source _ supply => match supply.origin.find l.files with
    | .ok c => { l with sources := l.sources ++ [c.custody] }
    | .error _ => l
  | scanner _ supply => match supply.origin.find l.files with
    | .ok c => { l with
      sources := l.sources ++ [c.custody]
      scanners := l.scanners ++ [some l.sources.length] }
    | .error _ => l
  | parse supply => match supply.origin.find l.files with
    | .ok c => { l with sources := l.sources ++ [c.custody.close] }
    | .error _ => l
  | share .. => { l with scanners := l.scanners ++ [none] }
  | close h | leave h => l.close h
  | _ => l

/-- An action on what is opened or given. -/
theorem stateOf_supplied (supply : Supply) (f : Source → SessionM α) (s : Session) :
    stateOf ((do f (← supply.origin.source)) s) = match supply.origin.find s.files with
      | .ok c => stateOf (f c s)
      | .error _ => s := by
  have source := supply.origin.source_eq s
  cases h : supply.origin.find s.files with
  | ok c =>
    rw [h] at source
    rw [bind_of_ok source]
  | error cause =>
    rw [h] at source
    rw [bind_of_error source]
    rfl

theorem ledger_perform (s : Session) (u : Command) : (perform s u).ledger = u.change s.ledger := by
  have discard {α : Type} {x : SessionM α} {l : Ledger} (h : (stateOf (x s)).ledger = l) :
      (stateOf ((do let _ ← x : SessionM Unit) s)).ledger = l := by
    rwa [Operation.stateOf_discard]
  have files : s.ledger.files = s.files := rfl
  unfold perform
  cases u with
  | source id supply =>
    rw [act, stateOf_supplied, change, files]
    cases supply.origin.find s.files with
    | ok c => exact congrArg (Ledger.mk _ · _) List.map_append
    | error _ => rfl
  | scanner id supply =>
    rw [act, stateOf_supplied, change, files]
    cases supply.origin.find s.files with
    | ok c =>
      have length : s.ledger.sources.length = s.sources.length := List.length_map _
      rw [length]
      exact congrArg₂ (Ledger.mk _) List.map_append List.map_append
    | error _ => rfl
  | parse supply =>
    refine discard ?_
    rw [parseFrom, stateOf_supplied, change, files]
    cases supply.origin.find s.files with
    | ok c => exact ledger_parse c s
    | error _ => rfl
  | share id i => exact congrArg (Ledger.mk _ _) List.map_append
  | parseShared i => exact discard (keeps_parseShared i s)
  | next i => exact discard (keeps_onSource Source.keeping_next i s)
  | scan k => exact discard (keeps_scan k s)
  | tokenize k => exact discard (keeps_tokenize k s)
  | advance k => exact discard (keeps_onScanner Scanner.proceeds_advance k s)
  | skipBlanks k => exact keeps_onScanner Scanner.proceeds_skipBlanks k s
  | close h | leave h => exact discard (ledger_close h s)
  | enter _ | register _ | clear => rfl

theorem ledger_foldl (commands : List Command) (s : Session) :
    (commands.foldl perform s).ledger = commands.foldl change s.ledger := by
  induction commands generalizing s with
  | nil => rfl
  | cons u commands ih => rw [List.foldl_cons, ih, ledger_perform, List.foldl_cons]

end Command
end Session
end BantamSyntax
