import BantamSyntax.Proofs.Session.Ledgers

/-!
# Line numbers

Which line a scanner is on that is alone on its source. The source counts a newline as soon as it
gives it, and so is one line ahead of a scanner that looks at a newline; it is on the line of one
that looks at anything else, or at the end. Whatever else is done in a session leaves this so.
-/
namespace BantamSyntax

/-! ## lines of scanners -/

namespace Scanner

variable {c d : Scanner} {cs : List Char}

/-- The newline that is looked at is left out of the count of the source. -/
theorem line_eq_sub (c : Scanner) : c.line = c.source.line - newlineAt c.lookahead := by
  unfold line newlineAt
  split <;> rfl

/-- A scanner that was made for a source has come to the line after the newlines it passed over. -/
theorem Passes.line_eq {source : Source} (h : (ofSource source).Passes cs c) :
    c.line = source.line + newlines cs := by
  obtain ⟨n, left, given⟩ := h.calls
  have left : c.source = source.skip n := left
  have given : ' ' :: source.handed n = cs ++ c.lookahead.toList := given
  have blank : newlines (' ' :: source.handed n) = newlines (source.handed n) := by
    simp [newlines_cons, newlineAt]
  have counted : newlines (source.handed n) = newlines cs + newlineAt c.lookahead := by
    rw [← blank, given, newlines_append, newlines_toList]
  rw [line_eq_sub, left, Source.line_skip, counted]
  omega

theorem line_of_advance_error {cause : InputFailure} (h : advance c = .error cause d) :
    d.lookahead = c.lookahead ∧ d.line = c.line := by
  unfold advance at h
  split at h
  · cases h
  · rename_i cause source failed
    cases h
    have count := (Source.line_of_next_error failed).2
    exact ⟨rfl, by simp only [line, count]⟩

end Scanner

namespace Session

variable {α β : Type} {s t u : Session} {i j k : Nat} {b c d : Scanner} {cs : List Char}

/-! ## scanners that are alone -/

/-- The scanner under the index `k` has become `c`, and is the only one on the source `i`. -/
structure Lone (s : Session) (i k : Nat) (c : Scanner) : Prop where
  source : s.sources[i]? = some c.source
  scanner : ∃ owns, s.scanners[k]? = some ⟨i, owns, c.lookahead⟩
  only : ∀ j h, s.scanners[j]? = some h → h.source = i → j = k

namespace Lone

theorem has (h : s.Lone i k c) : s.Has k c := by
  obtain ⟨owns, found⟩ := h.scanner
  exact ⟨_, found, h.source, rfl⟩

theorem source_inside (h : s.Lone i k c) : i < s.sources.length :=
  (List.getElem?_eq_some_iff.1 h.source).1

/-- Nothing but the sources and the scanners of a session has a part in it. -/
theorem congr (h : s.Lone i k c) (sources : t.sources = s.sources)
    (scanners : t.scanners = s.scanners) : t.Lone i k c := by
  refine ⟨?_, ?_, ?_⟩
  · rw [sources]
    exact h.source
  · rw [scanners]
    exact h.scanner
  · rw [scanners]
    exact h.only

theorem addSource (h : s.Lone i k c) (new : Source) :
    Lone { s with sources := s.sources ++ [new] } i k c where
  source := (List.getElem?_append_left h.source_inside).trans h.source
  scanner := h.scanner
  only := h.only

theorem addScanner (h : s.Lone i k c) (new : SharedScanner) (other : new.source ≠ i) :
    Lone { s with scanners := s.scanners ++ [new] } i k c where
  source := h.source
  scanner := by
    obtain ⟨owns, found⟩ := h.scanner
    exact ⟨owns, (List.getElem?_append_left (List.getElem?_eq_some_iff.1 found).1).trans found⟩
  only j g found on := by
    rw [List.getElem?_append] at found
    split at found
    · exact h.only j g found on
    · rw [List.getElem?_singleton] at found
      split at found
      · cases found
        exact absurd on other
      · cases found

theorem setSource (h : s.Lone i k c) (other : j ≠ i) (new : Source) :
    Lone { s with sources := s.sources.set j new } i k c where
  source := (List.getElem?_set_ne other).trans h.source
  scanner := h.scanner
  only := h.only

/-- A scanner stays on its source while its lookahead moves on. -/
theorem only_set {scanners : List SharedScanner} {g : SharedScanner} {look : Option Char}
    (only : ∀ l f, scanners[l]? = some f → f.source = i → l = k) (found : scanners[j]? = some g) :
    ∀ l f, (scanners.set j { g with lookahead := look })[l]? = some f → f.source = i → l = k := by
  intro l f there on
  have same : (scanners.set j { g with lookahead := look }).map SharedScanner.source =
    scanners.map SharedScanner.source := map_set_of_same found rfl
  have source : (scanners.map SharedScanner.source)[l]? = some i := by
    rw [← same, List.getElem?_map, there, Option.map_some, on]
  obtain ⟨e, before, on⟩ := Option.map_eq_some_iff.1 (List.getElem?_map.symm.trans source)
  exact only l e before on

theorem put (h : s.Lone i k c) {g : SharedScanner} (found : s.scanners[k]? = some g) (d : Scanner) :
    (s.put k g d).Lone i k d := by
  obtain ⟨owns, there⟩ := h.scanner
  cases there.symm.trans found
  refine ⟨List.getElem?_set_self h.source_inside, ⟨owns, ?_⟩, only_set h.only found⟩
  exact List.getElem?_set_self (List.getElem?_eq_some_iff.1 found).1

/-- What another scanner becomes does not touch the source. -/
theorem put_other (h : s.Lone i k c) {g : SharedScanner} (found : s.scanners[j]? = some g)
    (other : j ≠ k) (d : Scanner) : (s.put j g d).Lone i k c := by
  have elsewhere : g.source ≠ i := fun on => other (h.only j g found on)
  obtain ⟨owns, there⟩ := h.scanner
  refine ⟨(List.getElem?_set_ne elsewhere).trans h.source, ⟨owns, ?_⟩, only_set h.only found⟩
  exact (List.getElem?_set_ne other).trans there

open Scanner in
/-- Where taking a character fails, the scanner goes on looking at the one that it looked at, on the
same line. -/
theorem advance_error {e : SessionFailure} (h : s.Lone i k c)
    (failed : onScanner k advance s = .error e t) :
    ∃ d, t.Lone i k d ∧ d.lookahead = c.lookahead ∧ d.line = c.line := by
  obtain ⟨owns, found⟩ := h.scanner
  rw [onScanner, bind_of_ok (scanner_eq h.has)] at failed
  cases hc : advance c with
  | ok a d =>
    rw [hc] at failed
    cases (bind_of_ok (setScanner_put found d)).symm.trans failed
  | error cause d =>
    rw [hc] at failed
    cases (bind_of_ok (setScanner_put found d)).symm.trans failed
    exact ⟨d, h.put found d, line_of_advance_error hc⟩

end Lone

/-! ## what leaves them alone -/

/-- A scanner that is alone on the source `i` in one session is so in the other, and has gone there
over characters of the source by itself. -/
def Undisturbed (i k : Nat) (s t : Session) : Prop :=
  ∀ c, s.Lone i k c → ∃ cs d, t.Lone i k d ∧ c.Passes cs d

theorem undisturbed_of_lone (h : ∀ c, s.Lone i k c → t.Lone i k c) : Undisturbed i k s t :=
  fun c lone => ⟨[], c, h c lone, .refl c⟩

theorem Undisturbed.refl (s : Session) : Undisturbed i k s s :=
  undisturbed_of_lone fun _ lone => lone

theorem Undisturbed.trans (first : Undisturbed i k s t) (rest : Undisturbed i k t u) :
    Undisturbed i k s u := by
  intro b lone
  obtain ⟨cs, c, lone, passes⟩ := first b lone
  obtain ⟨ds, d, lone, onward⟩ := rest c lone
  exact ⟨cs ++ ds, d, lone, passes.trans onward⟩

/-- Whatever the action comes to in the session, the scanner stays alone on the source. -/
def Spares (i k : Nat) (x : SessionM α) (s : Session) : Prop :=
  Undisturbed i k s (stateOf (x s))

theorem Spares.bind {x : SessionM α} {f : α → SessionM β} (hx : Spares i k x s)
    (hf : ∀ a t, Spares i k (f a) t) : Spares i k (x >>= f) s :=
  stateOf_bind Undisturbed.trans hx hf

theorem Spares.discard {x : SessionM α} (h : Spares i k x s) :
    Spares i k (do let _ ← x) s := by
  rwa [Spares, Operation.stateOf_discard]

/-! ## requests -/

theorem spares_setSource (other : j ≠ i) (new : Source) (s : Session) :
    Spares i k (setSource j new) s :=
  undisturbed_of_lone fun _ lone => lone.setSource other new

/-- What a scanner has become on its way is put back, be it the one that is alone or another. -/
theorem spares_setScanner (has : s.Has j b) (passes : b.Passes cs d) :
    Spares i k (setScanner j d) s := by
  obtain ⟨g, found, -, -⟩ := has.parts
  rw [Spares, setScanner_put found d]
  intro c lone
  by_cases here : j = k
  · subst here
    obtain rfl : b = c := by
      have both := (scanner_eq has).symm.trans (scanner_eq lone.has)
      cases both
      rfl
    exact ⟨cs, d, lone.put found d, passes⟩
  · exact ⟨[], c, lone.put_other found here d, .refl c⟩

theorem spares_onScanner {x : ScannerM α} (h : Scanner.Proceeds x) (j : Nat) (s : Session) :
    Spares i k (onScanner j x) s := by
  apply stateOf_scanner (P := Undisturbed i k s) (.refl s)
  intro b has
  cases hx : x b with
  | ok a d =>
    obtain ⟨cs, passes⟩ := h.ok hx
    exact (spares_setScanner has passes).bind fun _ => .refl
  | error cause d =>
    obtain ⟨cs, passes⟩ := (h.error hx).passes
    exact (spares_setScanner has passes).bind fun _ => .refl

theorem spares_report (j : Nat) (ls : List Lexeme) (s : Session) :
    Spares i k (report j ls) s := by
  apply stateOf_scanner (P := Undisturbed i k s) (.refl s)
  intro b has
  exact undisturbed_of_lone fun _ lone => lone.congr rfl rfl

theorem spares_scan (j : Nat) (s : Session) : Spares i k (scan j) s :=
  (spares_onScanner Scanner.proceeds_scan j s).bind fun l t =>
    (spares_report j [l] t).bind fun _ => .refl

theorem spares_tokenize (j : Nat) (s : Session) : Spares i k (tokenize j) s := by
  apply stateOf_scanner (P := Undisturbed i k s) (.refl s)
  intro b has
  obtain ⟨takes, passes, -⟩ := Scanner.requests_take _ b
  apply (spares_setScanner has passes).bind
  intro _ t
  apply (spares_report j _ t).bind
  intro _ t
  split <;> exact .refl t

theorem spares_onSource (other : j ≠ i) (x : SourceM α) (s : Session) :
    Spares i k (onSource j x) s := by
  apply stateOf_source (P := Undisturbed i k s) fun _ => .refl s
  intro c _
  cases x c with
  | ok a d => exact (spares_setSource other d s).bind fun _ => .refl
  | error cause d => exact (spares_setSource other d s).bind fun _ => .refl

/-! ## parses -/

/-- The end of a parse through another source. -/
theorem spares_settle (other : j ≠ i) (rest : Source) (result : Except ParseFailure Program)
    (s : Session) : Spares i k (do setSource j rest; finish result) s := by
  apply (spares_setSource other rest s).bind
  intro _ t
  rw [Spares, stateOf_finish]
  exact .refl t

theorem spares_parse (source : Source) (s : Session) : Spares i k (parse source) s := by
  have add : addSource source s =
    .ok s.sources.length { s with sources := s.sources ++ [source] } := rfl
  obtain ⟨result, rest, diagnostics, -, through⟩ :=
    parseThrough_custody source { s with sources := s.sources ++ [source] }
  rw [Spares, parse, bind_of_ok add, bind_of_ok through]
  intro c lone
  -- The new source is put behind all others, and so behind that of the scanner.
  have behind : s.sources.length ≠ i := Nat.ne_of_gt lone.source_inside
  have added : Undisturbed i k s { s with sources := s.sources ++ [source], diagnostics } :=
    undisturbed_of_lone fun _ lone => (lone.addSource source).congr rfl rfl
  exact added.trans (spares_settle behind rest.close result _) c lone

theorem spares_parseShared (other : j ≠ i) (s : Session) : Spares i k (parseShared j) s := by
  apply stateOf_source (P := Undisturbed i k s) fun _ => .refl s
  intro c _
  obtain ⟨result, rest, diagnostics, -, through⟩ := parseThrough_custody c s
  rw [bind_of_ok through]
  have reported : Undisturbed i k s { s with diagnostics } :=
    undisturbed_of_lone fun _ lone => lone.congr rfl rfl
  exact reported.trans (spares_settle other rest result _)

/-! ## closing -/

theorem spares_close {handle : Handle} (source : handle ≠ .source i) (scanner : handle ≠ .scanner k)
    (s : Session) : Spares i k (close handle) s := by
  cases handle with
  | source j =>
    have other : j ≠ i := fun here => source (congrArg Handle.source here)
    apply stateOf_source (P := Undisturbed i k s) fun _ => .refl s
    intro c _
    exact (spares_setSource other c.close s).bind fun _ => .refl
  | scanner j =>
    have other : j ≠ k := fun here => scanner (congrArg Handle.scanner here)
    apply stateOf_shared (P := Undisturbed i k s) fun _ => .refl s
    intro g found
    apply stateOf_source (P := Undisturbed i k s) fun _ => .refl s
    intro c _
    refine Spares.bind ?_ fun _ => .refl
    intro b lone
    have elsewhere : g.source ≠ i := fun on => other (lone.only j g found on)
    exact spares_setSource elsewhere _ s b lone

/-! ## commands -/

/-- The command reads or closes the source `i` at most by requests of the scanner `k`, and puts no
scanner on it. -/
def Command.LeavesTo (i k : Nat) : Command → Prop
  | .share _ j | .parseShared j | .next j => j ≠ i
  | .close h | .leave h => h ≠ .source i ∧ h ≠ .scanner k
  | _ => True

theorem spares_supplied {supply : Supply} {f : Source → SessionM α} (h : ∀ c, Spares i k (f c) s) :
    Spares i k (do f (← supply.origin.source)) s := by
  rw [Spares, Command.stateOf_supplied]
  split
  · exact h _
  · exact .refl s

theorem undisturbed_perform {v : Command} (leaves : v.LeavesTo i k) (s : Session) :
    Undisturbed i k s (v.perform s) := by
  change Spares i k v.act s
  cases v with
  | source id supply =>
    apply spares_supplied
    intro c
    exact undisturbed_of_lone fun _ lone => (lone.addSource c).congr rfl rfl
  | scanner id supply =>
    apply spares_supplied
    intro c
    apply undisturbed_of_lone
    intro b lone
    have behind : s.sources.length ≠ i := Nat.ne_of_gt lone.source_inside
    exact ((lone.addSource c).addScanner ⟨s.sources.length, true, some ' '⟩ behind).congr rfl rfl
  | parse supply => exact (spares_supplied fun c => spares_parse c s).discard
  | share id j =>
    exact undisturbed_of_lone fun _ lone =>
      (lone.addScanner ⟨j, false, some ' '⟩ leaves).congr rfl rfl
  | parseShared j => exact (spares_parseShared leaves s).discard
  | next j => exact (spares_onSource leaves Source.next s).discard
  | scan j => exact (spares_scan j s).discard
  | tokenize j => exact (spares_tokenize j s).discard
  | advance j => exact (spares_onScanner Scanner.proceeds_advance j s).discard
  | skipBlanks j => exact spares_onScanner Scanner.proceeds_skipBlanks j s
  | close handle | leave handle => exact (spares_close leaves.1 leaves.2 s).discard
  | enter _ => exact .refl s
  | register _ | clear => exact undisturbed_of_lone fun _ lone => lone.congr rfl rfl

theorem undisturbed_foldl {commands : List Command} (leave : ∀ v ∈ commands, v.LeavesTo i k)
    (s : Session) : Undisturbed i k s (commands.foldl Command.perform s) := by
  induction commands generalizing s with
  | nil => exact .refl s
  | cons v commands ih =>
    obtain ⟨here, leave⟩ := List.forall_mem_cons.1 leave
    exact (undisturbed_perform here s).trans (ih leave (v.perform s))

open Scanner in
/-- A scanner that is alone on its source is on the line that the newlines lead to which the source
has given before the character it looks at. The blank that it looks at first stands after what the
source gave before the scanner was made, the end stands after everything. This holds whichever
reads fail and whatever else is done in the session, as long as only requests of the scanner read
or close the source. A request for a character that fails leaves the scanner on its line. -/
theorem line_of_lookahead {source : Source} {m : Nat} (opened : source.line = 1)
    (alone : s.Lone i k (ofSource (source.skip m))) (commands : List Command)
    (leave : ∀ v ∈ commands, v.LeavesTo i k) :
    ∃ c, (commands.foldl Command.perform s).Lone i k c ∧
      (∃ n, c.source = source.skip (m + n)) ∧
      (∀ n, c.source = source.skip (m + n) → ∃ before,
        source.handed m ++ ' ' :: (source.skip m).handed n = before ++ c.lookahead.toList ∧
          c.line = 1 + newlines before) ∧
      ∀ e t, onScanner k advance (commands.foldl Command.perform s) = .error e t →
        ∃ d, t.Lone i k d ∧ d.lookahead = c.lookahead ∧ d.line = c.line := by
  obtain ⟨cs, c, there, passes⟩ := undisturbed_foldl leave s _ alone
  obtain ⟨calls, reached, given⟩ := passes.calls
  have reached : c.source = (source.skip m).skip calls := reached
  have given : ' ' :: (source.skip m).handed calls = cs ++ c.lookahead.toList := given
  refine ⟨c, there, ⟨calls, by rw [reached, Source.skip_add]⟩, ?_, fun _ _ => there.advance_error⟩
  intro n left
  rw [Source.skip_add, reached] at left
  refine ⟨source.handed m ++ cs, ?_, ?_⟩
  · rw [← Source.handed_eq_of_skip_eq left, given, List.append_assoc]
  · rw [passes.line_eq, Source.line_skip, opened, newlines_append, Nat.add_assoc]

/-- The source had given a newline before the scanner came. A CR is lost where the read after it
fails, and the newline that the scanner comes to look at is on the second line. -/
theorem line_of_lookahead_lost_return :
    let source : Source := {
      name := "f"
      reader := ⟨[.piece ['\n', '\r'], .failure (.device "lost"), .piece ['b', '\n'],
        .failure (.device "gone")], none⟩ }
    let s : Session := {
      sources := [source.skip 1, .ofText "x" "g"]
      scanners := [{ source := 0, owns := false }, { source := 1, owns := true }] }
    let t := [.advance 0, .scan 1, .advance 0, .scan 0].foldl Command.perform s
    ∃ c, t.Lone 0 0 c ∧ (c.lookahead, c.line) = (some '\n', 2) ∧
      ∃ e u, onScanner 0 Scanner.advance t = .error e u ∧ ∃ d, u.Lone 0 0 d ∧ d.line = 2 := by
  intro source s t
  have only : ∀ j h, s.scanners[j]? = some h → h.source = 0 → j = 0 := by
    intro j h found on
    match j with
    | 0 => rfl
    | 1 =>
      cases found
      cases on
    | j + 2 => cases found
  have alone : s.Lone 0 0 (.ofSource (source.skip 1)) := ⟨rfl, ⟨false, rfl⟩, only⟩
  obtain ⟨c, there, -, -, stays⟩ := line_of_lookahead rfl alone
    [.advance 0, .scan 1, .advance 0, .scan 0] (by simp [Command.LeavesTo])
  have looks : (match scanner 0 t with
      | .ok c _ => (c.lookahead, c.line)
      | .error _ _ => (none, 0)) = (some '\n', 2) := by decide +kernel
  have fails : (match onScanner 0 Scanner.advance t with
      | .ok _ _ => false
      | .error _ _ => true) = true := by decide +kernel
  rw [scanner_eq there.has] at looks
  refine ⟨c, there, looks, ?_⟩
  cases taken : onScanner 0 Scanner.advance t with
  | ok a u => simp [taken] at fails
  | error e u =>
    obtain ⟨d, lone, -, line⟩ := stays e u taken
    exact ⟨e, u, rfl, d, lone, line.trans (congrArg Prod.snd looks)⟩

end Session
end BantamSyntax
