import BantamSyntax.Proofs.Scanning.Reconstruction
import BantamSyntax.Proofs.Session.Requests

/-!
# Shared sources

Scanners that share a source divide its text between them: in whatever order they are asked, each
character that the source gives is taken by one of them, and what each has taken is what its tokens
spell.
-/
namespace BantamSyntax

/-! ## texts given by calls -/

namespace Source

variable {s : Source} {cs : List Char} {line : Nat}

/-- Calls on a source that never fails give its text from the front. -/
theorem Gives.calls (h : s.Gives cs line) (n : Nat) :
    s.handed n = cs.take n ∧ ∃ line, (s.skip n).Gives (cs.drop n) line := by
  induction n generalizing s cs line with
  | zero => exact ⟨rfl, line, h⟩
  | succ n ih =>
    obtain ⟨t, given, after⟩ := next_gives h
    obtain ⟨handed, left⟩ := ih after
    simp only [Source.handed, skip, given, handed]
    cases cs with
    | nil => simpa using left
    | cons c cs => exact ⟨rfl, left⟩

theorem Gives.handed_append (h : s.Gives cs line) (n : Nat) :
    s.handed n ++ normalize (s.skip n).pending = cs := by
  obtain ⟨handed, _, left⟩ := h.calls n
  rw [handed, left.text, List.take_append_drop]

end Source

/-! ## turns -/

/-- One request of a scanner: the characters that the source gave for it, and the token. -/
structure Turn where
  scanner : Nat
  taken : List Char
  token : Token

namespace Session

variable {s t u : Session} {i k : Nat} {source c : Source} {h : SharedScanner} {turns : List Turn}
  {token : Token}

/-- The scanner under the index `k` is one of those on the source `i`. -/
structure Shares (s : Session) (i k : Nat) (h : SharedScanner) : Prop where
  found : s.scanners[k]? = some h
  source : h.source = i

/-- The scanners on the source `i` have been asked in turn, and others have joined them. -/
inductive Turns (i : Nat) (s : Session) : List Turn → Session → Prop where
  | start : Turns i s [] s
  | join {turns : List Turn} {t u : Session} {name : String} (run : Turns i s turns t)
      (joined : newSharedScanner name i t = .ok () u) : Turns i s turns u
  | scan {turns : List Turn} {t u : Session} {k calls : Nat} {h : SharedScanner} {c : Source}
      {token : Token} (run : Turns i s turns t) (shares : t.Shares i k h)
      (scanned : scan k t = .ok token u) (before : t.sources[i]? = some c)
      (after : u.sources[i]? = some (c.skip calls)) :
      Turns i s (turns ++ [⟨k, c.handed calls, token⟩]) u

/-- The turns of one scanner. -/
def turnsOf (k : Nat) (turns : List Turn) : List Turn :=
  turns.filter (·.scanner = k)

/-- What has been taken in the turns, after the blank that a scanner begins with, are the spellings
of the tokens, each after white space, and the character that is still looked at. -/
def Spells (turns : List Turn) (lookahead : Option Char) : Prop :=
  ∃ gaps : List (List Char), gaps.length = turns.length ∧
    (∀ gap ∈ gaps, gap.all Scanner.isBlank = true) ∧
    ' ' :: turns.flatMap (·.taken) = weave gaps (turns.map (·.token)) ++ lookahead.toList

/-- The text of the source has been divided in the turns. -/
structure Divided (source : Source) (i : Nat) (turns : List Turn) (t : Session) : Prop where
  given : ∃ calls, t.sources[i]? = some (source.skip calls) ∧
    source.handed calls = turns.flatMap (·.taken) ∧
    turns.flatMap (·.taken) ++ normalize (source.skip calls).pending = normalize source.pending
  taker : ∀ turn ∈ turns, ∃ h, t.Shares i turn.scanner h
  spelled : ∀ k h, t.Shares i k h → Spells (turnsOf k turns) h.lookahead

/-! ## single turns -/

theorem weave_concat {gaps : List (List Char)} {ts : List Token} (size : gaps.length = ts.length)
    (gap : List Char) (t : Token) :
    weave (gaps ++ [gap]) (ts ++ [t]) = weave gaps ts ++ (gap ++ t.spelling.toList) := by
  simp [weave, List.zipWith_append size]

theorem Spells.concat {look : Option Char} {gap : List Char} {turn : Turn}
    (spells : Spells turns h.lookahead) (blank : gap.all Scanner.isBlank = true)
    (taken : h.lookahead.toList ++ turn.taken = gap ++ turn.token.spelling.toList ++ look.toList) :
    Spells (turns ++ [turn]) look := by
  obtain ⟨gaps, size, blanks, text⟩ := spells
  refine ⟨gaps ++ [gap], by simp [size], ?_, ?_⟩
  · rw [List.forall_mem_append, List.forall_mem_singleton]
    exact ⟨blanks, blank⟩
  · calc ' ' :: (turns ++ [turn]).flatMap (·.taken)
        = (' ' :: turns.flatMap (·.taken)) ++ turn.taken := by simp
      _ = weave gaps (turns.map (·.token)) ++ (h.lookahead.toList ++ turn.taken) := by
          rw [text, List.append_assoc]
      _ = weave (gaps ++ [gap]) ((turns ++ [turn]).map (·.token)) ++ look.toList := by
          rw [taken, List.map_append, List.map_singleton, weave_concat (by simpa using size)]
          simp only [List.append_assoc]

/-- A request over a source that never fails gives a token, and moves on the source and the
lookahead of the scanner. -/
theorem scan_shared {cs : List Char} {line : Nat} (found : s.scanners[k]? = some h)
    (there : s.sources[h.source]? = some c) (gives : c.Gives cs line) :
    ∃ token t look gap calls, scan k s = .ok token t ∧
      t.sources = s.sources.set h.source (c.skip calls) ∧
      t.scanners = s.scanners.set k { h with lookahead := look } ∧
      gap.all Scanner.isBlank = true ∧
      h.lookahead.toList ++ c.handed calls = gap ++ token.spelling.toList ++ look.toList := by
  cases scanned : Scanner.scan ⟨c, h.lookahead⟩ with
  | ok l d =>
    obtain ⟨gap, blank, passes, -⟩ := Scanner.scan_gives scanned
    obtain ⟨calls, left, taken⟩ := passes.calls
    exact ⟨_, _, d.lookahead, gap, calls, scan_eq found there scanned, by rw [left], rfl, blank,
      taken⟩
  | error cause d =>
    obtain ⟨n, _, failed⟩ := (Scanner.proceeds_scan.error scanned).failed
    obtain ⟨-, _, left⟩ := gives.calls n
    obtain ⟨_, given, -⟩ := Source.next_gives left
    cases failed.symm.trans given

/-- The scanners on a source stay on it when the lookahead of one moves on. -/
theorem Shares.stays {look : Option Char} {j : Nat} {g : SharedScanner} (shares : s.Shares i k h)
    (moved : t.scanners = s.scanners.set k { h with lookahead := look }) (there : s.Shares i j g) :
    ∃ g, t.Shares i j g := by
  have inside := (List.getElem?_eq_some_iff.1 there.found).1
  by_cases here : j = k
  · subst here
    refine ⟨{ h with lookahead := look }, ?_, shares.source⟩
    rw [moved, List.getElem?_set_self inside]
  · exact ⟨g, by rw [moved, List.getElem?_set_ne (Ne.symm here), there.found], there.source⟩

theorem Shares.of_set {look : Option Char} {j : Nat} {g : SharedScanner}
    (shares : s.Shares i k h) (moved : t.scanners = s.scanners.set k { h with lookahead := look })
    (other : t.Shares i j g) :
    j = k ∧ g.lookahead = look ∨ j ≠ k ∧ s.Shares i j g := by
  obtain ⟨found, source⟩ := other
  have inside := (List.getElem?_eq_some_iff.1 shares.found).1
  rw [moved] at found
  by_cases here : j = k
  · subst here
    rw [List.getElem?_set_self inside] at found
    cases found
    exact .inl ⟨rfl, rfl⟩
  · rw [List.getElem?_set_ne (Ne.symm here)] at found
    exact .inr ⟨here, found, source⟩

theorem turnsOf_concat_self (turns : List Turn) (turn : Turn) :
    turnsOf turn.scanner (turns ++ [turn]) = turnsOf turn.scanner turns ++ [turn] := by
  simp [turnsOf]

theorem turnsOf_concat_of_ne (turns : List Turn) (turn : Turn) (other : turn.scanner ≠ k) :
    turnsOf k (turns ++ [turn]) = turnsOf k turns := by
  simp [turnsOf, other]

/-- The next request takes its characters from where all the earlier ones have left the source. -/
theorem Divided.next (readable : source.Readable) (divided : Divided source i turns t)
    (shares : t.Shares i k h) :
    ∃ token u c calls, scan k t = .ok token u ∧ t.sources[i]? = some c ∧
      u.sources[i]? = some (c.skip calls) ∧
      (∀ j g, t.Shares i j g → ∃ g, u.Shares i j g) ∧
      Divided source i (turns ++ [⟨k, c.handed calls, token⟩]) u := by
  obtain ⟨⟨before, there, given, -⟩, taker, spelled⟩ := divided
  have gives : source.Gives (normalize source.pending) source.line := ⟨readable, rfl, rfl⟩
  obtain ⟨-, line, left⟩ := gives.calls before
  obtain ⟨token, u, look, gap, calls, scanned, sources, scanners, blank, taken⟩ :=
    scan_shared shares.found (by rw [shares.source, there]) left
  have inside := (List.getElem?_eq_some_iff.1 there).1
  have after : u.sources[i]? = some ((source.skip before).skip calls) := by
    rw [sources, shares.source, List.getElem?_set_self inside]
  let turn : Turn := ⟨k, (source.skip before).handed calls, token⟩
  have handed : source.handed (before + calls) = (turns ++ [turn]).flatMap (·.taken) := by
    rw [Source.handed_add, given, List.flatMap_append, List.flatMap_singleton]
  refine ⟨token, u, _, calls, scanned, there, after, fun _ _ => shares.stays scanners,
    ⟨before + calls, ?_, handed, ?_⟩, ?_, ?_⟩
  · rw [after, Source.skip_add]
  · rw [← handed, gives.handed_append]
  · rw [List.forall_mem_append, List.forall_mem_singleton]
    refine ⟨fun turn among => ?_, shares.stays scanners shares⟩
    obtain ⟨g, there⟩ := taker turn among
    exact shares.stays scanners there
  · intro j g there
    rcases shares.of_set scanners there with ⟨rfl, rfl⟩ | ⟨other, there⟩
    · rw [turnsOf_concat_self turns turn]
      exact (spelled _ h shares).concat blank taken
    · rw [turnsOf_concat_of_ne turns turn (Ne.symm other)]
      exact spelled j g there

/-- A scanner that joins has taken nothing so far. -/
theorem Divided.join {name : String} (divided : Divided source i turns t)
    (joined : newSharedScanner name i t = .ok () u) : Divided source i turns u := by
  cases joined
  obtain ⟨given, taker, spelled⟩ := divided
  have stays j g (there : t.Shares i j g) : j < t.scanners.length ∧
      (t.scanners ++ [{ source := i, owns := false }])[j]? = some g := by
    have inside := (List.getElem?_eq_some_iff.1 there.found).1
    exact ⟨inside, by rw [List.getElem?_append_left inside, there.found]⟩
  refine ⟨given, fun turn among => ?_, fun j g there => ?_⟩
  · obtain ⟨g, there⟩ := taker turn among
    exact ⟨g, (stays _ g there).2, there.source⟩
  · by_cases inside : j < t.scanners.length
    · have found := there.found
      rw [List.getElem?_append_left inside] at found
      exact spelled j g ⟨found, there.source⟩
    · have none : turnsOf j turns = [] := by
        refine List.filter_eq_nil_iff.2 fun turn among => ?_
        obtain ⟨g, there⟩ := taker turn among
        have := (stays _ g there).1
        rw [decide_eq_true_eq]
        omega
      have found := there.found
      rw [List.getElem?_append_right (Nat.not_lt.1 inside), List.getElem?_singleton] at found
      split at found
      · cases found
        exact ⟨[], by simp [none], nofun, by simp [none]⟩
      · cases found

theorem Turns.divided (readable : source.Readable) (there : s.sources[i]? = some source)
    (fresh : ∀ k h, s.Shares i k h → h.lookahead = some ' ') (run : Turns i s turns t) :
    Divided source i turns t := by
  induction run with
  | start =>
    refine ⟨⟨0, there, rfl, rfl⟩, nofun, fun k h shares => ?_⟩
    rw [fresh k h shares]
    exact ⟨[], rfl, nofun, rfl⟩
  | join _ joined ih => exact ih.join joined
  | scan _ shares scanned before after ih =>
    obtain ⟨_, _, _, calls, scanned', before', after', -, divided⟩ := ih.next readable shares
    cases scanned.symm.trans scanned'
    cases before.symm.trans before'
    -- The calls of the request are not known from the session that it leaves, but what they gave is.
    rw [Source.handed_eq_of_skip_eq (Option.some.inj (after.symm.trans after'))]
    exact divided

/-- Any order in which scanners are asked goes through. -/
theorem exists_turns (readable : source.Readable) (there : s.sources[i]? = some source)
    (fresh : ∀ k h, s.Shares i k h → h.lookahead = some ' ') (run : Turns i s turns t)
    (schedule : List Nat) (among : ∀ k ∈ schedule, ∃ h, t.Shares i k h) :
    ∃ more u, Turns i s (turns ++ more) u ∧ more.map (·.scanner) = schedule ∧
      schedule.mapM scan t = .ok (more.map (·.token)) u := by
  induction schedule generalizing turns t with
  | nil => exact ⟨[], t, by rwa [List.append_nil], rfl, rfl⟩
  | cons k schedule ih =>
    obtain ⟨⟨h, shares⟩, among⟩ := List.forall_mem_cons.1 among
    obtain ⟨token, u, c, calls, scanned, before, after, stays, -⟩ :=
      (run.divided readable there fresh).next readable shares
    have still : ∀ j ∈ schedule, ∃ g, u.Shares i j g := fun j hj => by
      obtain ⟨g, there⟩ := among j hj
      exact stays j g there
    obtain ⟨more, v, run, scanners, tokens⟩ := ih (run.scan shares scanned before after) still
    refine ⟨⟨k, c.handed calls, token⟩ :: more, v, by simpa using run, by simp [scanners], ?_⟩
    rw [List.mapM_cons, bind_of_ok scanned, bind_of_ok tokens]
    rfl

/-- Scanners that share a source divide its text, in whatever order they are asked and whenever they
join. Each character that the source gives is taken in one turn of one scanner, and these turns make
up the normalised text as far as it has been given. What a scanner has taken are the spellings of
its tokens, apart from white space before each and the character that it still looks at. No request
fails, so that each order of requests takes its turns. -/
theorem turns_divide (readable : source.Readable) (there : s.sources[i]? = some source)
    (fresh : ∀ k h, s.Shares i k h → h.lookahead = some ' ') (run : Turns i s turns t) :
    Divided source i turns t ∧
      ∀ schedule, (∀ k ∈ schedule, ∃ h, t.Shares i k h) →
        ∃ more u, Turns i s (turns ++ more) u ∧ more.map (·.scanner) = schedule ∧
          schedule.mapM scan t = .ok (more.map (·.token)) u :=
  ⟨run.divided readable there fresh, exists_turns readable there fresh run⟩

/-- Two scanners, of which the first stops before the sign and the second goes on after it. -/
theorem turns_divide_between_two :
    let s : Session := {
      sources := [.ofText "ab+cd" "f"]
      scanners := [{ source := 0, owns := true }, { source := 0, owns := false }] }
    ∃ turns t, Turns 0 s turns t ∧
      turns.map (fun turn => (turn.scanner, turn.token.spelling)) =
        [(0, "ab"), (1, "cd"), (0, "+")] ∧
      Divided (.ofText "ab+cd" "f") 0 turns t := by
  intro s
  have readable := (Source.ofText_gives "ab+cd" "f").readable
  have fresh k h (shares : s.Shares 0 k h) : h.lookahead = some ' ' := by
    have among := List.mem_of_getElem? shares.found
    simp only [s, List.mem_cons, List.not_mem_nil, or_false] at among
    rcases among with rfl | rfl <;> rfl
  have both : ∀ k ∈ [0, 1, 0], ∃ h, s.Shares 0 k h := by
    have first : s.Shares 0 0 { source := 0, owns := true } := ⟨rfl, rfl⟩
    have second : s.Shares 0 1 { source := 0, owns := false } := ⟨rfl, rfl⟩
    rw [List.forall_mem_cons, List.forall_mem_cons, List.forall_mem_singleton]
    exact ⟨⟨_, first⟩, ⟨_, second⟩, _, first⟩
  have asked := (turns_divide readable rfl fresh .start).2 [0, 1, 0] both
  obtain ⟨turns, t, run, scanners, tokens⟩ := asked
  refine ⟨turns, t, run, ?_, (turns_divide readable rfl fresh run).1⟩
  have spelled : (match [0, 1, 0].mapM Session.scan s with
      | .ok tokens _ => tokens.map (·.spelling)
      | .error _ _ => []) = ["ab", "cd", "+"] := by decide +kernel
  rw [tokens] at spelled
  have zipped := congrArg₂ List.zip scanners spelled
  simpa [List.zip_map'] using zipped

end Session
end BantamSyntax
