import BantamSyntax.Proofs.Parsing.Failing
import BantamSyntax.Proofs.Session.Reporting
import Mathlib.Data.List.DropRight

/-!
# Histories of sessions

What is done in a session does not depend on what was done before. Each operation reports what it
reports by itself, up to the next time that the list is cleared, and a parse gives the program that
it gives by itself or is refused for what is in the list.
-/
namespace BantamSyntax
namespace Session

variable {s t : Session}

/-! ## single parses -/

theorem parseThrough_eq (source : Source) (s : Session) : ∃ rest, parseThrough source s =
    .ok ((Grammar.outcome (source.parse s.diagnostics)).1, rest)
      { s with diagnostics := (Grammar.outcome (source.parse s.diagnostics)).2 } := by
  have gets : (get : SessionM Session) s = .ok s s := rfl
  rw [parseThrough, bind_of_ok gets]
  cases h : source.parse s.diagnostics with
  | ok r p => exact ⟨((Scanner.ofSource source).after p.taken).source, rfl⟩
  | error cause p => exact ⟨((Scanner.ofSource source).after p.taken).source, rfl⟩

/-- What a parse does in a session: of what it finds there the diagnostics alone have a part. -/
theorem parse_eq (source : Source) (s : Session) :
    let found := Grammar.following s.diagnostics (Grammar.outcome source.parse)
    ∃ t, t.files = s.files ∧ t.diagnostics = found.2 ∧
      parse source s = match found.1 with
        | .ok r => .ok r t
        | .error cause => .error (.parse cause) t := by
  intro found
  let made : Session := { s with sources := s.sources ++ [source] }
  have add : addSource source s = .ok s.sources.length made := rfl
  obtain ⟨rest, through⟩ := parseThrough_eq source made
  rw [source.parse_following made.diagnostics] at through
  let left : Session := { made with
    sources := made.sources.set s.sources.length rest.close
    diagnostics := found.2 }
  refine ⟨left, rfl, rfl, ?_⟩
  rw [parse, bind_of_ok add, bind_of_ok through]
  change finish found.1 _ = _
  cases found.1 <;> rfl

/-! ## origins of texts -/

/-- Where a text comes from: a file that is opened when it is needed, or a stream. -/
inductive Origin where
  | file (name : String)
  | stream (s : Source)

namespace Origin

def source : Origin → SessionM Source
  | file name => openFile name
  | stream s => pure s

/-- The source, if there is one. -/
def find (files : Files) : Origin → Except InputFailure Source
  | file name => files.open name
  | stream s => .ok s

/-- There is no source, or a read of it fails. -/
def Fails (files : Files) (o : Origin) (cause : InputFailure) : Prop :=
  o.find files = .error cause ∨ ∃ s, o.find files = .ok s ∧ s.Fails cause

theorem source_eq (o : Origin) (s : Session) :
    o.source s = match o.find s.files with
      | .ok source => .ok source s
      | .error cause => .error (.parse (.input cause)) s := by
  cases o with
  | stream => rfl
  | file name =>
    have gets : (get : SessionM Session) s = .ok s s := rfl
    rw [source, find, openFile, bind_of_ok gets]
    cases s.files.open name <;> rfl

/-- What a parse of it comes to by itself. -/
def parsed (files : Files) (o : Origin) : Except ParseFailure Program × List Diagnostic :=
  match o.find files with
  | .ok source => Grammar.outcome source.parse
  | .error cause => (.error (.input cause), [])

theorem parsed_outcome (files : Files) (o : Origin) :
    (∃ r, o.parsed files = (.ok r, [])) ∨
    (∃ d ds, o.parsed files = (.error (.rejected (some d)), d :: ds)) ∨
    ∃ cause, o.parsed files = (.error (.input cause), []) ∧ o.Fails files cause := by
  unfold parsed Fails
  cases o.find files with
  | error cause => exact .inr (.inr ⟨cause, rfl, .inl rfl⟩)
  | ok source =>
    rcases source.parse_outcome with h | h | ⟨cause, h, fails⟩
    · exact .inl h
    · exact .inr (.inl h)
    · exact .inr (.inr ⟨cause, h, .inr ⟨source, rfl, fails⟩⟩)

/-- The faults of its lexemes, up to the first failure. -/
def faults (files : Files) (o : Origin) : List Diagnostic :=
  match o.find files with
  | .ok source =>
    (Scanner.ofSource source).tokenize.1.lexemes.filterMap (·.diagnostic? source.name)
  | .error _ => []

end Origin

def parseFrom (o : Origin) : SessionM Program := do
  parse (← o.source)

def tokenizeFrom (o : Origin) : SessionM (List Token) := do
  tokenizeSource (← o.source)

theorem parseFrom_eq (o : Origin) (s : Session) :
    let found := Grammar.following s.diagnostics (o.parsed s.files)
    ∃ t, t.files = s.files ∧ t.diagnostics = found.2 ∧
      parseFrom o s = match found.1 with
        | .ok r => .ok r t
        | .error cause => .error (.parse cause) t := by
  have source := o.source_eq s
  unfold Origin.parsed
  cases h : o.find s.files with
  | ok found =>
    rw [h] at source
    rw [parseFrom, bind_of_ok source]
    exact parse_eq found s
  | error cause =>
    rw [h] at source
    rw [parseFrom, bind_of_error source]
    exact ⟨s, rfl, (List.append_nil _).symm, rfl⟩

/-- A parse gives the program that it gives by itself, unless something has been reported. -/
theorem parseFrom_ok_iff (o : Origin) (s : Session) (r : Program) :
    (∃ t, parseFrom o s = .ok r t) ↔ s.diagnostics = [] ∧ (o.parsed s.files).1 = .ok r := by
  obtain ⟨t, -, -, result⟩ := parseFrom_eq o s
  rw [result]
  rcases o.parsed_outcome s.files with ⟨r', h⟩ | ⟨d, ds, h⟩ | ⟨cause, h, -⟩
  · by_cases silent : s.diagnostics = []
    · simp [Grammar.following, h, silent]
    · simp [Grammar.following, h, silent]
  · simp [Grammar.following, h]
  · simp [Grammar.following, h]

/-- A parse that gives no program tells the first diagnostic of the list, or its text cannot be
read, when it adds nothing to the list. -/
theorem parseFrom_error {o : Origin} {e : SessionFailure} (h : parseFrom o s = .error e t) :
    (∃ d, e = .parse (.rejected (some d)) ∧ t.diagnostics.head? = some d) ∨
      ∃ cause, e = .parse (.input cause) ∧ o.Fails s.files cause ∧ (o.parsed s.files).2 = [] ∧
        t.diagnostics = s.diagnostics := by
  obtain ⟨u, -, list, result⟩ := parseFrom_eq o s
  rw [h] at result
  have told {all : List Diagnostic} (list : u.diagnostics = all) (loud : all ≠ [])
      (result : .error e t = (.error (.parse (.rejected all.head?)) u :
        EStateM.Result SessionFailure Session Program)) :
      ∃ d, e = .parse (.rejected (some d)) ∧ t.diagnostics.head? = some d := by
    obtain ⟨d, ds, rfl⟩ := List.exists_cons_of_ne_nil loud
    cases result
    exact ⟨d, rfl, by rw [list]; rfl⟩
  rcases o.parsed_outcome s.files with ⟨r, hp⟩ | ⟨d, ds, hp⟩ | ⟨cause, hp, fails⟩
  · simp only [Grammar.following, hp, List.append_nil] at list result
    by_cases silent : s.diagnostics = []
    · rw [if_pos silent] at result
      cases result
    · rw [if_neg silent] at result
      exact .inl (told list silent result)
  · simp only [Grammar.following, hp] at list result
    exact .inl (told list (by simp) result)
  · simp only [Grammar.following, hp, List.append_nil] at list result
    cases result
    exact .inr ⟨cause, rfl, fails, by rw [hp], list⟩

theorem stateOf_tokenizeFrom (o : Origin) (s : Session) :
    (stateOf (tokenizeFrom o s)).files = s.files ∧
      (stateOf (tokenizeFrom o s)).diagnostics = s.diagnostics ++ o.faults s.files := by
  have source := o.source_eq s
  unfold Origin.faults
  cases h : o.find s.files with
  | ok found =>
    rw [h] at source
    obtain ⟨t, files, reported, result⟩ := tokenizeSource_eq found s
    rw [tokenizeFrom, bind_of_ok source, result]
    split
    · exact ⟨files, reported⟩
    · exact ⟨files, reported⟩
  | error cause =>
    rw [h] at source
    rw [tokenizeFrom, bind_of_error source]
    exact ⟨rfl, (List.append_nil _).symm⟩

/-! ## operations -/

inductive Operation where
  | parse (o : Origin)
  | tokenize (o : Origin)
  | register (d : Diagnostic)
  | clear

namespace Operation

def act : Operation → SessionM Unit
  | parse o => do let _ ← parseFrom o
  | tokenize o => do let _ ← tokenizeFrom o
  | register d => Session.register [d]
  | clear => Session.clear

def isClear : Operation → Bool
  | clear => true
  | _ => false

/-- The session after an operation, whatever that came to. -/
def perform (s : Session) (op : Operation) : Session :=
  stateOf (op.act s)

/-- What an operation reports in a session in which nothing else is done. -/
def alone (files : Files) (op : Operation) : List Diagnostic :=
  (perform { files } op).diagnostics

/-- The operations after the last one that cleared the list. -/
def sinceClear (ops : List Operation) : List Operation :=
  ops.rtakeWhile fun op => !op.isClear

theorem stateOf_discard {α : Type} (x : SessionM α) (s : Session) :
    stateOf ((do let _ ← x : SessionM Unit) s) = stateOf (x s) := by
  cases h : x s with
  | ok a t =>
    rw [bind_of_ok h]
    rfl
  | error e t =>
    rw [bind_of_error h]
    rfl

/-- What an operation adds to the list, unless it clears it. -/
def adds (files : Files) : Operation → List Diagnostic
  | parse o => (o.parsed files).2
  | tokenize o => o.faults files
  | register d => [d]
  | clear => []

theorem perform_eq (op : Operation) (s : Session) : (perform s op).files = s.files ∧
    (perform s op).diagnostics = if op.isClear then [] else s.diagnostics ++ op.adds s.files := by
  cases op with
  | parse o =>
    obtain ⟨t, files, diagnostics, result⟩ := parseFrom_eq o s
    have left : perform s (.parse o) = t := by
      rw [perform, act, stateOf_discard, result]
      split <;> rfl
    rw [left]
    exact ⟨files, diagnostics⟩
  | tokenize o =>
    rw [perform, act, stateOf_discard]
    exact stateOf_tokenizeFrom o s
  | register d => exact ⟨rfl, rfl⟩
  | clear => exact ⟨rfl, rfl⟩

theorem alone_eq (files : Files) (op : Operation) : op.alone files = op.adds files := by
  rw [alone, (perform_eq op _).2]
  cases op <;> rfl

/-- The list after operations in a row, whatever each came to. -/
theorem foldl_perform (files : Files) (ops : List Operation) :
    (ops.foldl perform { files }).files = files ∧
      (ops.foldl perform { files }).diagnostics = (sinceClear ops).flatMap (alone files) := by
  induction ops using List.reverseRecOn with
  | nil => exact ⟨rfl, rfl⟩
  | append_singleton ops op ih =>
    obtain ⟨same, list⟩ := ih
    obtain ⟨kept, added⟩ := perform_eq op (ops.foldl perform { files })
    rw [List.foldl_concat, sinceClear]
    refine ⟨kept.trans same, added.trans ?_⟩
    cases hc : op.isClear with
    | true => rw [List.rtakeWhile_concat_neg _ _ _ (by simp [hc]), if_pos rfl, List.flatMap_nil]
    | false =>
      rw [List.rtakeWhile_concat_pos _ _ _ (by simp [hc]), if_neg nofun, List.flatMap_append,
        List.flatMap_singleton, alone_eq, same, list]
      rfl

/-- What an operation makes of one parser that is used for every parse. -/
def reuse (files : Files) (p : Parser) : Operation → Parser
  | parse o => match o.find files with
    | .ok source => stateOf (Grammar.parse (p.turnTo source))
    | .error _ => p
  | tokenize o => { p with diagnostics := p.diagnostics ++ o.faults files }
  | register d => p.register d
  | clear => { p with diagnostics := [] }

theorem diagnostics_reuse (files : Files) (p : Parser) (op : Operation) :
    (op.reuse files p).diagnostics =
      if op.isClear then [] else p.diagnostics ++ op.adds files := by
  cases op with
  | parse o =>
    show (match o.find files with
      | .ok source => stateOf (Grammar.parse (p.turnTo source))
      | .error _ => p).diagnostics = p.diagnostics ++ (o.parsed files).2
    unfold Origin.parsed
    cases o.find files with
    | ok source =>
      have seen := congrArg Prod.snd (Grammar.outcome_turnTo p source)
      rwa [Grammar.snd_outcome] at seen
    | error cause => exact (List.append_nil _).symm
  | tokenize o => rfl
  | register d => rfl
  | clear => rfl

/-- One parser for all parses keeps the list as new ones do. -/
theorem foldl_reuse (files : Files) (ops : List Operation) (p : Parser) (s : Session)
    (same : s.files = files) (list : p.diagnostics = s.diagnostics) :
    (ops.foldl (reuse files) p).diagnostics = (ops.foldl perform s).diagnostics := by
  induction ops generalizing p s with
  | nil => exact list
  | cons op ops ih =>
    obtain ⟨kept, added⟩ := perform_eq op s
    refine ih _ _ (kept.trans same) ?_
    rw [diagnostics_reuse, added, list, same]

end Operation

open Operation

/-- Operations in a row in one session, whatever each comes to. The list holds what each of them
reports by itself, since it was last cleared. A parse gives a program just if it gives it by itself
and the list is empty. Else it tells the first diagnostic of the list, or its text cannot be read,
when it adds nothing. All this holds too if one parser is used for every parse. -/
theorem history_independent (files : Files) (ops : List Operation) (o : Origin) :
    let s := ops.foldl perform { files }
    s.diagnostics = (sinceClear ops).flatMap (alone files) ∧
    (∀ r, (∃ t, parseFrom o s = .ok r t) ↔
      s.diagnostics = [] ∧ ∃ t, parseFrom o { files } = .ok r t) ∧
    (∀ e t, parseFrom o s = .error e t →
      (∃ d, e = .parse (.rejected (some d)) ∧ t.diagnostics.head? = some d ∧
        Diagnostic.summary (some d) = d.text) ∨
      ∃ cause, e = .parse (.input cause) ∧ o.Fails files cause ∧
        (Operation.parse o).alone files = [] ∧ t.diagnostics = s.diagnostics) ∧
    ∀ p : Parser,
      let p := ops.foldl (reuse files) { p with diagnostics := [] }
      p.diagnostics = s.diagnostics ∧ ∀ source : Source,
        Grammar.outcome (Grammar.parse (p.turnTo source)) =
          Grammar.outcome (source.parse s.diagnostics) := by
  intro s
  obtain ⟨same, list⟩ := foldl_perform files ops
  refine ⟨list, fun r => ?_, fun e t h => ?_, ?_⟩
  · rw [parseFrom_ok_iff, parseFrom_ok_iff, same]
    simp
  · rcases parseFrom_error h with ⟨d, he, first⟩ | ⟨cause, he, fails, none, left⟩
    · exact .inl ⟨d, he, first, rfl⟩
    · rw [same] at fails none
      exact .inr ⟨cause, he, fails, (alone_eq files _).trans none, left⟩
  · intro p p'
    have held : p'.diagnostics = s.diagnostics := foldl_reuse files ops _ _ rfl rfl
    refine ⟨held, fun source => ?_⟩
    rw [Grammar.outcome_turnTo, held]
    exact (source.parse_following s.diagnostics).symm

end Session
end BantamSyntax
