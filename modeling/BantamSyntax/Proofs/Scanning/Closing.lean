import BantamSyntax.Input.Files
import BantamSyntax.Proofs.Scanning.Encoding
import BantamSyntax.Proofs.Scanning.Normalization

/-!
# Closed files

A file may be closed at any moment. What was handed out by then and what is left in the buffer are
the beginning of its text, and the end of the input is never met in place of what was not read.
-/
namespace BantamSyntax

/-- What a call for the next character gives. -/
abbrev Answer := Except InputFailure (Option Char)

/-- The characters among the answers. -/
def Answer.chars (answers : List Answer) : List Char :=
  answers.filterMap fun
    | .ok c => c
    | .error _ => none

/-- Whether a source owns what it reads from, and whether it has closed that. -/
structure Custody where
  owned : Bool
  closed : Bool
  deriving DecidableEq

/-- Only what is owned can be closed. -/
def Custody.close (c : Custody) : Custody :=
  { c with closed := c.closed || c.owned }

namespace Source

def custody (s : Source) : Custody :=
  ⟨s.owned, s.closed⟩

/-! ## uses -/

/-- What is done with a source. -/
inductive Use where
  | next
  | close

def Use.answer : Use → Source → Option Answer
  | next, s => match s.next with
    | .ok c _ => some (.ok c)
    | .error cause _ => some (.error cause)
  | close, _ => none

def Use.after : Use → Source → Source
  | next, s => match s.next with
    | .ok _ t => t
    | .error _ t => t
  | close, s => s.close

/-- The source after all uses. -/
def used (uses : List Use) (s : Source) : Source :=
  uses.foldl (fun s use => use.after s) s

/-- What the calls among the uses give, in order. -/
def answers : List Use → Source → List Answer
  | [], _ => []
  | use :: uses, s => (use.answer s).toList ++ answers uses (use.after s)

variable {s t : Source} {uses : List Use} {c : Char}

/-! ## what calls keep -/

/-- An action that leaves the custody of what a source reads as it was, also if it fails. -/
structure Keeping {α : Type} (x : SourceM α) : Prop where
  ok : ∀ {s t a}, x s = .ok a t → t.custody = s.custody
  error : ∀ {s t e}, x s = .error e t → t.custody = s.custody

theorem Keeping.bind {α β : Type} {x : SourceM α} {f : α → SourceM β} (hx : Keeping x)
    (hf : ∀ a, Keeping (f a)) : Keeping (x >>= f) where
  ok h := by
    obtain ⟨a, t, ha, h⟩ := bind_eq_ok.1 h
    exact ((hf a).ok h).trans (hx.ok ha)
  error h := by
    rcases bind_eq_error.1 h with h | ⟨a, t, ha, h⟩
    · exact hx.error h
    · exact ((hf a).error h).trans (hx.ok ha)

theorem keeping_modifyGet {α : Type} {g : Source → α × Source}
    (h : ∀ s, (g s).2.custody = s.custody) : Keeping (modifyGet g : SourceM α) where
  ok {s t a} e := by
    have kept := h s
    rwa [modifyGet_eq_ok.1 e] at kept
  error e := absurd e modifyGet_ne_error

theorem keeping_pure {α : Type} (a : α) : Keeping (pure a : SourceM α) where
  ok h := by
    obtain ⟨-, rfl⟩ := pure_eq_ok.1 h
    rfl
  error h := absurd h pure_ne_error

theorem keeping_fill : Keeping fill := by
  constructor
  all_goals
    intros
    rename_i h
    unfold fill at h
    repeat' split at h
    all_goals cases h
    all_goals rfl

theorem keeping_skipLineFeed : Keeping skipLineFeed :=
  keeping_fill.bind fun _ => keeping_modifyGet fun s => by dsimp only; split <;> rfl

theorem keeping_newline : Keeping newline :=
  keeping_modifyGet fun _ => rfl

theorem keeping_next : Keeping next := by
  have read : Keeping read := keeping_fill.bind fun _ => keeping_modifyGet fun _ => rfl
  refine read.bind fun c => ?_
  split
  · exact keeping_skipLineFeed.bind fun _ => keeping_newline
  · exact keeping_newline
  · exact keeping_pure c

/-! ## single calls -/

/-- No read fails before the source is closed. -/
structure Sound (s : Source) : Prop where
  free : s.reader.stuck = none
  pieces : ∀ r ∈ s.reader.readings, r.isPiece = true

/-- The source was closed before it met the end of the input. -/
structure Shut (s : Source) : Prop where
  closed : s.closed = true
  unended : s.ended = false

/-- Nothing is left in the buffer of a source that is shut. -/
structure Spent (s : Source) : Prop extends s.Shut where
  empty : s.buffer = []

theorem fill_of_buffer (h : s.buffer ≠ []) : fill s = .ok () s :=
  if_pos (.inl h)

theorem read_of_buffer {cs : List Char} (h : s.buffer = c :: cs) :
    read s = .ok (some c) { s with buffer := cs } := by
  have taken : read s = .ok s.buffer.head? { s with buffer := s.buffer.tail } :=
    bind_of_ok (fill_of_buffer (by simp [h]))
  rw [taken, h, List.head?_cons, List.tail_cons]

theorem pending_of_buffer {cs : List Char} (h : s.buffer = c :: cs) :
    s.pending = c :: pending { s with buffer := cs } := by
  simp [pending, h]

theorem next_of_char {cs : List Char} (h : s.buffer = c :: cs) (other : c ≠ '\r') :
    ∃ line, next s = .ok (some c) { s with buffer := cs, line } := by
  by_cases newline : c = '\n'
  · subst newline
    exact ⟨s.line + 1, bind_of_ok (read_of_buffer h)⟩
  · refine ⟨s.line, (bind_of_ok (read_of_buffer h)).trans ?_⟩
    simp [other, newline, pure, EStateM.pure]

theorem Spent.fill (h : s.Spent) : fill s = .error .closed s := by
  simp [Source.fill, h.closed, h.unended, h.empty]

theorem Spent.next (h : s.Spent) : next s = .error .closed s :=
  bind_of_error (bind_of_error h.fill)

theorem next_of_return {cs : List Char} (h : s.buffer = '\r' :: cs)
    (filled : fill { s with buffer := cs } = .ok () { s with buffer := cs }) :
    next s = .ok (some '\n') { s with
      buffer := if cs.head? = some '\n' then cs.tail else cs, line := s.line + 1 } := by
  have skipped : skipLineFeed { s with buffer := cs } = .ok ()
      (if cs.head? = some '\n' then { s with buffer := cs.tail } else { s with buffer := cs }) :=
    bind_of_ok filled
  have called : next s = newline
      (if cs.head? = some '\n' then { s with buffer := cs.tail } else { s with buffer := cs }) :=
    (bind_of_ok (read_of_buffer h)).trans (bind_of_ok skipped)
  rw [called]
  split <;> rfl

/-- A closed source has only its buffer to hand out. It then fails, unless the end was met before. A
CR that is the last character left is lost, since a line feed may have followed it. -/
theorem next_closed (closed : s.closed = true) :
    (s.pending = [] ∧ s.ended = true ∧ next s = .ok none s) ∨
      (∃ c cs line, next s = .ok (some c) { s with buffer := cs, line } ∧
        cs.length < s.buffer.length ∧
        normalize s.pending = c :: normalize (pending { s with buffer := cs, line })) ∨
      next s = .error .closed { s with buffer := [] } ∧ s.ended = false := by
  cases hb : s.buffer with
  | nil =>
    by_cases he : s.ended = true
    · exact .inl ⟨by simp [pending, hb, he], he, next_ended hb he⟩
    · have spent : s.Spent := ⟨⟨closed, by simpa using he⟩, hb⟩
      exact .inr (.inr ⟨by rw [spent.next, ← hb], spent.unended⟩)
  | cons c cs =>
    have text := pending_of_buffer hb
    by_cases hc : c ≠ '\r'
    · obtain ⟨line, hn⟩ := next_of_char hb hc
      exact .inr (.inl ⟨c, cs, line, hn, by simp, by rw [text, normalize_cons hc]; rfl⟩)
    obtain rfl : c = '\r' := Decidable.not_not.1 hc
    cases cs with
    | nil =>
      by_cases he : s.ended = true
      · refine .inr (.inl ⟨_, _, _, next_of_return hb (if_pos (.inr he)), by simp, ?_⟩)
        simp [pending, hb, he, normalize]
      · have spent : Spent { s with buffer := [] } := ⟨⟨closed, by simpa using he⟩, rfl⟩
        have failed : skipLineFeed { s with buffer := [] } = .error .closed _ :=
          bind_of_error spent.fill
        exact .inr (.inr ⟨(bind_of_ok (read_of_buffer hb)).trans (bind_of_error failed),
          spent.unended⟩)
    | cons d ds =>
      refine .inr (.inl ⟨_, _, _, next_of_return hb (fill_of_buffer (by simp)), ?_, ?_⟩)
      · split <;> simp only [List.tail_cons, List.length_cons] <;> omega
      · by_cases feed : d = '\n'
        · subst feed
          simp [pending, hb]
        · rw [text, normalize_return (by simp [pending, feed])]
          simp [pending, feed]

/-- One call hands out the next character of the normal form, or meets its end, or spends a source
that was closed. -/
theorem Sound.next (h : s.Sound) :
    (∃ t, next s = .ok none t ∧ t.Sound ∧ normalize s.pending = [] ∧ normalize t.pending = []) ∨
      (∃ c t, next s = .ok (some c) t ∧ t.Sound ∧
        normalize s.pending = c :: normalize t.pending) ∨
      ∃ t, next s = .error .closed t ∧ t.Spent := by
  by_cases closed : s.closed = true
  · rcases next_closed closed with ⟨ends, -, hn⟩ | ⟨c, cs, line, hn, -, text⟩ | ⟨hn, unended⟩
    · exact .inl ⟨s, hn, h, by rw [ends]; rfl, by rw [ends]; rfl⟩
    · exact .inr (.inl ⟨c, _, hn, ⟨h.free, h.pieces⟩, text⟩)
    · exact .inr (.inr ⟨_, hn, ⟨closed, unended⟩, rfl⟩)
  · have gives : s.Gives (normalize s.pending) s.line :=
      ⟨⟨by simpa using closed, h.free, h.pieces⟩, rfl, rfl⟩
    obtain ⟨t, hn, readable, text, -⟩ := next_gives gives
    have sound : t.Sound := ⟨readable.free, readable.pieces⟩
    cases hs : normalize s.pending with
    | nil => exact .inl ⟨t, by rw [hn, hs]; rfl, sound, rfl, by rw [text, hs]; rfl⟩
    | cons c cs => exact .inr (.inl ⟨c, t, by rw [hn, hs]; rfl, sound, by rw [text, hs]; rfl⟩)

/-! ## all uses -/

variable {r : Option Char} {cause : InputFailure}

theorem answers_of_ok (h : next s = .ok r t) (uses : List Use) :
    s.answers (.next :: uses) = .ok r :: t.answers uses ∧ s.used (.next :: uses) = t.used uses := by
  simp [answers, used, Use.answer, Use.after, h]

theorem answers_of_error (h : next s = .error cause t) (uses : List Use) :
    s.answers (.next :: uses) = .error cause :: t.answers uses ∧
      s.used (.next :: uses) = t.used uses := by
  simp [answers, used, Use.answer, Use.after, h]

theorem answers_of_close : s.answers (.close :: uses) = s.close.answers uses ∧
    s.used (.close :: uses) = s.close.used uses :=
  ⟨rfl, rfl⟩

@[simp] theorem chars_ok_some {answers : List Answer} :
    Answer.chars (.ok (some c) :: answers) = c :: Answer.chars answers := rfl

@[simp] theorem chars_ok_none {answers : List Answer} :
    Answer.chars (.ok none :: answers) = Answer.chars answers := rfl

@[simp] theorem chars_error {answers : List Answer} :
    Answer.chars (.error cause :: answers) = Answer.chars answers := rfl

theorem Spent.close (h : s.Spent) : s.close = s := by
  rw [Source.close, h.closed, Bool.true_or, ← h.closed]

/-- A spent source stays as it is and only fails. -/
theorem Spent.answers (h : s.Spent) (uses : List Use) :
    (∀ a ∈ s.answers uses, a = .error .closed) ∧ s.used uses = s := by
  induction uses with
  | nil => exact ⟨nofun, rfl⟩
  | cons use uses ih =>
    cases use with
    | next =>
      obtain ⟨given, after⟩ := answers_of_error h.next uses
      rw [given, after]
      exact ⟨List.forall_mem_cons.2 ⟨rfl, ih.1⟩, ih.2⟩
    | close => rwa [answers_of_close.1, answers_of_close.2, h.close]

theorem chars_of_failures {answers : List Answer} (h : ∀ a ∈ answers, a = .error .closed) :
    Answer.chars answers = [] := by
  simp only [Answer.chars, List.filterMap_eq_nil_iff]
  rintro a ha
  rw [h a ha]

/-- Whenever the end is met, all characters were handed out before. -/
theorem Sound.answers (h : s.Sound) (uses : List Use) :
    Answer.chars (s.answers uses) <+: normalize s.pending ∧
      ∀ t, (s.used uses).next = .ok none t →
        Answer.chars (s.answers uses) = normalize s.pending := by
  induction uses generalizing s with
  | nil =>
    refine ⟨List.nil_prefix, fun t ends => ?_⟩
    rcases h.next with ⟨_, -, -, text, -⟩ | ⟨_, _, hn, -⟩ | ⟨_, hn, -⟩
    · exact text.symm
    · cases hn.symm.trans ends
    · cases hn.symm.trans ends
  | cons use uses ih =>
    cases use with
    | close =>
      have closed : s.close.Sound := ⟨h.free, h.pieces⟩
      exact ih closed
    | next =>
      rcases h.next with ⟨t, hn, sound, text, rest⟩ | ⟨c, t, hn, sound, text⟩ | ⟨t, hn, spent⟩
      · obtain ⟨given, after⟩ := answers_of_ok hn uses
        rw [given, after, text, ← rest]
        exact ih sound
      · obtain ⟨given, after⟩ := answers_of_ok hn uses
        rw [given, after, text, chars_ok_some, List.cons_prefix_cons]
        exact ⟨⟨rfl, (ih sound).1⟩, fun u ends => by rw [(ih sound).2 u ends]⟩
      · obtain ⟨given, after⟩ := answers_of_error hn uses
        obtain ⟨failures, same⟩ := spent.answers uses
        rw [given, after, same, chars_error, chars_of_failures failures]
        exact ⟨List.nil_prefix, fun u ends => by cases spent.next.symm.trans ends⟩

theorem Shut.after (h : s.Shut) (use : Use) : (use.after s).Shut := by
  cases use with
  | close => exact ⟨by simp [Use.after, Source.close, h.closed], h.unended⟩
  | next =>
    rcases next_closed h.closed with ⟨-, ended, -⟩ | ⟨c, cs, line, hn, -⟩ | ⟨hn, -⟩
    · cases h.unended.symm.trans ended
    · simp only [Use.after, hn]
      exact ⟨h.closed, h.unended⟩
    · simp only [Use.after, hn]
      exact ⟨h.closed, h.unended⟩

theorem Shut.used (h : s.Shut) (uses : List Use) : (s.used uses).Shut := by
  induction uses generalizing s with
  | nil => exact h
  | cons use uses ih => exact ih (h.after use)

/-- A source that is shut hands out what its buffer holds, and then only fails. -/
theorem Shut.answers (h : s.Shut) (uses : List Use) :
    ∃ (cs : List Char) (failures : List Answer),
      s.answers uses = cs.map (fun c => .ok (some c)) ++ failures ∧
        cs.length ≤ s.buffer.length ∧ ∀ a ∈ failures, a = .error .closed := by
  induction uses generalizing s with
  | nil => exact ⟨[], [], rfl, Nat.zero_le _, nofun⟩
  | cons use uses ih =>
    cases use with
    | close => exact ih (h.after .close)
    | next =>
      rcases next_closed h.closed with ⟨-, ended, -⟩ | ⟨c, cs, line, hn, shorter, -⟩ | ⟨hn, -⟩
      · cases h.unended.symm.trans ended
      · have left : Shut { s with buffer := cs, line } := ⟨h.closed, h.unended⟩
        obtain ⟨ds, failures, given, short, failing⟩ := ih left
        refine ⟨c :: ds, failures, ?_, Nat.le_trans (Nat.succ_le_succ short) shorter, failing⟩
        rw [(answers_of_ok hn uses).1, given]
        rfl
      · have spent : Spent { s with buffer := [] } := ⟨⟨h.closed, h.unended⟩, rfl⟩
        refine ⟨[], _, (answers_of_error hn uses).1, Nat.zero_le _, ?_⟩
        exact List.forall_mem_cons.2 ⟨rfl, (spent.answers uses).1⟩

/-! ## files -/

theorem Use.owned_after (use : Use) (s : Source) : (use.after s).owned = s.owned := by
  cases use with
  | close => rfl
  | next =>
    cases h : s.next with
    | ok c t =>
      rw [after, h]
      exact congrArg Custody.owned (keeping_next.ok h)
    | error cause t =>
      rw [after, h]
      exact congrArg Custody.owned (keeping_next.error h)

theorem owned_used (uses : List Use) (s : Source) : (s.used uses).owned = s.owned := by
  induction uses generalizing s with
  | nil => rfl
  | cons use uses ih => exact (ih _).trans (use.owned_after s)

end Source

open Source

/-- A file that holds a text is opened as a source of that text which owns what it reads from. -/
theorem Files.open_eq {files : Files} {name text : String} {bytes : List UInt8} {s : Source}
    (opened : files.open name = .ok s) (contents : files.find name = .ok bytes)
    (decoded : Utf8.decode bytes = .ok text.toList) :
    s = { Source.ofText text name with owned := true } := by
  have reader : Reader.ofBytes bytes = .ofText text.toList := by rw [Reader.ofBytes, decoded]
  unfold Files.open at opened
  split at opened
  · rw [contents] at opened
    cases opened
    rw [reader]
    rfl
  · cases opened

/-- However calls and closings of a file alternate: what the calls gave is the beginning of its
normal form, and all of it where the end is met. If the file is closed before the source has met the
end, the calls give the characters still in the buffer and then fail, each of them. -/
theorem no_false_end {files : Files} {name text : String} {s : Source}
    (opened : files.open name = .ok s) (contents : files.find name = .ok text.toUTF8.data.toList)
    (uses : List Use) :
    Answer.chars (s.answers uses) <+: normalize text.toList ∧
      (∀ t, (s.used uses).next = .ok none t →
        Answer.chars (s.answers uses) = normalize text.toList) ∧
      ((s.used uses).ended = false → ∀ later : List Use,
        (∃ (cs : List Char) (failures : List Answer),
          (s.used uses).close.answers later = cs.map (fun c => .ok (some c)) ++ failures ∧
            cs.length ≤ (s.used uses).buffer.length ∧ ∀ a ∈ failures, a = .error .closed) ∧
        (((s.used uses).close.used later).buffer = [] → ∀ last : List Use,
          ∀ a ∈ ((s.used uses).close.used later).answers last, a = .error .closed)) := by
  have source := Files.open_eq opened contents (Utf8.decode_toUTF8 text)
  obtain ⟨readable, pending, -⟩ := ofText_gives text name
  have sound : s.Sound := source ▸ ⟨readable.free, readable.pieces⟩
  have owned : s.owned = true := source ▸ rfl
  obtain ⟨given, whole⟩ := sound.answers uses
  rw [show normalize s.pending = normalize text.toList from source ▸ pending] at given whole
  refine ⟨given, whole, fun unended later => ?_⟩
  have shut : (s.used uses).close.Shut := ⟨by simp [Source.close, owned_used, owned], unended⟩
  refine ⟨shut.answers later, fun empty last => ?_⟩
  have spent : ((s.used uses).close.used later).Spent := ⟨shut.used later, empty⟩
  exact (spent.answers last).1

/-- The second character was in the buffer when the file was closed; the end is not met. -/
theorem closed_after_first_call :
    let files : Files := { find := fun _ => .ok "ab".toUTF8.data.toList }
    ∃ s, files.open "f" = .ok s ∧ (s.used [.next]).ended = false ∧
      (s.used [.next]).close.answers [.next, .next] = [.ok (some 'b'), .error .closed] ∧
      Answer.chars (s.answers [.next]) <+: normalize "ab".toList ∧
      ∀ a ∈ ((s.used [.next]).close.used [.next]).answers [.next, .close, .next],
        a = .error .closed := by
  intro files
  have reader : Reader.ofBytes "ab".toUTF8.data.toList = ⟨[.piece ['a', 'b']], none⟩ := by
    rw [Reader.ofBytes, Utf8.decode_toUTF8]
    simp [Reader.ofText, Reader.pieces, Reader.pieceSize]
  have opened : files.open "f" = .ok
      { name := "f", reader := ⟨[.piece ['a', 'b']], none⟩, owned := true } := by
    rw [← reader]
    rfl
  obtain ⟨given, -, cut⟩ := no_false_end opened rfl [.next]
  exact ⟨_, opened, rfl, rfl, given, (cut rfl [.next]).2 rfl _⟩

end BantamSyntax
