import BantamSyntax.Grammar.Parse
import BantamSyntax.Proofs.Scanning.Signals

/-!
# Normalised text

A source that never fails hands out the text behind it with all line ends made newlines, however
the text is cut into pieces, and counts the newlines that it has handed out.
-/
namespace BantamSyntax

/-- The text with each CR LF, CR and LF as one newline. -/
def normalize : List Char → List Char
  | [] => []
  | '\r' :: '\n' :: cs => '\n' :: normalize cs
  | c :: cs => (if c = '\r' then '\n' else c) :: normalize cs

@[simp] theorem normalize_nil : normalize [] = [] := rfl

@[simp] theorem normalize_return_feed {cs : List Char} :
    normalize ('\r' :: '\n' :: cs) = '\n' :: normalize cs := by
  simp [normalize]

theorem normalize_return {cs : List Char} (h : cs.head? ≠ some '\n') :
    normalize ('\r' :: cs) = '\n' :: normalize cs := by
  cases cs with
  | nil => simp [normalize]
  | cons c cs => rw [normalize.eq_3] <;> simp_all

theorem normalize_cons {c : Char} {cs : List Char} (h : c ≠ '\r') :
    normalize (c :: cs) = c :: normalize cs := by
  rw [normalize.eq_3] <;> simp_all

theorem return_notMem_normalize (cs : List Char) : '\r' ∉ normalize cs := by
  fun_induction normalize cs with
  | case1 => simp
  | case2 cs ih => simpa using ih
  | case3 c cs _ ih =>
    simp only [List.mem_cons, not_or]
    refine ⟨?_, ih⟩
    split
    · decide
    · exact Ne.symm ‹_›

/-- A text without CR is its own normal form. -/
theorem normalize_eq_self {cs : List Char} (h : '\r' ∉ cs) : normalize cs = cs := by
  induction cs with
  | nil => rfl
  | cons c cs ih =>
    simp only [List.mem_cons, not_or] at h
    rw [normalize_cons (Ne.symm h.1), ih h.2]

theorem return_notMem_intercalate {texts : List String} (h : ∀ s ∈ texts, '\r' ∉ s.toList) :
    '\r' ∉ ("\n".intercalate texts).toList := by
  induction texts with
  | nil => simp
  | cons s texts ih =>
    obtain ⟨first, rest⟩ := List.forall_mem_cons.1 h
    cases texts with
    | nil => simpa using first
    | cons t texts =>
      simp only [String.intercalate_cons_cons, String.toList_append, List.mem_append, not_or]
      exact ⟨⟨first, by decide⟩, ih rest⟩

/-! ## normal forms of signals -/

namespace Signal

variable {xs : List Signal} {cs : List Char} {c : Char}

/-- No CR that ends the text is lost or joined with a line feed. -/
def Separate (cs : List Char) (xs : List Signal) : Prop :=
  cs.getLast? = some '\r' → ∀ x ∈ xs.head?, ∃ c, x = .ok c ∧ c ≠ '\n'

theorem Separate.tail (h : Separate (c :: cs) xs) : Separate cs xs := fun last =>
  h (by cases cs with
    | nil => cases last
    | cons d ds => rwa [List.getLast?_cons_cons])

/-- A text comes to its normal form, whatever follows. -/
theorem outcomes_text (h : Separate cs xs) :
    outcomes (cs.map .ok ++ xs) = (normalize cs).map .ok ++ outcomes xs := by
  fun_induction normalize cs with
  | case1 => rfl
  | case2 cs ih => simpa [outcomes_return_feed] using ih h.tail.tail
  | case3 c cs other ih =>
    rw [List.map_cons, List.cons_append, List.map_cons, List.cons_append, ← ih h.tail]
    by_cases hc : c = '\r'
    · subst hc
      rw [if_pos rfl, outcomes_return]
      cases cs with
      | nil => exact h rfl
      | cons d ds =>
        rintro x ⟨⟩
        exact ⟨d, rfl, fun hd => other ds rfl (hd ▸ rfl)⟩
    · rw [if_neg hc, outcomes_char hc]

theorem outcomes_map_ok (cs : List Char) : outcomes (cs.map .ok) = (normalize cs).map .ok := by
  have apart : Separate cs [] := by simp [Separate]
  simpa [outcomes] using outcomes_text apart

end Signal

/-! ## text behind a source -/

/-- The characters that readings give before an empty piece or a failure. -/
def Reading.text : List Reading → List Char
  | .piece (c :: cs) :: rest => c :: cs ++ text rest
  | _ => []

/-- A reading that does not fail. -/
def Reading.isPiece : Reading → Bool
  | .piece _ => true
  | .failure _ => false

namespace Source

/-- The characters that are still to be handed out, line ends as they are. -/
def pending (s : Source) : List Char :=
  s.buffer ++ if s.ended then [] else Reading.text s.reader.readings

/-- No read fails. -/
structure Readable (s : Source) : Prop where
  opened : s.closed = false
  free : s.reader.stuck = none
  pieces : ∀ r ∈ s.reader.readings, r.isPiece = true

variable {s t : Source}

theorem signals_of_pieces {readings : List Reading} (h : ∀ r ∈ readings, r.isPiece = true) :
    Reading.signals readings = (Reading.text readings).map .ok := by
  fun_induction Reading.text readings with
  | case1 c cs rest ih =>
    rw [Reading.signals, ih fun r hr => h r (List.mem_cons_of_mem _ hr), List.map_append]
  | case2 readings other =>
    cases readings with
    | nil => rfl
    | cons r rest =>
      cases r with
      | failure => simp [Reading.isPiece] at h
      | piece text =>
        cases text with
        | nil => rfl
        | cons c cs => exact absurd rfl (other c cs rest)

/-- Nothing but characters is to come. -/
theorem Readable.signals_eq (h : s.Readable) : s.signals = s.pending.map .ok := by
  rw [signals, pending, signals_of_pieces h.pieces]
  split <;> simp

/-! ## readings left -/

theorem readings_of_fill (h : fill s = .ok () t) : t.reader.readings <:+ s.reader.readings := by
  unfold fill at h
  repeat' split at h
  all_goals cases h
  all_goals simp_all

theorem readings_of_read {c : Option Char} (h : read s = .ok c t) :
    t.reader.readings <:+ s.reader.readings := by
  obtain ⟨_, u, hf, h⟩ := bind_eq_ok.1 h
  have filled := readings_of_fill hf
  cases modifyGet_eq_ok.1 h
  exact filled

theorem readings_of_skipLineFeed (h : skipLineFeed s = .ok () t) :
    t.reader.readings <:+ s.reader.readings := by
  obtain ⟨_, u, hf, h⟩ := bind_eq_ok.1 h
  have filled := readings_of_fill hf
  cases modifyGet_eq_ok.1 h
  dsimp only
  split <;> exact filled

/-- A call takes readings off the front. -/
theorem readings_of_next {c : Option Char} (h : next s = .ok c t) :
    t.reader.readings <:+ s.reader.readings := by
  obtain ⟨d, u, hr, h⟩ := bind_eq_ok.1 h
  have first := readings_of_read hr
  split at h
  · obtain ⟨_, v, hk, h⟩ := bind_eq_ok.1 h
    cases modifyGet_eq_ok.1 h
    exact (readings_of_skipLineFeed hk).trans first
  · cases modifyGet_eq_ok.1 h
    exact first
  · obtain ⟨rfl, rfl⟩ := pure_eq_ok.1 h
    exact first

/-! ## the text handed out -/

/-- The source has `cs` to hand out, and has counted up to `line`. -/
structure Gives (s : Source) (cs : List Char) (line : Nat) : Prop where
  readable : s.Readable
  text : normalize s.pending = cs
  count : s.line = line

theorem next_gives {s : Source} {cs : List Char} {line : Nat} (h : s.Gives cs line) :
    ∃ t, next s = .ok cs.head? t ∧ t.Gives cs.tail (line + newlineAt cs.head?) := by
  obtain ⟨readable, rfl, rfl⟩ := h
  have held : s.Holds (s.pending.map .ok) s.line :=
    ⟨readable.opened, readable.free, readable.signals_eq, rfl⟩
  have after {c ys line t} (hn : next s = .ok c t) (ht : t.Holds ys line) :
      t.Readable ∧ ys = t.pending.map .ok := by
    have left : t.Readable :=
      ⟨ht.opened, ht.free, fun r hr => readable.pieces r ((readings_of_next hn).subset hr)⟩
    exact ⟨left, ht.signals_eq.symm.trans left.signals_eq⟩
  rcases next_holds held with ⟨cause, ys, t, hxs, -⟩ | ⟨c, ys, t, hxs, -, hn, ht⟩ |
    ⟨t, hxs, hn, ht, -⟩
  · rw [Signal.outcomes_map_ok] at hxs
    cases hc : normalize s.pending <;> simp [hc] at hxs
  · obtain ⟨left, rfl⟩ := after hn ht
    rw [Signal.outcomes_map_ok, Signal.outcomes_map_ok] at hxs
    have given : normalize s.pending = c :: normalize t.pending :=
      (List.map_inj_right fun _ _ h => by injection h).1 hxs
    rw [given]
    exact ⟨t, hn, left, rfl, ht.count⟩
  · obtain ⟨left, ended⟩ := after hn ht
    rw [List.map_eq_nil_iff.1 hxs]
    refine ⟨t, hn, left, ?_, ht.count⟩
    rw [List.map_eq_nil_iff.1 ended.symm]
    rfl

/-! ## sources of whole texts -/

theorem text_pieces (cs : List Char) : Reading.text ((Reader.pieces cs).map .piece) = cs := by
  fun_induction Reader.pieces cs with
  | case1 => rfl
  | case2 cs h ih =>
    cases cs with
    | nil => exact absurd rfl h
    | cons c cs =>
      simp only [List.map_cons]
      have : List.take Reader.pieceSize (c :: cs) = c :: List.take 4095 cs := rfl
      rw [this, Reading.text, ih, ← this, List.take_append_drop]

theorem ofText_gives (text name : String) :
    (Source.ofText text name).Gives (normalize text.toList) 1 where
  readable := ⟨rfl, rfl, by simp [ofText, Reader.ofText, Reading.isPiece]⟩
  text := by simp [ofText, Reader.ofText, pending, text_pieces]
  count := rfl

end Source
end BantamSyntax
