import BantamSyntax.Input.Delivery
import BantamSyntax.Proofs.Scanning.Normalization

/-!
# Delivered characters

The calls on a source deliver its text with all line ends made newlines, however reads cut it, and
fail once for each read that fails. A failed read costs at most the CR that came right before it.
-/
namespace BantamSyntax

/-! ## what the calls come to -/

namespace Signal

@[simp] def chars : List Signal → List Char
  | [] => []
  | .ok c :: xs => c :: chars xs
  | .error _ :: xs => chars xs

@[simp] def failures : List Signal → List InputFailure
  | [] => []
  | .ok _ :: xs => failures xs
  | .error cause :: xs => cause :: failures xs

variable {xs : List Signal} {cs : List Char}

@[simp] theorem chars_text : chars (cs.map .ok ++ xs) = cs ++ chars xs := by
  induction cs with
  | nil => rfl
  | cons c cs ih => simp [ih]

@[simp] theorem failures_text : failures (cs.map .ok ++ xs) = failures xs := by
  induction cs with
  | nil => rfl
  | cons c cs ih => simp [ih]

theorem eq_chars (h : failures xs = []) : xs = (chars xs).map .ok := by
  induction xs with
  | nil => rfl
  | cons x xs ih =>
    cases x with
    | ok c => simpa using ih h
    | error cause => cases h

theorem failures_outcomes : failures (outcomes xs) = failures xs := by
  fun_induction outcomes xs with
  | case1 => rfl
  | case2 xs ih | case3 cause xs ih | case4 xs _ _ ih => simpa using ih
  | case5 x xs _ _ _ ih => cases x <;> simpa using ih

end Signal

namespace Reading

open Signal

/-- What readings give before the end, after `held`, in pieces: it is cut at each CR that was the
last character before a failure, and that CR is left out. -/
def stretches (held : List Char) : List Reading → List (List Char)
  | .piece (c :: cs) :: rest => stretches (held ++ c :: cs) rest
  | .failure _ :: rest =>
    if held.getLast? = some '\r' then held.dropLast :: stretches [] rest else stretches held rest
  | _ => [held]

variable {held : List Char} {readings : List Reading}

theorem stretches_ne_nil : stretches held readings ≠ [] := by
  fun_induction stretches held readings <;> simp_all

/-- Only the CRs that it is cut at are left out of the text. -/
theorem intercalate_stretches :
    ['\r'].intercalate (stretches held readings) = held ++ chars (signals readings) := by
  fun_induction stretches held readings with
  | case1 held c cs rest ih => simp [ih, signals]
  | case2 held cause rest last ih =>
    obtain ⟨ds, rfl⟩ := List.getLast?_eq_some_iff.1 last
    obtain ⟨first, others, hs⟩ := List.exists_cons_of_ne_nil (@stretches_ne_nil [] rest)
    rw [List.dropLast_concat, hs, List.intercalate_cons_cons, ← hs, ih]
    simp [signals]
  | case3 held cause rest last ih => simp [ih, signals]
  | case4 readings held piece failure => simp [signals.eq_3 readings piece failure]

theorem stretches_of_failures_nil (h : failures (signals readings) = []) :
    stretches held readings = [held ++ chars (signals readings)] := by
  fun_induction stretches held readings with
  | case1 held c cs rest ih =>
    rw [signals, failures_text] at h
    rw [ih h, signals, chars_text, List.append_assoc]
  | case2 held cause rest last ih => simp [signals] at h
  | case3 held cause rest last ih => simp [signals] at h
  | case4 readings held piece failure => simp [signals.eq_3 readings piece failure]

/-- The characters among the outcomes are the normal forms of the pieces. -/
theorem chars_outcomes_signals :
    chars (outcomes (held.map .ok ++ signals readings)) =
      (stretches held readings).flatMap normalize := by
  fun_induction stretches held readings with
  | case1 held c cs rest ih => rw [signals, ← List.append_assoc, ← List.map_append, ih]
  | case2 held cause rest last ih =>
    obtain ⟨ds, rfl⟩ := List.getLast?_eq_some_iff.1 last
    have apart : Separate ds (.ok '\r' :: .error cause :: signals rest) := by
      rintro - x ⟨⟩
      exact ⟨'\r', rfl, by decide⟩
    rw [signals, List.map_append, List.append_assoc, List.map_cons, List.map_nil, List.cons_append,
      List.nil_append, outcomes_text apart, outcomes_return_failure, List.dropLast_concat,
      List.flatMap_cons, ← ih]
    simp
  | case3 held cause rest last ih =>
    have apart (xs : List Signal) : Separate held xs := fun h => absurd h last
    rw [signals, outcomes_text (apart _), ← ih, outcomes_text (apart _), outcomes_failure]
    simp
  | case4 readings held piece failure =>
    have apart : Separate held [] := by simp [Separate]
    rw [signals.eq_3 readings piece failure, outcomes_text apart, chars_text]
    simp [outcomes]

end Reading

/-! ## the record of the calls -/

namespace Delivery

def char? (d : Delivery) : Option Char :=
  match d.outcome with
  | .ok c => c
  | .error _ => none

def failure? (d : Delivery) : Option InputFailure :=
  match d.outcome with
  | .ok _ => none
  | .error cause => some cause

/-- The calls with these outcomes, on a source that has counted up to `line`. -/
def record (line : Nat) : List Signal → List Delivery
  | [] => []
  | .ok c :: xs =>
    ⟨.ok (some c), line + newlineAt (some c)⟩ :: record (line + newlineAt (some c)) xs
  | .error cause :: xs => ⟨.error cause, line⟩ :: record line xs

variable {xs : List Signal} {line : Nat}

theorem outcome_of_mem_record {d : Delivery} (h : d ∈ record line xs) : d.outcome ≠ .ok none := by
  fun_induction record line xs <;> grind

theorem filterMap_char?_record : (record line xs).filterMap char? = Signal.chars xs := by
  fun_induction record line xs with
  | case1 => rfl
  | case2 line c xs ih => rw [List.filterMap_cons, ih]; rfl
  | case3 line cause xs ih => rw [List.filterMap_cons, ih]; rfl

theorem filterMap_failure?_record : (record line xs).filterMap failure? = Signal.failures xs := by
  fun_induction record line xs with
  | case1 => rfl
  | case2 line c xs ih => rw [List.filterMap_cons, ih]; rfl
  | case3 line cause xs ih => rw [List.filterMap_cons, ih]; rfl

theorem length_record : (record line xs).length = xs.length := by
  fun_induction record line xs <;> simp_all

/-- Every call leaves the newlines that were delivered so far counted. -/
theorem line_of_record {before after : List Delivery} {d : Delivery}
    (h : record line xs = before ++ d :: after) :
    d.line = line + ((before ++ [d]).filterMap char?).count '\n' := by
  induction before generalizing line xs with
  | nil =>
    cases xs with
    | nil => cases h
    | cons x xs =>
      cases x with
      | ok c =>
        cases h
        simp [char?, newlineAt, List.count_singleton]
      | error cause =>
        cases h
        rfl
  | cons e before ih =>
    cases xs with
    | nil => cases h
    | cons x xs =>
      cases x with
      | ok c =>
        obtain ⟨rfl, rest⟩ := List.cons.inj h
        rw [ih rest]
        simp [char?, newlineAt, List.count_cons]
        omega
      | error cause =>
        obtain ⟨rfl, rest⟩ := List.cons.inj h
        rw [ih rest]
        rfl

end Delivery

namespace Source

open Signal

variable {s t : Source} {xs : List Signal} {line ends : Nat}

theorem deliveries_of_end (h : s.next = .ok none t) :
    s.deliveries (ends + 1) = ⟨.ok none, t.line⟩ :: t.deliveries ends := by
  rw [deliveries]
  split <;> simp_all

theorem deliveries_of_char {c : Char} (h : s.next = .ok (some c) t) :
    s.deliveries (ends + 1) = ⟨.ok (some c), t.line⟩ :: t.deliveries (ends + 1) := by
  rw [deliveries]
  split <;> simp_all

theorem deliveries_of_failure {cause : InputFailure} (h : s.next = .error cause t)
    (moves : t.isStuck = false) :
    s.deliveries (ends + 1) = ⟨.error cause, t.line⟩ :: t.deliveries (ends + 1) := by
  rw [deliveries]
  split <;> simp_all

theorem Holds.isStuck (h : s.Holds xs line) : s.isStuck = false := by
  simp [Source.isStuck, h.opened, h.free]

/-- A source at the end gives nothing, and neither reads nor changes. -/
structure Exhausted (s : Source) : Prop where
  empty : s.buffer = []
  ended : s.ended = true

theorem Exhausted.next (h : s.Exhausted) : s.next = .ok none s :=
  next_ended h.empty h.ended

theorem Exhausted.deliveries (h : s.Exhausted) :
    s.deliveries ends = List.replicate ends ⟨.ok none, s.line⟩ := by
  induction ends with
  | zero => rw [Source.deliveries, List.replicate_zero]
  | succ ends ih => rw [deliveries_of_end h.next, ih, List.replicate_succ]

theorem Exhausted.skip (h : s.Exhausted) (n : Nat) : s.skip n = s := by
  induction n with
  | zero => rfl
  | succ n ih => rw [Source.skip, h.next]; exact ih

/-- The calls come to the outcomes of the signals, and then to the end for good. -/
theorem Holds.deliveries (h : s.Holds xs line) :
    ∃ t, t.Exhausted ∧ t.line = line + (chars (outcomes xs)).count '\n' ∧
      (∀ n, s.skip ((outcomes xs).length + n + 1) = t) ∧
      ∀ ends, s.deliveries (ends + 1) = Delivery.record line (outcomes xs) ++
        List.replicate (ends + 1) ⟨.ok none, t.line⟩ := by
  induction hn : xs.length using Nat.strongRecOn generalizing s xs line with
  | ind n ih =>
    subst hn
    rcases next_holds h with ⟨cause, ys, t, hxs, shorter, hs, ht⟩ |
      ⟨c, ys, t, hxs, shorter, hs, ht⟩ | ⟨t, rfl, hs, ht, empty, ended⟩
    · obtain ⟨u, hu, count, skipped, delivered⟩ := ih _ shorter ht rfl
      refine ⟨u, hu, by rw [count, hxs, chars], fun n => ?_, fun ends => ?_⟩
      · rw [hxs, List.length_cons, Nat.add_right_comm _ 1, skip, hs]
        exact skipped n
      · rw [deliveries_of_failure hs ht.isStuck, delivered, hxs, ht.count]
        rfl
    · obtain ⟨u, hu, count, skipped, delivered⟩ := ih _ shorter ht rfl
      refine ⟨u, hu, ?_, fun n => ?_, fun ends => ?_⟩
      · rw [count, hxs, chars, List.count_cons, newlineAt]
        simp
        omega
      · rw [hxs, List.length_cons, Nat.add_right_comm _ 1, skip, hs]
        exact skipped n
      · rw [deliveries_of_char hs, delivered, hxs, ht.count]
        rfl
    · have exhausted : t.Exhausted := ⟨empty, ended⟩
      refine ⟨t, exhausted, ht.count, fun n => ?_, fun ends => ?_⟩
      · rw [skip, hs]
        exact exhausted.skip _
      · rw [deliveries_of_end hs, exhausted.deliveries]
        rfl

/-! ## sources of readings -/

/-- An open source whose reads give `readings`, and then the end. -/
def ofReadings (readings : List Reading) (name : String) : Source :=
  { name, reader := { readings } }

theorem ofReadings_holds (readings : List Reading) (name : String) :
    (ofReadings readings name).Holds (Reading.signals readings) 1 :=
  ⟨rfl, rfl, rfl, rfl⟩

/-- Up to the end, the calls on a source of `readings` are `calls`; they leave it at `last`. -/
structure Delivers (readings : List Reading) (calls : List Delivery) (last : Nat) : Prop where
  before_end : ∀ d ∈ calls, d.outcome ≠ .ok none
  failures_eq : calls.filterMap Delivery.failure? = failures (Reading.signals readings)
  chars_eq : calls.filterMap Delivery.char? = (Reading.stretches [] readings).flatMap normalize
  line_eq : ∀ {before d after}, calls = before ++ d :: after →
    d.line = 1 + ((before ++ [d]).filterMap Delivery.char?).count '\n'
  last_eq : last = 1 + (calls.filterMap Delivery.char?).count '\n'

theorem record_delivers (readings : List Reading) :
    Delivers readings (Delivery.record 1 (outcomes (Reading.signals readings)))
      (1 + (chars (outcomes (Reading.signals readings))).count '\n') where
  before_end _ := Delivery.outcome_of_mem_record
  failures_eq := Delivery.filterMap_failure?_record.trans failures_outcomes
  chars_eq := Delivery.filterMap_char?_record.trans (@Reading.chars_outcomes_signals [] readings)
  line_eq := Delivery.line_of_record
  last_eq := by rw [Delivery.filterMap_char?_record]

theorem deliveries_ofReadings_congr {readings others : List Reading} {name other : String}
    (h : Reading.signals others = Reading.signals readings) :
    (ofReadings others other).deliveries ends = (ofReadings readings name).deliveries ends := by
  cases ends with
  | zero => rw [deliveries, deliveries]
  | succ ends =>
    obtain ⟨t, -, ht, -, delivered⟩ := (ofReadings_holds readings name).deliveries
    obtain ⟨u, -, hu, -, others_delivered⟩ := (ofReadings_holds others other).deliveries
    rw [delivered, others_delivered, ht, hu, h]

/--
Behind the calls that deliver what was read, one state is left: whatever a reader would give, the
end is all that is met. Readings that do not fail matter only by their text.
-/
theorem readings_delivered (readings : List Reading) (name : String) :
    ∃ calls t, Delivers readings calls t.line ∧
      (∀ ends, (ofReadings readings name).deliveries (ends + 1) =
        calls ++ List.replicate (ends + 1) ⟨.ok none, t.line⟩) ∧
      (∀ n, calls.length < n → (ofReadings readings name).skip n = t) ∧
      (∀ reader, next { t with reader } = .ok none { t with reader }) ∧
      ['\r'].intercalate (Reading.stretches [] readings) = chars (Reading.signals readings) ∧
      (failures (Reading.signals readings) = [] →
        calls.filterMap Delivery.char? = normalize (chars (Reading.signals readings)) ∧
        ∀ others other, failures (Reading.signals others) = [] →
          chars (Reading.signals others) = chars (Reading.signals readings) →
          ∀ ends, (ofReadings others other).deliveries ends =
            (ofReadings readings name).deliveries ends) := by
  obtain ⟨t, exhausted, ht, skipped, delivered⟩ := (ofReadings_holds readings name).deliveries
  have delivers := record_delivers readings
  rw [← ht] at delivers
  refine ⟨_, t, delivers, delivered, ?_, ?_, Reading.intercalate_stretches, fun calm => ⟨?_, ?_⟩⟩
  · intro n hn
    obtain ⟨m, rfl⟩ := Nat.exists_eq_add_of_lt hn
    rw [Delivery.length_record]
    exact skipped m
  · exact fun _ => Exhausted.next ⟨exhausted.empty, exhausted.ended⟩
  · rw [delivers.chars_eq, Reading.stretches_of_failures_nil calm]
    simp
  · intro others other others_calm same ends
    apply deliveries_ofReadings_congr
    rw [eq_chars calm, eq_chars others_calm, same]

end Source
end BantamSyntax
