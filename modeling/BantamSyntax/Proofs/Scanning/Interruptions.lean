import BantamSyntax.Input.Delivery
import BantamSyntax.Proofs.Scanning.Faults
import Mathlib.Data.List.Forall2

/-!
# Interrupted scanning

What a scanner takes off a source, whichever of the source's reads fail. A lexeme that comes of a
request is the one that its characters make; a request that fails loses those it has taken.
-/
namespace BantamSyntax

/-! ## calls on sources -/

namespace Source

variable {α β : Type} {s t : Source}

/-- The characters that `n` calls give. -/
def handed : Nat → Source → List Char
  | 0, _ => []
  | n + 1, s => match s.next with
    | .ok c t => c.toList ++ handed n t
    | .error _ t => handed n t

theorem skip_add (m n : Nat) (s : Source) : s.skip (m + n) = (s.skip m).skip n := by
  induction m generalizing s with
  | zero => rw [Nat.zero_add, skip]
  | succ m ih =>
    rw [Nat.succ_add, skip, skip]
    split <;> exact ih _

theorem handed_add (m n : Nat) (s : Source) :
    s.handed (m + n) = s.handed m ++ (s.skip m).handed n := by
  induction m generalizing s with
  | zero => rw [Nat.zero_add, handed, skip, List.nil_append]
  | succ m ih =>
    rw [Nat.succ_add]
    cases h : s.next <;> simp only [handed, skip, h, ih, List.append_assoc]

/-- An action that neither counts lines nor changes the name, also if it fails. -/
structure Steady (x : SourceM α) : Prop where
  ok : ∀ {s t a}, x s = .ok a t → t.name = s.name ∧ t.line = s.line
  error : ∀ {s t e}, x s = .error e t → t.name = s.name ∧ t.line = s.line

theorem Steady.bind {x : SourceM α} {f : α → SourceM β} (hx : Steady x) (hf : ∀ a, Steady (f a)) :
    Steady (x >>= f) where
  ok h := by
    obtain ⟨a, t, ha, h⟩ := bind_eq_ok.1 h
    have first := hx.ok ha
    have second := (hf a).ok h
    exact ⟨second.1.trans first.1, second.2.trans first.2⟩
  error h := by
    rcases bind_eq_error.1 h with h | ⟨a, t, ha, h⟩
    · exact hx.error h
    · have first := hx.ok ha
      have second := (hf a).error h
      exact ⟨second.1.trans first.1, second.2.trans first.2⟩

theorem steady_fill : Steady fill := by
  constructor
  all_goals
    intros
    rename_i h
    unfold fill at h
    repeat' split at h
    all_goals cases h
    all_goals exact ⟨rfl, rfl⟩

theorem steady_read : Steady read := by
  refine steady_fill.bind fun _ => ⟨fun h => ?_, fun h => absurd h modifyGet_ne_error⟩
  cases modifyGet_eq_ok.1 h
  exact ⟨rfl, rfl⟩

theorem steady_skipLineFeed : Steady skipLineFeed := by
  refine steady_fill.bind fun _ => ⟨fun h => ?_, fun h => absurd h modifyGet_ne_error⟩
  cases modifyGet_eq_ok.1 h
  dsimp only
  split <;> exact ⟨rfl, rfl⟩

theorem line_of_newline {c : Option Char} (h : newline s = .ok c t) :
    t.name = s.name ∧ t.line = s.line + newlineAt c := by
  cases modifyGet_eq_ok.1 h
  exact ⟨rfl, rfl⟩

/-- A call counts the newline that it gives. -/
theorem line_of_next {c : Option Char} (h : next s = .ok c t) :
    t.name = s.name ∧ t.line = s.line + newlineAt c := by
  obtain ⟨d, u, hr, h⟩ := bind_eq_ok.1 h
  obtain ⟨name, line⟩ := steady_read.ok hr
  rw [← name, ← line]
  split at h
  · obtain ⟨_, v, hk, h⟩ := bind_eq_ok.1 h
    obtain ⟨name, line⟩ := steady_skipLineFeed.ok hk
    rw [← name, ← line]
    exact line_of_newline h
  · exact line_of_newline h
  · rename_i other
    obtain ⟨rfl, rfl⟩ := pure_eq_ok.1 h
    have none : newlineAt d = 0 := if_neg other
    exact ⟨rfl, by rw [none, Nat.add_zero]⟩

theorem line_of_next_error {e : InputFailure} (h : next s = .error e t) :
    t.name = s.name ∧ t.line = s.line := by
  rcases bind_eq_error.1 h with h | ⟨d, u, hr, h⟩
  · exact steady_read.error h
  obtain ⟨name, line⟩ := steady_read.ok hr
  rw [← name, ← line]
  split at h
  · rcases bind_eq_error.1 h with h | ⟨_, _, _, h⟩
    · exact steady_skipLineFeed.error h
    · exact absurd h modifyGet_ne_error
  · exact absurd h modifyGet_ne_error
  · exact absurd h pure_ne_error

theorem name_skip (n : Nat) (s : Source) : (s.skip n).name = s.name := by
  induction n generalizing s with
  | zero => rfl
  | succ n ih =>
    rw [skip]
    split
    · rename_i h
      rw [ih, (line_of_next h).1]
    · rename_i h
      rw [ih, (line_of_next_error h).1]

open Scanner in
/-- Calls count the newlines among the characters that they give. -/
theorem line_skip (n : Nat) (s : Source) : (s.skip n).line = s.line + newlines (s.handed n) := by
  induction n generalizing s with
  | zero => rfl
  | succ n ih =>
    cases h : s.next with
    | ok c t =>
      simp only [skip, handed, h]
      rw [ih, (line_of_next h).2, newlines_append, newlines_toList, Nat.add_assoc]
    | error cause t =>
      simp only [skip, handed, h]
      rw [ih, (line_of_next_error h).2]

/-- Calls take off the source what they give. -/
theorem weight_skip (n : Nat) (s : Source) :
    (s.skip n).weight + (s.handed n).length ≤ s.weight := by
  induction n generalizing s with
  | zero => exact Nat.le_refl _
  | succ n ih =>
    cases h : s.next with
    | ok c t =>
      have rest := ih t
      have first := weight_of_next h
      simp only [skip, handed, h, List.length_append]
      cases c with
      | none => simpa using Nat.le_trans rest first
      | some c =>
        simp only [Option.toList_some, List.length_singleton, Option.isSome_some, if_true] at first ⊢
        omega
    | error cause t =>
      have rest := ih t
      simp only [skip, handed, h]
      rcases weight_of_next_error h with less | ⟨rfl, -⟩
      · omega
      · exact rest

/-- Calls that leave a source the same have given the same. -/
theorem handed_eq_of_skip_eq {m n : Nat} (same : s.skip m = s.skip n) :
    s.handed m = s.handed n := by
  wlog before : m ≤ n generalizing m n
  · exact (this same.symm (Nat.le_of_not_le before)).symm
  obtain ⟨k, rfl⟩ := Nat.exists_eq_add_of_le before
  have weight := weight_skip k (s.skip m)
  rw [← skip_add, ← same] at weight
  have nothing : (s.skip m).handed k = [] := List.length_eq_zero_iff.1 (by omega)
  rw [handed_add, nothing, List.append_nil]

end Source

namespace Scanner

variable {α β : Type} {s t u : Scanner} {cs ds : List Char} {cause : InputFailure}

/-! ## ways of scanners -/

/-- From one scanner over characters to another, by calls on the source some of which may fail: the
lookahead of the first and what the calls gave are these characters and the lookahead of the
second. -/
structure Passes (s : Scanner) (cs : List Char) (t : Scanner) : Prop where
  calls : ∃ n, t.source = s.source.skip n ∧
    s.lookahead.toList ++ s.source.handed n = cs ++ t.lookahead.toList
  lines : s.line ≤ t.line

theorem Passes.refl (s : Scanner) : s.Passes [] s where
  calls := ⟨0, rfl, by simp [Source.handed]⟩
  lines := Nat.le_refl _

theorem Passes.trans (h : s.Passes cs t) (h' : t.Passes ds u) : s.Passes (cs ++ ds) u where
  calls := by
    obtain ⟨m, ht, hm⟩ := h.calls
    obtain ⟨n, hu, hn⟩ := h'.calls
    refine ⟨m + n, by rw [hu, ht, Source.skip_add], ?_⟩
    rw [Source.handed_add, ← List.append_assoc, hm, ← ht, List.append_assoc, hn, List.append_assoc]
  lines := Nat.le_trans h.lines h'.lines

/-- The lookahead comes first. -/
theorem Passes.first {c : Char} (h : s.Passes cs t) (hc : s.lookahead = some c) :
    (cs ++ t.lookahead.toList).head? = some c := by
  obtain ⟨n, -, hn⟩ := h.calls
  rw [← hn, hc]
  rfl

theorem advance_passes {c : Option Char} (h : advance s = .ok c t) :
    c = s.lookahead ∧ s.Passes c.toList t := by
  unfold advance at h
  split at h
  · rename_i d source hn
    cases h
    refine ⟨rfl, ⟨1, ?_, ?_⟩, ?_⟩
    · simp [Source.skip, hn]
    · simp [Source.handed, hn]
    · have count := (Source.line_of_next hn).2
      unfold line
      simp only [count, newlineAt]
      split <;> split <;> omega
  · cases h

theorem advance_fails (h : advance s = .error cause t) :
    s.Passes [] t ∧ ∃ u, s.source.next = .error cause u := by
  unfold advance at h
  split at h
  · cases h
  · rename_i e source hn
    cases h
    refine ⟨⟨⟨1, ?_, ?_⟩, ?_⟩, _, hn⟩
    · simp [Source.skip, hn]
    · simp [Source.handed, hn]
    · simp [line, (Source.line_of_next_error hn).2]

/-- From a scanner to the one that a failing call on its source has left. -/
structure Interrupted (s : Scanner) (cause : InputFailure) (t : Scanner) : Prop where
  passes : ∃ cs, s.Passes cs t
  failed : ∃ n u, (s.source.skip n).next = .error cause u

theorem Interrupted.of_passes (h : s.Passes cs t) (h' : t.Interrupted cause u) :
    s.Interrupted cause u where
  passes := by
    obtain ⟨ds, hd⟩ := h'.passes
    exact ⟨_, h.trans hd⟩
  failed := by
    obtain ⟨m, ht, -⟩ := h.calls
    obtain ⟨n, v, hn⟩ := h'.failed
    exact ⟨m + n, v, by rwa [Source.skip_add, ← ht]⟩

/-- An action that goes on by calls on the source, and fails where one of these does. -/
structure Proceeds (x : ScannerM α) : Prop where
  ok : ∀ {s t a}, x s = .ok a t → ∃ cs, s.Passes cs t
  error : ∀ {s t e}, x s = .error e t → s.Interrupted e t

theorem proceeds_pure (a : α) : Proceeds (pure a) where
  ok h := by
    obtain ⟨-, rfl⟩ := pure_eq_ok.1 h
    exact ⟨[], .refl _⟩
  error h := absurd h pure_ne_error

theorem proceeds_get : Proceeds (get : ScannerM Scanner) where
  ok h := by
    cases h
    exact ⟨[], .refl _⟩
  error h := nomatch h

theorem Proceeds.bind {x : ScannerM α} {f : α → ScannerM β} (hx : Proceeds x)
    (hf : ∀ a, Proceeds (f a)) : Proceeds (x >>= f) where
  ok h := by
    obtain ⟨a, t, ha, h⟩ := bind_eq_ok.1 h
    obtain ⟨cs, first⟩ := hx.ok ha
    obtain ⟨ds, second⟩ := (hf a).ok h
    exact ⟨_, first.trans second⟩
  error h := by
    rcases bind_eq_error.1 h with h | ⟨a, t, ha, h⟩
    · exact hx.error h
    · obtain ⟨cs, first⟩ := hx.ok ha
      exact .of_passes first ((hf a).error h)

theorem proceeds_advance : Proceeds advance where
  ok h := ⟨_, (advance_passes h).2⟩
  error h := by
    obtain ⟨passes, u, failed⟩ := advance_fails h
    exact ⟨⟨_, passes⟩, 0, u, failed⟩

/-! ## runs of characters -/

section

variable {σ : Type} {step : σ → Char → Option σ} {state last : σ} {p : Char → Bool}

/-- What has been collected is the run over it and the lookahead that is left. -/
theorem collect_passes (h : collect step state s = .ok (cs, last) t) :
    s.Passes cs t ∧
      run step state (cs ++ t.lookahead.toList) = ((cs, last), t.lookahead.toList) := by
  fun_induction collect step state s generalizing cs with
  | case1 state s hs =>
    obtain ⟨⟨rfl, rfl⟩, rfl⟩ : (cs = [] ∧ last = state) ∧ t = s := by simpa [eq_comm] using h
    refine ⟨.refl _, ?_⟩
    cases hc : t.lookahead with
    | none => rfl
    | some c =>
      rw [hc] at hs
      have stop : step last c = none := hs
      simp [run, stop]
  | case2 state s next hs c u hu ds last' v hv ih =>
    cases h
    obtain ⟨rfl, first⟩ := advance_passes hu
    obtain ⟨rest, hr⟩ := ih hv
    refine ⟨first.trans rest, ?_⟩
    obtain ⟨c, hc, hs⟩ := Option.bind_eq_some_iff.1 hs
    simp [hc, run, hs, hr]
  | case3 => cases h
  | case4 => cases h

theorem collect_fails (h : collect step state s = .error cause t) : s.Interrupted cause t := by
  fun_induction collect step state s with
  | case1 => cases h
  | case2 => cases h
  | case3 state s next hs c u hu e v hv ih =>
    cases h
    exact .of_passes (advance_passes hu).2 (ih hv)
  | case4 state s next hs e u hu =>
    cases h
    exact proceeds_advance.error hu

theorem proceeds_collect : Proceeds (collect step state) where
  ok h := ⟨_, (collect_passes h).1⟩
  error := collect_fails

theorem collectWhile_passes (h : collectWhile p s = .ok cs t) :
    s.Passes cs t ∧ (cs ++ t.lookahead.toList).takeWhile p = cs ∧
      (cs ++ t.lookahead.toList).dropWhile p = t.lookahead.toList := by
  obtain ⟨⟨ds, last⟩, u, hc, h⟩ := bind_eq_ok.1 h
  obtain ⟨rfl, rfl⟩ := pure_eq_ok.1 h
  obtain ⟨passes, hr⟩ := collect_passes hc
  rw [run_while] at hr
  simp only [Prod.mk.injEq] at hr
  exact ⟨passes, hr.1.1, hr.2⟩

theorem proceeds_collectWhile : Proceeds (collectWhile p) :=
  proceeds_collect.bind fun _ => proceeds_pure _

end

/-! ## lexemes -/

/-- The lexeme is what is cut from the characters passed over and the lookahead that is left. -/
structure Cuts (s : Scanner) (c : List Char → Cut) (line : Int) (cs : List Char) (l : Lexeme)
    (t : Scanner) : Prop where
  passes : s.Passes cs t
  lexeme : l = (c (cs ++ t.lookahead.toList)).lexeme line
  rest : (c (cs ++ t.lookahead.toList)).rest = t.lookahead.toList

variable {l : Lexeme} {first : Char} {line : Int}

theorem string_cuts (h : string line s = .ok l t) : ∃ cs, s.Cuts cutString line cs l t := by
  obtain ⟨⟨cs, state⟩, u, hc, h⟩ := bind_eq_ok.1 h
  obtain ⟨passes, hr⟩ := collect_passes hc
  dsimp only at h
  split at h
  all_goals
    obtain ⟨rfl, rfl⟩ := pure_eq_ok.1 h
    refine ⟨cs, passes, ?_, by rw [rest_cutString, hr]⟩
  · simp [cutString, Cut.lexeme_checked, *]
  · simp [cutString, Cut.lexeme, faulty, *]

theorem blockComment_cuts (h : blockComment line s = .ok l t) (star : s.lookahead = some '*') :
    ∃ cs, s.Cuts cutBlockComment line ('*' :: cs) l t := by
  obtain ⟨c, u, ha, h⟩ := bind_eq_ok.1 h
  obtain ⟨rfl, before⟩ := advance_passes ha
  rw [star] at before
  obtain ⟨⟨cs, state⟩, v, hc, h⟩ := bind_eq_ok.1 h
  obtain ⟨passes, hr⟩ := collect_passes hc
  dsimp only at h
  split at h
  all_goals
    obtain ⟨rfl, rfl⟩ := pure_eq_ok.1 h
    refine ⟨cs, before.trans passes, ?_, ?_⟩
  · simp [cutBlockComment, Cut.lexeme, Scanner.lexeme, *]
  · simp [rest_cutBlockComment, hr]
  · simp [cutBlockComment, Cut.lexeme, faulty, *]
  · simp [rest_cutBlockComment, hr]

theorem operator_cuts (h : operator first line s = .ok l t) :
    ∃ cs, s.Cuts (cutOperator first) line cs l t := by
  obtain ⟨second, u, hp, h⟩ := bind_eq_ok.1 h
  cases hp
  cases ho : Opening.of first s.lookahead with
  | single kind =>
    simp only [ho] at h
    obtain ⟨rfl, rfl⟩ := pure_eq_ok.1 h
    refine ⟨[], .refl _, ?_, ?_⟩
    all_goals simp [cutOperator, ho, Cut.lexeme, Scanner.lexeme]
  | double kind =>
    simp only [ho] at h
    obtain ⟨c, u, ha, h⟩ := bind_eq_ok.1 h
    obtain ⟨rfl, rfl⟩ := pure_eq_ok.1 h
    obtain ⟨rfl, passes⟩ := advance_passes ha
    obtain ⟨d, hd, -⟩ := Opening.lookup_of_double ho
    rw [hd] at ho passes
    refine ⟨[d], passes, ?_, ?_⟩
    all_goals simp [cutOperator, ho, hd, Cut.lexeme, Scanner.lexeme]
  | lineComment =>
    simp only [ho] at h
    obtain ⟨cs, u, hc, h⟩ := bind_eq_ok.1 h
    obtain ⟨rfl, rfl⟩ := pure_eq_ok.1 h
    obtain ⟨passes, taken, dropped⟩ := collectWhile_passes hc
    have slash := Opening.second_of_lineComment ho
    rw [slash] at ho
    refine ⟨cs, passes, ?_, ?_⟩
    all_goals simp only [cutOperator, passes.first slash, ho, taken, dropped, Cut.lexeme]
    rfl
  | blockComment =>
    simp only [ho] at h
    obtain ⟨-, star⟩ := Opening.eq_of_blockComment ho
    obtain ⟨cs, passes, lexeme, rest⟩ := blockComment_cuts h star
    rw [star] at ho
    refine ⟨_, passes, ?_, ?_⟩
    all_goals simpa only [cutOperator, passes.first star, ho]
  | fault fault =>
    simp only [ho] at h
    obtain ⟨rfl, rfl⟩ := pure_eq_ok.1 h
    refine ⟨[], .refl _, ?_, ?_⟩
    all_goals simp [cutOperator, ho, Cut.lexeme, faulty]

theorem lexemeFrom_cuts (h : lexemeFrom first line s = .ok l t) :
    ∃ cs, s.Cuts (cut first) line cs l t := by
  unfold lexemeFrom at h
  split at h
  · rename_i alpha
    obtain ⟨cs, u, hc, h⟩ := bind_eq_ok.1 h
    obtain ⟨rfl, rfl⟩ := pure_eq_ok.1 h
    obtain ⟨passes, taken, dropped⟩ := collectWhile_passes hc
    refine ⟨cs, passes, ?_, ?_⟩
    all_goals simp only [cut, if_pos alpha, taken, dropped]
    rfl
  split at h
  · rename_i alpha digit
    obtain ⟨cs, u, hc, h⟩ := bind_eq_ok.1 h
    obtain ⟨rfl, rfl⟩ := pure_eq_ok.1 h
    obtain ⟨passes, taken, dropped⟩ := collectWhile_passes hc
    refine ⟨cs, passes, ?_, ?_⟩
    all_goals simp only [cut, if_neg alpha, if_pos digit, taken, dropped, Cut.lexeme_checked,
      Cut.rest_checked]
  split at h
  · rename_i alpha digit quote
    obtain ⟨cs, passes, lexeme, rest⟩ := string_cuts h
    refine ⟨cs, passes, ?_, ?_⟩
    all_goals simpa only [cut, if_neg alpha, if_neg digit, if_pos quote]
  · rename_i alpha digit quote
    obtain ⟨cs, passes, lexeme, rest⟩ := operator_cuts h
    refine ⟨cs, passes, ?_, ?_⟩
    all_goals simpa only [cut, if_neg alpha, if_neg digit, if_neg quote]

/-- The cut leaves the lookahead, so it has all that was passed over. -/
theorem Cuts.spelling {cs : List Char} (h : s.Cuts (cut first) line cs l t) :
    l.token.spelling.toList = first :: cs := by
  have whole := cut_append first (cs ++ t.lookahead.toList)
  rw [h.rest, ← List.cons_append] at whole
  rw [h.lexeme, Cut.lexeme, String.toList_ofList]
  exact List.append_cancel_right whole

theorem proceeds_operator : Proceeds (operator first line) := by
  refine proceeds_get.bind fun s => ?_
  split
  · exact proceeds_pure _
  · exact proceeds_advance.bind fun _ => proceeds_pure _
  · exact proceeds_collectWhile.bind fun _ => proceeds_pure _
  · refine proceeds_advance.bind fun _ => proceeds_collect.bind fun _ => ?_
    dsimp only
    split <;> exact proceeds_pure _
  · exact proceeds_pure _

theorem proceeds_lexemeFrom : Proceeds (lexemeFrom first line) := by
  unfold lexemeFrom
  split
  · exact proceeds_collectWhile.bind fun _ => proceeds_pure _
  split
  · exact proceeds_collectWhile.bind fun _ => proceeds_pure _
  split
  · refine proceeds_collect.bind fun _ => ?_
    dsimp only
    split <;> exact proceeds_pure _
  · exact proceeds_operator

theorem proceeds_scan : Proceeds scan := by
  refine (proceeds_collectWhile.bind fun _ => proceeds_pure _).bind fun _ =>
    proceeds_get.bind fun s => ?_
  cases s.lookahead with
  | none => exact proceeds_pure _
  | some first => exact proceeds_advance.bind fun _ => proceeds_lexemeFrom

/-! ## requests -/

/-- A request passes over blanks and the spelling of its lexeme, which stands between its lines. -/
structure Gives (s : Scanner) (gap : List Char) (l : Lexeme) (t : Scanner) : Prop where
  blank : gap.all isBlank = true
  passes : s.Passes (gap ++ l.token.spelling.toList) t
  start : ∀ c ∈ l.token.spelling.toList.head?, isBlank c = false
  lexical : Lexical l
  above : s.line ≤ l.token.line
  below : l.token.line ≤ t.line

theorem scan_gives (h : scan s = .ok l t) : ∃ gap, s.Gives gap l t := by
  obtain ⟨_, u, hb, h⟩ := bind_eq_ok.1 h
  obtain ⟨gap, v, hgap, hb⟩ := bind_eq_ok.1 hb
  obtain ⟨-, rfl⟩ := pure_eq_ok.1 hb
  obtain ⟨before, taken, dropped⟩ := collectWhile_passes hgap
  have blank : gap.all isBlank = true := by
    rw [← taken]
    exact List.all_takeWhile
  obtain ⟨_, _, hg, h⟩ := bind_eq_ok.1 h
  cases hg
  cases hc : v.lookahead with
  | none =>
    simp only [hc] at h
    obtain ⟨rfl, rfl⟩ := pure_eq_ok.1 h
    exact ⟨gap, blank, by simpa [lexeme] using before, nofun, .inl ⟨_, rfl⟩,
      Int.ofNat_le.2 before.lines, Int.le_refl _⟩
  | some first =>
    simp only [hc] at h
    obtain ⟨_, w, ha, h⟩ := bind_eq_ok.1 h
    obtain ⟨rfl, one⟩ := advance_passes ha
    obtain ⟨cs, cuts⟩ := lexemeFrom_cuts h
    have start : isBlank first = false := by
      have := List.head?_dropWhile_not isBlank (gap ++ v.lookahead.toList)
      rw [dropped, hc] at this
      exact this
    rw [hc] at one
    have onward := one.trans cuts.passes
    have spelled := cuts.spelling
    have starts : l.token.line = v.line := by rw [cuts.lexeme]; rfl
    refine ⟨gap, blank, ?_, ?_, .inr ⟨first, _, _, cuts.lexeme⟩, ?_, ?_⟩
    · rw [spelled]
      exact before.trans onward
    · simpa [spelled] using start
    · rw [starts]
      exact Int.ofNat_le.2 before.lines
    · rw [starts]
      exact Int.ofNat_le.2 onward.lines

/-- What `n` requests give. -/
def requests : Nat → Scanner → List Scan
  | 0, _ => []
  | n + 1, s => match s.scan with
    | .ok l t => .ok l :: requests n t
    | .error cause t => .error cause :: requests n t

/-- The characters that a request has for its own: blanks and the spelling of the lexeme that it
gives, which begins with no blank; or whatever one that fails has collected. -/
inductive Takes : Scan → List Char → Prop where
  | lexeme (l : Lexeme) (gap : List Char) (blank : gap.all isBlank = true)
      (start : ∀ c ∈ l.token.spelling.toList.head?, isBlank c = false) :
      Takes (.ok l) (gap ++ l.token.spelling.toList)
  | failure (cause : InputFailure) (lost : List Char) : Takes (.error cause) lost

/-- The tokens that requests have returned, in order. -/
def returned (scans : List Scan) : List Token :=
  scans.filterMap fun scan => scan.toOption.map (·.token)

theorem requests_take (n : Nat) (s : Scanner) :
    ∃ takes, s.Passes takes.flatten (s.after n) ∧ List.Forall₂ Takes (s.requests n) takes := by
  induction n generalizing s with
  | zero => exact ⟨[], .refl s, .nil⟩
  | succ n ih =>
    cases h : s.scan with
    | ok l t =>
      obtain ⟨gap, gives⟩ := scan_gives h
      obtain ⟨takes, passes, all⟩ := ih t
      have take := Takes.lexeme l gap gives.blank gives.start
      refine ⟨(gap ++ l.token.spelling.toList) :: takes, ?_, ?_⟩
      · simpa only [after, h, List.flatten_cons] using gives.passes.trans passes
      · simpa only [requests, h] using List.Forall₂.cons take all
    | error cause t =>
      obtain ⟨cs, lost⟩ := (proceeds_scan.error h).passes
      obtain ⟨takes, passes, all⟩ := ih t
      refine ⟨cs :: takes, ?_, ?_⟩
      · simpa only [after, h, List.flatten_cons] using lost.trans passes
      · simpa only [requests, h] using List.Forall₂.cons (.failure cause cs) all

theorem requests_lines (n : Nat) (s : Scanner) :
    (∀ t ∈ returned (s.requests n), s.line ≤ t.line) ∧
      (returned (s.requests n)).Pairwise (·.line ≤ ·.line) := by
  induction n generalizing s with
  | zero => exact ⟨nofun, .nil⟩
  | succ n ih =>
    cases h : s.scan with
    | ok l u =>
      obtain ⟨gap, gives⟩ := scan_gives h
      obtain ⟨above, ordered⟩ := ih u
      have eq : returned (s.requests (n + 1)) = l.token :: returned (u.requests n) := by
        simp [requests, h, returned, Except.toOption]
      have later : ∀ t ∈ returned (u.requests n), l.token.line ≤ t.line :=
        fun t ht => Int.le_trans gives.below (above t ht)
      rw [eq]
      refine ⟨fun t ht => ?_, List.pairwise_cons.2 ⟨later, ordered⟩⟩
      rcases List.mem_cons.1 ht with rfl | ht
      · exact gives.above
      · exact Int.le_trans gives.above (later t ht)
    | error cause u =>
      obtain ⟨above, ordered⟩ := ih u
      obtain ⟨cs, lost⟩ := (proceeds_scan.error h).passes
      have eq : returned (s.requests (n + 1)) = returned (u.requests n) := by
        simp [requests, h, returned, Except.toOption]
      rw [eq]
      exact ⟨fun t ht => Int.le_trans (Int.ofNat_le.2 lost.lines) (above t ht), ordered⟩

/-- The characters of the tokens that requests have returned. -/
def spelled (scans : List Scan) : List Char :=
  (returned scans).flatMap (·.spelling.toList)

theorem spelled_ok (l : Lexeme) (scans : List Scan) :
    spelled (.ok l :: scans) = l.token.spelling.toList ++ spelled scans := rfl

theorem spelled_error (cause : InputFailure) (scans : List Scan) :
    spelled (.error cause :: scans) = spelled scans := rfl

theorem spelled_sublist {scans : List Scan} {takes : List (List Char)}
    (h : List.Forall₂ Takes scans takes) : (spelled scans).Sublist takes.flatten := by
  induction h with
  | nil => exact .refl _
  | cons take _ ih =>
    cases take with
    | lexeme l gap =>
      rw [spelled_ok, List.flatten_cons]
      exact (List.sublist_append_right gap _).append ih
    | failure cause lost =>
      rw [spelled_error, List.flatten_cons]
      exact ih.trans (List.sublist_append_right _ _)

theorem start_of_spelled {scans : List Scan} {takes : List (List Char)}
    (h : List.Forall₂ Takes scans takes) : ∀ c ∈ (spelled scans).head?, isBlank c = false := by
  induction h with
  | nil => nofun
  | cons take _ ih =>
    cases take with
    | lexeme l gap _ start =>
      rw [spelled_ok]
      cases hl : l.token.spelling.toList with
      | nil => exact ih
      | cons c cs =>
        rw [hl] at start
        exact start
    | failure cause lost => exact ih

end Scanner
end BantamSyntax
