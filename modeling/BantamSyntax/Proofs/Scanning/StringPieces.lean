import BantamSyntax.Proofs.Scanning.Stopping

/-!
# Pieces of strings

Where a string constant ends and what is wrong with it, said of the pieces between its quotes.
-/
namespace BantamSyntax

/-! ## pieces -/

/-- What stands between the quotes, read from the left: a backslash makes a pair with the character
after it, whatever that is. -/
inductive StringPiece where
  | plain (c : Char)
  | pair (c : Char)

namespace StringPiece

def chars : StringPiece → List Char
  | plain c => [c]
  | pair c => ['\\', c]

/-- A character that stands alone neither ends the string nor begins a pair. -/
def IsProper : StringPiece → Prop
  | plain c => c ≠ '"' ∧ c ≠ '\\'
  | pair _ => True

def IsLegal : StringPiece → Prop
  | plain _ => True
  | pair c => c ∈ ['n', 't', 'f', '"', '\\']

/-- What follows an opening quote are these pieces, a closing quote and the rest. -/
structure Closes (ps : List StringPiece) (cs rest : List Char) : Prop where
  proper : ∀ p ∈ ps, p.IsProper
  text : cs = ps.flatMap chars ++ '"' :: rest

variable {ps : List StringPiece} {cs rest : List Char}

theorem Closes.nil (rest : List Char) : Closes [] ('"' :: rest) rest where
  proper _ among := absurd among List.not_mem_nil
  text := rfl

theorem Closes.cons {p : StringPiece} (proper : p.IsProper) (h : Closes ps cs rest) :
    Closes (p :: ps) (p.chars ++ cs) rest where
  proper := List.forall_mem_cons.2 ⟨proper, h.proper⟩
  text := by rw [h.text, List.flatMap_cons, List.append_assoc]

open Scanner LexicalFault

/-- A scanner takes the pieces and the closing quote. -/
theorem run_of_closes (h : Closes ps cs rest) :
    run StringState.step .body cs = ((ps.flatMap chars ++ ['"'], .closed), rest) := by
  obtain ⟨proper, rfl⟩ := h
  induction ps with
  | nil => cases rest <;> rfl
  | cons p ps ih =>
    obtain ⟨first, proper⟩ := List.forall_mem_cons.1 proper
    have inner := ih proper
    cases p with
    | pair c => simp [chars, run, StringState.step, inner]
    | plain c =>
      have stays : StringState.step .body c = some .body := by
        rw [StringState.step.eq_3 c first.1 first.2]
      simp [chars, run, stays, inner]

/-- Either a text closes a string, or a scanner comes to its end within the string. -/
theorem closes_or_open (cs : List Char) :
    (∃ ps rest, Closes ps cs rest) ∨ (run StringState.step .body cs).1.2 ≠ .closed := by
  fun_induction hasIllegalEscape cs with
  | case1 c cs ih =>
    refine ih.imp ?_ fun inner => by simpa [run, StringState.step] using inner
    rintro ⟨ps, rest, closes⟩
    exact ⟨_, rest, closes.cons (p := .pair c) trivial⟩
  | case2 c cs noPair ih =>
    by_cases quote : c = '"'
    · subst quote
      exact .inl ⟨[], cs, .nil cs⟩
    by_cases backslash : c = '\\'
    · refine .inr ?_
      subst backslash
      cases cs with
      | nil => simp [run, StringState.step]
      | cons d cs => exact absurd rfl (noPair d cs rfl)
    · have stays : StringState.step .body c = some .body := by
        rw [StringState.step.eq_3 c quote backslash]
      refine ih.imp ?_ fun inner => by simpa [run, stays] using inner
      rintro ⟨ps, rest, closes⟩
      exact ⟨_, rest, closes.cons (p := .plain c) ⟨quote, backslash⟩⟩
  | case3 => exact .inr (by simp [run])

/-- All escapes are legal just if all pieces are. -/
theorem hasIllegalEscape_eq_false_iff (proper : ∀ p ∈ ps, p.IsProper) :
    hasIllegalEscape (ps.flatMap chars ++ ['"']) = false ↔ ∀ p ∈ ps, p.IsLegal := by
  induction ps with
  | nil => simp [hasIllegalEscape]
  | cons p ps ih =>
    obtain ⟨first, proper⟩ := List.forall_mem_cons.1 proper
    have inner := ih proper
    rw [List.flatMap_cons, List.append_assoc, List.forall_mem_cons]
    cases p with
    | pair c =>
      show (decide (c ∉ escapes) || hasIllegalEscape (ps.flatMap chars ++ ['"'])) = false ↔ _
      rw [Bool.or_eq_false_iff, inner, decide_eq_false_iff_not, Decidable.not_not]
      rfl
    | plain c =>
      have alone : hasIllegalEscape (chars (.plain c) ++ (ps.flatMap chars ++ ['"'])) =
          hasIllegalEscape (ps.flatMap chars ++ ['"']) :=
        hasIllegalEscape.eq_2 _ _ fun _ _ backslash => absurd backslash first.2
      rw [alone, inner]
      exact ⟨fun all => ⟨trivial, all⟩, And.right⟩

/-- What a string of these pieces comes to: a constant about which nothing is said, or an error with
the first message of these that is true of it. -/
structure Verdict (ps : List StringPiece) (spelling : List Char) (kind : TokenKind)
    (messages : List String) : Prop where
  accepted : kind = .string ↔ (∀ p ∈ ps, p.IsLegal) ∧ spelling.length ≤ 5000 ∧ '\n' ∉ spelling
  silent : kind = .string → messages = []
  rejected : kind ≠ .string → kind = .error
  escape : (∃ p ∈ ps, ¬p.IsLegal) → messages = ["illegal escape character"]
  long : (∀ p ∈ ps, p.IsLegal) → 5000 < spelling.length →
    messages = ["string larger than 5000 chars"]
  multiline : (∀ p ∈ ps, p.IsLegal) → spelling.length ≤ 5000 → '\n' ∈ spelling →
    messages = ["spanning multiple lines"]

theorem message_longString : longString.message = "string larger than 5000 chars" := by
  decide

theorem verdict_ofString? {spelling : List Char}
    (legal : hasIllegalEscape spelling = false ↔ ∀ p ∈ ps, p.IsLegal) :
    Verdict ps spelling (if (ofString? spelling).isSome then .error else .string)
      ((ofString? spelling).map message).toList := by
  cases escape : hasIllegalEscape spelling with
  | true =>
    have illegal : ¬∀ p ∈ ps, p.IsLegal := fun all => by simp [legal.2 all] at escape
    have found : ofString? spelling = some illegalEscape := if_pos escape
    rw [found]
    exact {
      accepted := iff_of_false (by decide) fun all => illegal all.1
      silent := nofun
      rejected := fun _ => rfl
      escape := fun _ => rfl
      long := fun all => absurd all illegal
      multiline := fun all => absurd all illegal }
  | false =>
    have allowed := legal.1 escape
    have never : ¬∃ p ∈ ps, ¬p.IsLegal := fun ⟨p, hp, bad⟩ => bad (allowed p hp)
    have escape : ¬hasIllegalEscape spelling = true := by simp [escape]
    by_cases long : 5000 < spelling.length
    · have found : ofString? spelling = some longString := (if_neg escape).trans (if_pos long)
      rw [found]
      exact {
        accepted := iff_of_false (by decide) fun all => Nat.not_le.2 long all.2.1
        silent := nofun
        rejected := fun _ => rfl
        escape := fun bad => absurd bad never
        long := fun _ _ => congrArg (fun text => [text]) message_longString
        multiline := fun _ short => absurd long (Nat.not_lt.2 short) }
    by_cases feed : '\n' ∈ spelling
    · have found : ofString? spelling = some multilineString :=
        (if_neg escape).trans ((if_neg long).trans (if_pos feed))
      rw [found]
      exact {
        accepted := iff_of_false (by decide) fun all => all.2.2 feed
        silent := nofun
        rejected := fun _ => rfl
        escape := fun bad => absurd bad never
        long := fun _ exceeds => absurd exceeds long
        multiline := fun _ _ _ => rfl }
    · have found : ofString? spelling = none :=
        (if_neg escape).trans ((if_neg long).trans (if_neg feed))
      rw [found]
      exact {
        accepted := iff_of_true rfl ⟨allowed, Nat.not_lt.1 long, feed⟩
        silent := fun _ => rfl
        rejected := fun error => absurd rfl error
        escape := fun bad => absurd bad never
        long := fun _ exceeds => absurd exceeds long
        multiline := fun _ _ among => absurd among feed }

theorem cut_of_closes (h : Closes ps cs rest) :
    let spelling := '"' :: ps.flatMap chars ++ ['"']
    ∃ fault, cut '"' cs = .checked .string fault spelling rest ∧
      Verdict ps spelling (if fault.isSome then .error else .string)
        (fault.map message).toList := by
  intro spelling
  have inner : hasIllegalEscape spelling = hasIllegalEscape (ps.flatMap chars ++ ['"']) :=
    hasIllegalEscape.eq_2 _ _ fun _ _ quote => by cases quote
  refine ⟨ofString? spelling, ?_, verdict_ofString? ?_⟩
  · rw [show cut '"' cs = cutString cs from rfl, cutString, run_of_closes h]
    rfl
  · rw [inner, hasIllegalEscape_eq_false_iff h.proper]

theorem cut_of_open (h : (run StringState.step .body cs).1.2 ≠ .closed) :
    cut '"' cs = ⟨.error, '"' :: cs, some .unterminatedString, []⟩ := by
  have all := run_append StringState.step .body cs
  rw [run_rest_eq_nil StringState.closed_of_step h, List.append_nil] at all
  rw [show cut '"' cs = cutString cs from rfl, cutString, if_neg h, all,
    run_rest_eq_nil StringState.closed_of_step h]

end StringPiece

end BantamSyntax
