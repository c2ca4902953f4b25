import BantamSyntax.Proofs.Scanning.Lexemes

/-!
# Rules on tokens

What a rule of the grammar comes to, said of the tokens before it alone: a result and the tokens
that are left, or a rejection.
-/
namespace BantamSyntax

/-! ## tokens of lexemes -/

/-- Spelled as the operators of its kind, if these stand in no table of binary operators. -/
structure Token.Genuine (t : Token) : Prop where
  assign : t.kind = .assign → t.spelling = "="
  increment : t.kind = .increment → t.spelling = "++"
  decrement : t.kind = .decrement → t.spelling = "--"

theorem Token.genuine_of_kind {t : Token} (h : t.kind.isOperator = false) : t.Genuine := by
  constructor <;> intro hk <;> rw [hk] at h <;> cases h

/-- The lexemes of a text up to its end. -/
inductive Complete : List Lexeme → Prop where
  | ending {l : Lexeme} (last : l.token.kind = .endOfFile) (clean : l.fault = none) : Complete [l]
  | cons {l : Lexeme} {ls : List Lexeme} (more : l.token.kind ≠ .endOfFile)
      (fault : l.fault.isSome ↔ l.token.kind = .error) (genuine : l.token.Genuine)
      (rest : Complete ls) : Complete (l :: ls)

theorem Complete.genuine {l : Lexeme} {ls : List Lexeme} (h : Complete ls) (hl : l ∈ ls) :
    l.token.Genuine := by
  induction h with
  | ending last clean =>
    rw [List.mem_singleton.1 hl]
    exact Token.genuine_of_kind (by rw [last]; rfl)
  | cons more fault genuine rest ih =>
    rcases List.mem_cons.1 hl with rfl | hl
    · exact genuine
    · exact ih hl

/-- The tokens that the grammar is about. -/
def significant (ls : List Lexeme) : List Token :=
  (ls.map (·.token)).filter (·.kind ≠ .comment)

theorem significant_cons {l : Lexeme} {ls : List Lexeme} (h : l.token.kind ≠ .comment) :
    significant (l :: ls) = l.token :: significant ls := by
  simp [significant, h]

theorem significant_comment {l : Lexeme} {ls : List Lexeme} (h : l.token.kind = .comment) :
    significant (l :: ls) = significant ls := by
  simp [significant, h]

namespace Scanner

theorem cutOperator_genuine (first : Char) (cs : List Char) (line : Int) :
    ((cutOperator first cs).lexeme line).token.Genuine := by
  unfold cutOperator
  split
  · have tabled := mem_of_lookup (Opening.lookup_of_single ‹_›)
    simp only [TokenKind.punctuators, TokenKind.simpleOperators, List.cons_append,
      List.nil_append, List.mem_cons, Prod.mk.injEq, List.not_mem_nil, or_false] at tabled
    constructor <;> intro hk <;> simp_all [Cut.lexeme]
  · obtain ⟨second, hs, h⟩ := Opening.lookup_of_double ‹_›
    have tabled := mem_of_lookup h
    simp only [TokenKind.doubleOperators, List.mem_cons, Prod.mk.injEq, List.not_mem_nil,
      or_false] at tabled
    constructor <;> intro hk <;> simp_all [Cut.lexeme]
  · exact Token.genuine_of_kind rfl
  · unfold cutBlockComment
    dsimp only
    split <;> exact Token.genuine_of_kind rfl
  · exact Token.genuine_of_kind rfl

theorem Cut.checked_genuine {kind : TokenKind} {fault : Option LexicalFault}
    {spelling rest : List Char} {line : Int} (h : kind.isOperator = false) :
    ((Cut.checked kind fault spelling rest).lexeme line).token.Genuine := by
  cases fault with
  | none => exact Token.genuine_of_kind h
  | some fault => exact Token.genuine_of_kind rfl

theorem cut_genuine (first : Char) (cs : List Char) (line : Int) :
    ((cut first cs).lexeme line).token.Genuine := by
  unfold cut
  split
  · exact Token.genuine_of_kind (of_word (p := fun k => k.isOperator = false) rfl (by decide) _)
  split
  · exact Cut.checked_genuine rfl
  split
  · unfold cutString
    dsimp only
    split
    · exact Cut.checked_genuine rfl
    · exact Token.genuine_of_kind rfl
  · exact cutOperator_genuine first cs line

theorem lexemesFrom_complete (line : Nat) (cs : List Char) : Complete (lexemesFrom line cs) := by
  fun_induction lexemesFrom line cs with
  | case1 line => exact .ending rfl rfl
  | case2 line c cs hb ih => exact ih
  | case3 line c cs hb ih =>
    exact .cons (cut_regular c cs).kind (cut_regular c cs).fault (cut_genuine c cs line) ih

end Scanner

/-! ## parsers -/

namespace Parser

/-- The parser stands before the tokens, up to the end of its text, and has met no fault before. -/
inductive Sees (file : String) (p : Parser) : List Token → Prop where
  | ending {t : Token} (name : p.file = file) (current : p.current = some t)
      (last : t.kind = .endOfFile) (clean : p.diagnostics = []) : Sees file p [t]
  | token {t : Token} {ls : List Lexeme} (name : p.file = file) (current : p.current = some t)
      (more : t.kind ≠ .endOfFile) (genuine : t.Genuine)
      (clean : t.kind ≠ .error → p.diagnostics = []) (feed : p.feed.toList = ls.map .ok)
      (complete : Complete ls) : Sees file p (t :: significant ls)

variable {file : String} {p : Parser} {ts : List Token} {ls : List Lexeme}

theorem Sees.name_eq (h : p.Sees file ts) : p.file = file := by
  cases h <;> assumption

theorem Sees.current_eq {t : Token} (h : p.Sees file (t :: ts)) : p.current = some t := by
  cases h <;> assumption

theorem Sees.ne_nil (h : p.Sees file ts) : ts ≠ [] := by
  cases h <;> simp

theorem Sees.genuine {t : Token} (h : p.Sees file ts) (ht : t ∈ ts) : t.Genuine := by
  cases h with
  | ending _ _ last _ =>
    rw [List.mem_singleton.1 ht]
    exact Token.genuine_of_kind (by rw [last]; rfl)
  | token _ _ _ genuine _ _ complete =>
    rcases List.mem_cons.1 ht with rfl | ht
    · exact genuine
    · obtain ⟨l, hl, rfl⟩ := List.mem_map.1 (List.mem_filter.1 ht).1
      exact complete.genuine hl

theorem next_toList {f : Feed} {s : Scan} {ss : List Scan} (h : f.toList = s :: ss)
    (ne : ss ≠ []) : f.next.toList = ss := by
  obtain ⟨first, rest⟩ := f
  obtain ⟨rfl, rfl⟩ := List.cons.inj h
  cases rest with
  | nil => exact absurd rfl ne
  | cons first rest => rfl

theorem advanceOver_sees (complete : Complete ls) :
    ∀ {p : Parser}, p.file = file → p.diagnostics = [] → p.feed.toList = ls.map .ok →
      ∃ q, advanceOver p.feed.first p.feed.rest p = .ok () q ∧ q.Sees file (significant ls) := by
  induction complete with
  | @ending l last clean =>
    intro p name silent feed
    obtain ⟨hf, hr⟩ := List.cons.inj feed
    have kind : l.token.kind ≠ .comment := by rw [last]; decide
    refine ⟨p.accept l, by simp [hf, hr, advanceOver], ?_⟩
    rw [significant_cons kind]
    exact .ending name rfl last (by simp [accept, silent, Lexeme.diagnostic?, clean])
  | @cons l ls more fault genuine rest ih =>
    intro p name silent feed
    have ne : ls.map (Except.ok : Lexeme → Scan) ≠ [] := by cases rest <;> simp
    have next : (p.accept l).feed.toList = ls.map .ok := next_toList feed ne
    have clean : l.token.kind ≠ .error → (p.accept l).diagnostics = [] := by
      intro h
      have : l.fault = none := by simpa [← fault] using h
      simp [accept, silent, Lexeme.diagnostic?, this]
    obtain ⟨hf, hr⟩ := List.cons.inj feed
    obtain ⟨m, ms, hm⟩ := List.exists_cons_of_ne_nil ne
    rw [hm] at hr next
    obtain ⟨nf, nr⟩ := List.cons.inj next
    by_cases kind : l.token.kind = .comment
    · have silent := clean (by rw [kind]; decide)
      obtain ⟨q, hq, sees⟩ := ih (p := p.accept l) name silent (by rw [next, hm])
      refine ⟨q, ?_, by rwa [significant_comment kind]⟩
      rw [nf, nr] at hq
      simpa [hf, hr, advanceOver, kind] using hq
    · refine ⟨p.accept l, by simp [hf, hr, advanceOver, kind], ?_⟩
      rw [significant_cons kind]
      exact .token name rfl more genuine clean (by rw [next, hm]) rest

theorem advance_sees (name : p.file = file) (silent : p.diagnostics = [])
    (feed : p.feed.toList = ls.map .ok) (complete : Complete ls) :
    ∃ q, advance p = .ok () q ∧ q.Sees file (significant ls) := by
  obtain ⟨q, hq, sees⟩ := advanceOver_sees complete name silent feed
  exact ⟨q, bind_eq_ok.2 ⟨p, p, rfl, hq⟩, sees⟩

/-! ## outcomes -/

/-- Wherever it sees the tokens, the rule gives a result and sees others, or rejects them. -/
def Runs (file : String) {α : Type} (x : ParserM α) (ts : List Token) :
    Option (α × List Token) → Prop
  | some (a, us) => ∀ p : Parser, p.Sees file ts → ∃ q, x p = .ok a q ∧ q.Sees file us
  | none => ∀ p : Parser, p.Sees file ts → ∃ d q, x p = .error (.rejected (some d)) q

section

variable {α β : Type} {x : ParserM α} {f : α → ParserM β} {t : Token} {us : List Token}
  {o : Option (β × List Token)}

theorem runs_pure (a : α) : Runs file (pure a) ts (some (a, ts)) :=
  fun p h => ⟨p, rfl, h⟩

theorem Runs.bind {a : α} (hx : Runs file x ts (some (a, us))) (hf : Runs file (f a) us o) :
    Runs file (x >>= f) ts o := by
  cases o with
  | none =>
    intro p h
    obtain ⟨q, hq, h⟩ := hx p h
    obtain ⟨d, r, hr⟩ := hf q h
    exact ⟨d, r, by rw [bind_of_ok hq, hr]⟩
  | some =>
    intro p h
    obtain ⟨q, hq, h⟩ := hx p h
    obtain ⟨r, hr, h⟩ := hf q h
    exact ⟨r, by rw [bind_of_ok hq, hr], h⟩

theorem Runs.bind_none (hx : Runs file x ts none) : Runs file (x >>= f) ts none := by
  intro p h
  obtain ⟨d, q, hq⟩ := hx p h
  exact ⟨d, q, bind_of_error hq⟩

/-- Tokens that no parser sees run to anything. -/
theorem Runs.of_sees {o : Option (α × List Token)}
    (h : ∀ p : Parser, p.Sees file ts → Runs file x ts o) : Runs file x ts o := by
  cases o with
  | none => exact fun p hp => h p hp p hp
  | some => exact fun p hp => h p hp p hp

theorem Runs.of_genuine {o : Option (α × List Token)}
    (h : (∀ t ∈ ts, t.Genuine) → Runs file x ts o) : Runs file x ts o :=
  .of_sees fun _ hp => h fun _ => hp.genuine

theorem Runs.of_cons {o : Option (α × List Token)}
    (h : ∀ t us, ts = t :: us → Runs file x ts o) : Runs file x ts o :=
  .of_sees fun _ hp =>
    have ⟨t, us, e⟩ := List.exists_cons_of_ne_nil hp.ne_nil
    h t us e

/-! ## outcomes of single steps -/

theorem runs_token : Runs file token (t :: us) (some (t, t :: us)) :=
  fun p h => ⟨p, bind_eq_ok.2 ⟨p, p, rfl, by rw [h.current_eq]; rfl⟩, h⟩

theorem runs_check {kind : TokenKind} :
    Runs file (check kind) (t :: us) (some (decide (t.kind = kind), t :: us)) :=
  runs_token.bind (runs_pure _)

/-- A kind that a rule may go on from. -/
def passes (kind : TokenKind) : Bool :=
  kind ≠ .endOfFile && kind ≠ .error

theorem runs_advance (h : passes t.kind = true) : Runs file advance (t :: us) (some ((), us)) := by
  simp only [passes, Bool.and_eq_true, decide_eq_true_eq] at h
  intro p hp
  cases hp with
  | ending _ _ last _ => exact absurd last h.1
  | token name _ _ _ clean feed complete => exact advance_sees name (clean h.2) feed complete

theorem runs_take (h : passes t.kind = true) : Runs file take (t :: us) (some (t, us)) :=
  runs_token.bind ((runs_advance h).bind (runs_pure t))

theorem runs_fail {expected : Expected} : Runs file (fail expected : ParserM α) ts none := by
  intro p h
  obtain ⟨t, us, rfl⟩ := List.exists_cons_of_ne_nil h.ne_nil
  obtain ⟨q, hq, h⟩ := runs_token p h
  have stops : ∃ d r, (fail expected : ParserM α) p =
      .error (.rejected (q.diagnostics ++ [d]).head?) r := ⟨_, _, (bind_of_ok hq).trans rfl⟩
  obtain ⟨d, r, hr⟩ := stops
  have met : ∃ first, (q.diagnostics ++ [d]).head? = some first := by
    cases q.diagnostics <;> simp
  obtain ⟨first, hf⟩ := met
  exact ⟨first, r, by rw [hr, hf]⟩

theorem runs_expect {kind : TokenKind} {expected : Expected} (h : t.kind = kind)
    (hp : passes kind = true) : Runs file (expect kind expected) (t :: us) (some (t, us)) := by
  apply runs_check.bind
  rw [decide_eq_true h, if_pos rfl]
  exact runs_take (h ▸ hp)

theorem runs_expect_none {kind : TokenKind} {expected : Expected} (h : t.kind ≠ kind) :
    Runs file (expect kind expected) (t :: us) none := by
  apply runs_check.bind
  rw [decide_eq_false h, if_neg (by simp)]
  exact runs_fail

theorem runs_name {expected : Expected} (h : t.kind = .identifier) :
    Runs file (name expected) (t :: us) (some (t.spelling, us)) :=
  (runs_expect h rfl).bind (runs_pure _)

theorem runs_name_none {expected : Expected} (h : t.kind ≠ .identifier) :
    Runs file (name expected) (t :: us) none :=
  (runs_expect_none h).bind_none

theorem runs_takeIf {kind : TokenKind} (h : t.kind = kind) (hp : passes kind = true) :
    Runs file (takeIf kind) (t :: us) (some (true, us)) := by
  apply runs_check.bind
  rw [decide_eq_true h, if_pos rfl]
  exact (runs_advance (h ▸ hp)).bind (runs_pure true)

theorem runs_takeIf_false {kind : TokenKind} (h : t.kind ≠ kind) :
    Runs file (takeIf kind) (t :: us) (some (false, t :: us)) := by
  apply runs_check.bind
  rw [decide_eq_false h, if_neg (by simp)]
  exact runs_pure false

section

variable {x y : ParserM β} {kind : TokenKind}

theorem runs_ifCheck (h : t.kind = kind) (hx : Runs file x (t :: us) o) :
    Runs file (do if ← check kind then x else y) (t :: us) o :=
  runs_check.bind (by rwa [decide_eq_true h, if_pos rfl])

theorem runs_ifCheck_not (h : t.kind ≠ kind) (hy : Runs file y (t :: us) o) :
    Runs file (do if ← check kind then x else y) (t :: us) o :=
  runs_check.bind (by rwa [decide_eq_false h, if_neg (by simp)])

theorem runs_ifTakeIf (h : t.kind = kind) (hp : passes kind = true) (hx : Runs file x us o) :
    Runs file (do if ← takeIf kind then x else y) (t :: us) o :=
  (runs_takeIf h hp).bind (by rwa [if_pos rfl])

theorem runs_ifTakeIf_not (h : t.kind ≠ kind) (hy : Runs file y (t :: us) o) :
    Runs file (do if ← takeIf kind then x else y) (t :: us) o :=
  (runs_takeIf_false h).bind (by rwa [if_neg (by simp)])

end

end

/-! ## results -/

/-- The rule reads some tokens from the front, of which with the result and the tokens left `P`
holds, or rejects what it sees. It does not run out of steps. -/
def Reads (file : String) {α : Type} (x : ParserM α) (ts : List Token)
    (P : List Token → α → List Token → Prop) : Prop :=
  ∃ o, Runs file x ts o ∧ ∀ a us, o = some (a, us) → ∃ w, ts = w ++ us ∧ P w a us

namespace Reads

variable {α β : Type} {x : ParserM α} {f : α → ParserM β} {t : Token} {us : List Token}
  {P : List Token → α → List Token → Prop} {Q : List Token → β → List Token → Prop}

theorem of_runs {a : α} {w : List Token} (hx : Runs file x (w ++ us) (some (a, us)))
    (h : P w a us) : Reads file x (w ++ us) P := by
  refine ⟨_, hx, fun b vs e => ?_⟩
  cases e
  exact ⟨w, rfl, h⟩

theorem of_none (hx : Runs file x ts none) : Reads file x ts P :=
  ⟨none, hx, fun _ _ e => nomatch e⟩

theorem of_cons (h : ∀ t us, ts = t :: us → Reads file x ts P) : Reads file x ts P := by
  cases ts with
  | nil => exact .of_none fun p hp => absurd rfl hp.ne_nil
  | cons t us => exact h t us rfl

theorem imp {P' : List Token → α → List Token → Prop} (hx : Reads file x ts P)
    (h : ∀ w a us, ts = w ++ us → P w a us → P' w a us) : Reads file x ts P' := by
  obtain ⟨o, ho, hP⟩ := hx
  refine ⟨o, ho, fun a us e => ?_⟩
  obtain ⟨w, hw, hp⟩ := hP a us e
  exact ⟨w, hw, h w a us hw hp⟩

theorem bind (hx : Reads file x ts P)
    (hf : ∀ w a us, ts = w ++ us → P w a us →
      Reads file (f a) us fun v b vs => Q (w ++ v) b vs) :
    Reads file (x >>= f) ts Q := by
  obtain ⟨o, ho, hP⟩ := hx
  cases o with
  | none => exact .of_none ho.bind_none
  | some r =>
    obtain ⟨a, us⟩ := r
    obtain ⟨w, rfl, hp⟩ := hP a us rfl
    obtain ⟨o, hr, hQ⟩ := hf w a us rfl hp
    refine ⟨o, ho.bind hr, fun b vs e => ?_⟩
    obtain ⟨v, rfl, hq⟩ := hQ b vs e
    exact ⟨w ++ v, (List.append_assoc ..).symm, hq⟩

theorem pure {a : α} (h : P [] a ts) : Reads file (pure a) ts P :=
  .of_runs (runs_pure a) h

theorem fail {expected : Expected} : Reads file (fail expected) ts P :=
  .of_none runs_fail

/-- A rule that looks but takes nothing. -/
theorem stay {a : α} (hx : Runs file x ts (some (a, ts))) (hf : Reads file (f a) ts Q) :
    Reads file (x >>= f) ts Q := by
  obtain ⟨o, ho, hQ⟩ := hf
  exact ⟨o, hx.bind ho, hQ⟩

/-- A rule that takes one token. -/
theorem step {a : α} (hx : Runs file x (t :: us) (some (a, us)))
    (hf : Reads file (f a) us fun v b vs => Q (t :: v) b vs) :
    Reads file (x >>= f) (t :: us) Q := by
  obtain ⟨o, ho, hQ⟩ := hf
  refine ⟨o, hx.bind ho, fun b vs e => ?_⟩
  obtain ⟨v, rfl, hq⟩ := hQ b vs e
  exact ⟨t :: v, rfl, hq⟩

theorem token {f : Token → ParserM β} (hf : Reads file (f t) (t :: us) Q) :
    Reads file (token >>= f) (t :: us) Q :=
  .stay runs_token hf

theorem advance {f : Unit → ParserM β} (h : passes t.kind = true)
    (hf : Reads file (f ()) us fun v b vs => Q (t :: v) b vs) :
    Reads file (advance >>= f) (t :: us) Q :=
  .step (runs_advance h) hf

theorem take {f : Token → ParserM β} (h : passes t.kind = true)
    (hf : Reads file (f t) us fun v b vs => Q (t :: v) b vs) :
    Reads file (take >>= f) (t :: us) Q :=
  .step (runs_take h) hf

variable {kind : TokenKind} {expected : Expected}

theorem expect {f : Token → ParserM β} (hp : passes kind = true)
    (hf : ∀ t us, ts = t :: us → t.kind = kind →
      Reads file (f t) us fun v b vs => Q (t :: v) b vs) :
    Reads file (expect kind expected >>= f) ts Q := by
  refine .of_cons fun t us e => ?_
  subst e
  by_cases h : t.kind = kind
  · exact .step (runs_expect h hp) (hf t us rfl h)
  · exact .of_none (runs_expect_none h).bind_none

theorem name {f : String → ParserM β}
    (hf : ∀ t us, ts = t :: us → t.kind = .identifier →
      Reads file (f t.spelling) us fun v b vs => Q (t :: v) b vs) :
    Reads file (name expected >>= f) ts Q := by
  refine .of_cons fun t us e => ?_
  subst e
  by_cases h : t.kind = .identifier
  · exact .step (runs_name h) (hf t us rfl h)
  · exact .of_none (runs_name_none h).bind_none

theorem ifCheck {x y : ParserM α} (hx : t.kind = kind → Reads file x (t :: us) P)
    (hy : t.kind ≠ kind → Reads file y (t :: us) P) :
    Reads file (do if ← check kind then x else y) (t :: us) P := by
  by_cases h : t.kind = kind
  · obtain ⟨o, ho, hP⟩ := hx h
    exact ⟨o, runs_ifCheck h ho, hP⟩
  · obtain ⟨o, ho, hP⟩ := hy h
    exact ⟨o, runs_ifCheck_not h ho, hP⟩

theorem ifTakeIf {x y : ParserM α} (hp : passes kind = true)
    (hx : t.kind = kind → Reads file x us fun v a vs => P (t :: v) a vs)
    (hy : t.kind ≠ kind → Reads file y (t :: us) P) :
    Reads file (do if ← takeIf kind then x else y) (t :: us) P := by
  by_cases h : t.kind = kind
  · obtain ⟨o, ho, hP⟩ := hx h
    refine ⟨o, runs_ifTakeIf h hp ho, fun a vs e => ?_⟩
    obtain ⟨w, rfl, hw⟩ := hP a vs e
    exact ⟨t :: w, rfl, hw⟩
  · obtain ⟨o, ho, hP⟩ := hy h
    exact ⟨o, runs_ifTakeIf_not h ho, hP⟩

end Reads

end Parser

/-! ## kinds of operators -/

namespace Grammar

open BantamSyntax.Parser

variable {t : Token}

theorem passes_of_constantKind? {kind : TokenKind} {k : ConstantKind}
    (h : constantKind? kind = some k) : passes kind = true := by
  cases kind <;> first | rfl | cases h

theorem passes_of_suffixOp? {kind : TokenKind} {op : UnaryOp} (h : suffixOp? kind = some op) :
    passes kind = true := by
  cases kind <;> first | rfl | cases h

theorem passes_of_signOp? {op : UnaryOp} (h : signOp? t = some op) : passes t.kind = true := by
  unfold signOp? at h
  split at h
  all_goals first | cases h; done | simp [passes, *]

theorem Level.spelling_of_op? {l : Level} {op : BinaryOp} (h : l.op? t = some op) :
    t.kind.isOperator = true ∧ t.spelling ∈ l.operators.map (·.1) := by
  unfold op? at h
  split at h
  · exact ⟨‹_›, List.mem_map.2 ⟨_, Scanner.mem_of_lookup h, rfl⟩⟩
  · cases h

theorem passes_of_op? {l : Level} {op : BinaryOp} (h : l.op? t = some op) :
    passes t.kind = true := by
  have := (Level.spelling_of_op? h).1
  revert this
  cases t.kind <;> first | exact fun _ => rfl | exact fun h => nomatch h

end Grammar
end BantamSyntax
