import BantamSyntax.Proofs.Parsing.Alike
import BantamSyntax.Proofs.Parsing.Running

/-!
# Twins

Two runs of a rule keep in step for as long as the tokens that they come to are alike: they take the
same decisions, and give alike results or the same errors. A run with fewer steps may get stuck.
-/
namespace BantamSyntax
namespace Parser

/-- The rules do the same, step by step, from the two current tokens on. The first may get stuck.
They go on only from tokens of the kinds that they may leave behind. -/
inductive Twin (lines : Int → Int → Prop) (may : TokenKind → Bool) {α β : Type}
    (R : α → β → Prop) : Option Token → Option Token → ParserM α → ParserM β → Prop where
  | done {o o' : Option Token} {a : α} {b : β} (h : R a b) : Twin lines may R o o' (pure a) (pure b)
  | unprimed {f : Token → ParserM α} {g : Token → ParserM β} :
      Twin lines may R none none (token >>= f) (token >>= g)
  | look {t u : Token} {f : Token → ParserM α} {g : Token → ParserM β}
      (h : Twin lines may R (some t) (some u) (f t) (g u)) :
      Twin lines may R (some t) (some u) (token >>= f) (token >>= g)
  | move {o o' : Option Token} {f : Unit → ParserM α} {g : Unit → ParserM β}
      (leaves : o.all (fun t => may t.kind) = true)
      (h : ∀ t u, t.Alike lines u → Twin lines may R (some t) (some u) (f ()) (g ())) :
      Twin lines may R o o' (advance >>= f) (advance >>= g)
  | file {o o' : Option Token} {f : String → ParserM α} {g : String → ParserM β}
      (h : ∀ name name', Twin lines may R o o' (f name) (g name')) :
      Twin lines may R o o' (get >>= fun p => f p.file) (get >>= fun p => g p.file)
  | fail {o o' : Option Token} {expected : Expected} :
      Twin lines may R o o' (fail expected) (fail expected)
  | stuck {o o' : Option Token} {y : ParserM β} : Twin lines may R o o' (throw .stuck) y

/-- The rules are twins wherever they start, at tokens that are alike. -/
def Twins (lines : Int → Int → Prop) (may : TokenKind → Bool) {α β : Type} (R : α → β → Prop)
    (x : ParserM α) (y : ParserM β) : Prop :=
  ∀ o o', Option.Rel (Token.Alike lines) o o' → Twin lines may R o o' x y

/-- Among the kinds are all that rules go on from. -/
def Broad (may : TokenKind → Bool) : Prop :=
  ∀ kind, passes kind = true → may kind = true

variable {lines : Int → Int → Prop} {may : TokenKind → Bool} {α β γ δ : Type} {R : α → β → Prop}
  {S : γ → δ → Prop} {o o' : Option Token} {t u : Token} {x : ParserM α} {y : ParserM β}
  {f : α → ParserM γ} {g : β → ParserM δ} {kind : TokenKind} {expected : Expected}

theorem fail_bind : (Parser.fail expected >>= f : ParserM γ) = Parser.fail expected := by
  simp only [Parser.fail, bind_assoc]
  rfl

theorem Twin.bind (h : Twin lines may R o o' x y) (rel : Option.Rel (Token.Alike lines) o o')
    (hf : ∀ a b, R a b → Twins lines may S (f a) (g b)) :
    Twin lines may S o o' (x >>= f) (y >>= g) := by
  induction h with
  | done h =>
    rw [pure_bind, pure_bind]
    exact hf _ _ h _ _ rel
  | unprimed =>
    rw [bind_assoc, bind_assoc]
    exact .unprimed
  | look _ ih =>
    rw [bind_assoc, bind_assoc]
    exact .look (ih rel)
  | move leaves _ ih =>
    rw [bind_assoc, bind_assoc]
    exact .move leaves fun t u alike => ih t u alike (.some alike)
  | @file _ _ f' g' _ ih =>
    rw [bind_assoc, bind_assoc]
    exact .file (f := fun name => f' name >>= f) (g := fun name => g' name >>= g)
      fun name name' => ih name name' rel
  | fail =>
    rw [fail_bind, fail_bind]
    exact .fail
  | stuck => exact .stuck

theorem Twins.at (h : Twins lines may R x y) (alike : t.Alike lines u) :
    Twin lines may R (some t) (some u) x y :=
  h _ _ (.some alike)

theorem Twins.pure {a : α} {b : β} (h : R a b) : Twins lines may R (pure a) (pure b) :=
  fun _ _ _ => .done h

theorem Twins.bind (h : Twins lines may R x y)
    (hf : ∀ a b, R a b → Twins lines may S (f a) (g b)) :
    Twins lines may S (x >>= f) (y >>= g) :=
  fun o o' rel => (h o o' rel).bind rel hf

theorem Twins.fail : Twins lines may R (fail expected) (fail expected) :=
  fun _ _ _ => .fail

theorem Twins.stuck : Twins lines may R (throw .stuck) y :=
  fun _ _ _ => .stuck

/-! ## single steps -/

theorem Twins.look {f : Token → ParserM α} {g : Token → ParserM β}
    (h : ∀ t u, t.Alike lines u → Twin lines may R (some t) (some u) (f t) (g u)) :
    Twins lines may R (token >>= f) (token >>= g) := by
  intro o o' rel
  cases rel with
  | none => exact .unprimed
  | some alike => exact .look (h _ _ alike)

theorem Twin.advance {f : Unit → ParserM α} {g : Unit → ParserM β}
    (leaves : o.all (fun t => may t.kind) = true) (h : Twins lines may R (f ()) (g ())) :
    Twin lines may R o o' (advance >>= f) (advance >>= g) :=
  .move leaves fun _ _ alike => h.at alike

theorem Twin.take {f : Token → ParserM α} {g : Token → ParserM β}
    (rel : Option.Rel (Token.Alike lines) o o') (leaves : o.all (fun t => may t.kind) = true)
    (h : ∀ t u, t.Alike lines u → Twins lines may R (f t) (g u)) :
    Twin lines may R o o' (take >>= f) (take >>= g) := by
  rw [Parser.take, bind_assoc, bind_assoc]
  cases rel with
  | none => exact .unprimed
  | some alike =>
    refine .look ?_
    rw [bind_assoc, bind_assoc]
    exact .advance leaves (h _ _ alike)

theorem Twin.ifCheck {x x' : ParserM α} {y y' : ParserM β} (alike : t.Alike lines u)
    (h : t.kind = kind → Twin lines may R (some t) (some u) x y)
    (h' : t.kind ≠ kind → Twin lines may R (some t) (some u) x' y') :
    Twin lines may R (some t) (some u) (do if ← check kind then x else x')
      (do if ← check kind then y else y') := by
  rw [check, bind_assoc, bind_assoc]
  refine .look ?_
  rw [pure_bind, pure_bind, ← alike.kind]
  by_cases hk : t.kind = kind
  · simpa [hk] using h hk
  · simpa [hk] using h' hk

theorem Twins.ifCheck {x x' : ParserM α} {y y' : ParserM β}
    (h : ∀ t u, t.Alike lines u → t.kind = kind → Twin lines may R (some t) (some u) x y)
    (h' : Twins lines may R x' y') :
    Twins lines may R (do if ← Parser.check kind then x else x')
      (do if ← Parser.check kind then y else y') := by
  intro o o' rel
  cases rel with
  | none =>
    rw [check, bind_assoc, bind_assoc]
    exact .unprimed
  | some alike => exact .ifCheck alike (h _ _ alike) fun _ => h'.at alike

theorem Twins.check : Twins lines may Eq (check kind) (check kind) :=
  .look fun _ _ alike => .done (by rw [alike.kind])

theorem Twins.expect (leaves : may kind = true) :
    Twins lines may (Token.Alike lines) (expect kind expected) (expect kind expected) := by
  refine .ifCheck (fun t u alike h => ?_) .fail
  subst h
  rw [← bind_pure Parser.take]
  exact .take (.some alike) leaves fun _ _ alike => .pure alike

theorem Twins.name (leaves : may .identifier = true) :
    Twins lines may Eq (name expected) (name expected) :=
  (Twins.expect leaves).bind fun _ _ alike => .pure alike.spelling

theorem Twins.takeIf (leaves : may kind = true) :
    Twins lines may Eq (takeIf kind) (takeIf kind) := by
  refine .ifCheck (fun t u _ h => ?_) (.pure rfl)
  subst h
  exact .advance leaves (.pure rfl)

theorem Twins.ifTakeIf {x x' : ParserM α} {y y' : ParserM β} (leaves : may kind = true)
    (h : Twins lines may R x y) (h' : Twins lines may R x' y') :
    Twins lines may R (do if ← Parser.takeIf kind then x else x')
      (do if ← Parser.takeIf kind then y else y') := by
  refine (Twins.takeIf leaves).bind ?_
  rintro b _ rfl
  cases b
  · exact h'
  · exact h

/-! ## repetition -/

theorem Twins.afterCommas (leaves : may .comma = true) (h : Twins lines may R x y) {n n' : Nat}
    (hn : n ≤ n') :
    Twins lines may (List.Forall₂ R) (afterCommas x n) (afterCommas y n') := by
  induction n generalizing n' with
  | zero => exact .stuck
  | succ n ih =>
    cases n' with
    | zero => cases hn
    | succ n' =>
      refine Twins.ifTakeIf leaves (h.bind fun _ _ first => ?_) (.pure .nil)
      exact (ih (Nat.le_of_succ_le_succ hn)).bind fun _ _ rest => .pure (.cons first rest)

theorem Twins.untilBrace (h : Twins lines may R x y) {n n' : Nat} (hn : n ≤ n') :
    Twins lines may (List.Forall₂ R) (untilBrace x n) (untilBrace y n') := by
  induction n generalizing n' with
  | zero => exact .stuck
  | succ n ih =>
    cases n' with
    | zero => cases hn
    | succ n' =>
      refine .ifCheck (fun _ _ _ _ => .done .nil) (.ifCheck (fun _ _ _ _ => .done .nil) ?_)
      refine h.bind fun _ _ first => ?_
      exact (ih (Nat.le_of_succ_le_succ hn)).bind fun _ _ rest => .pure (.cons first rest)

theorem Twins.commaList (leaves : may .comma = true) (h : Twins lines may R x y) {n n' : Nat}
    (hn : n ≤ n') :
    Twins lines may (List.Forall₂ R) (commaList n x) (commaList n' y) := by
  refine .ifCheck (fun _ _ _ _ => .done .nil) (h.bind fun _ _ first => ?_)
  exact (Twins.afterCommas leaves h hn).bind fun _ _ rest => .pure (.cons first rest)

end Parser
end BantamSyntax
