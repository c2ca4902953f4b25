import BantamSyntax.Proofs.Parsing.Positions

/-!
# Visits

The calls that a walk reports, each by the place of its node and the place of the method among the
node's methods. Which calls there are and which of two comes first is said without the walk.
-/
namespace BantamSyntax

/-! ## methods by classes -/

/-- The classes over the class of a node, from the family to the general family. -/
def Label.families : Label → List String
  | list _ => ["ListNode"]
  | constant .. => ["ConstExpr"]
  | binary op => ["Binary" ++ op.words.1.1 ++ "Expr", "BinaryExpr"]
  | unary _ => ["UnaryExpr"]
  | _ => []

/-- The method of a class is named for it, in small letters with the words apart. -/
def methodOf (className : String) : String :=
  "visit" ++ String.ofList (className.toList.flatMap fun c =>
    if c.isUpper then ['_', c.toLower] else if c = '_' then [] else [c])

theorem Label.visits_eq (l : Label) : l.visits = (l.className :: l.families).map methodOf := by
  cases l with
  | binary op => cases op with
    | arithmetic op => cases op <;> decide +kernel
    | comparison op => cases op <;> decide +kernel
    | logical op => cases op <;> decide +kernel
  | unary op =>
    cases op <;> simp only [visits, className, families, UnaryOp.word] <;> decide +kernel
  | constant kind =>
    cases kind <;> simp only [visits, className, families, ConstantKind.word,
      ConstantKind.className] <;> decide +kernel
  | list kind => cases kind <;> decide +kernel
  | _ => simp only [visits, className, families]; decide +kernel

/-- The methods that meet a node, from the most specific to the most general. -/
def Node.methods (n : Node) : List String :=
  (n.label.className :: n.label.families).map methodOf

/-! ## calls -/

/-- A report with the address of its node and the rank of its method among the node's methods. -/
structure Call where
  address : List Nat
  rank : Nat
  visit : Visit
  deriving DecidableEq

variable {hooks : Hooks}

/-- One of the methods stops. -/
def Node.Stops (hooks : Hooks) (n : Node) : Prop :=
  ∃ method ∈ n.methods, hooks method = some .stop

theorem Node.not_stops {n : Node} :
    ¬ n.Stops hooks ↔ ∀ method ∈ n.methods, hooks method ≠ some .stop := by
  simp only [Stops, not_exists, not_and, ne_eq]

namespace Call

/-- The call is one of the node itself: its method is hooked, and no earlier one stops. -/
structure IsOwn (hooks : Hooks) (n : Node) (c : Call) : Prop where
  listed : ∃ earlier later, n.methods = earlier ++ c.visit.method :: later ∧
    c.rank = earlier.length ∧ ∀ method ∈ earlier, hooks method ≠ some .stop
  hooked : (hooks c.visit.method).isSome
  className : c.visit.className = n.label.className
  line : c.visit.line = n.line

/-- The call is reported: it is one of the node at its address, and no node above stops. -/
structure IsMade (hooks : Hooks) (n : Node) (c : Call) : Prop where
  own : ∃ m, n.at? c.address = some m ∧ c.IsOwn hooks m
  reached : ∀ above i below m, c.address = above ++ i :: below → n.at? above = some m →
    ¬ m.Stops hooks

/-- The second call is made while the method of the first goes on. -/
def Encloses (c d : Call) : Prop :=
  c.address = d.address ∧ c.rank < d.rank ∨ ∃ i below, d.address = c.address ++ i :: below

/-- Above the one node stands an earlier child than above the other. -/
def Beside (c d : Call) : Prop :=
  ∃ above i j, i < j ∧ above ++ [i] <+: c.address ∧ above ++ [j] <+: d.address

/-- Which of two reports stands first. -/
inductive Precedes (hooks : Hooks) (c d : Call) : Prop where
  | outer : hooks c.visit.method = some .before → c.Encloses d → Precedes hooks c d
  | inner : hooks d.visit.method = some .after → d.Encloses c → Precedes hooks c d
  | beside : c.Beside d → Precedes hooks c d

/-- The call as it is seen from a node whose child of that place it is below. -/
def under (i : Nat) (c : Call) : Call :=
  { c with address := i :: c.address }

@[simp] theorem under_address (i : Nat) (c : Call) : (c.under i).address = i :: c.address := rfl

@[simp] theorem under_rank (i : Nat) (c : Call) : (c.under i).rank = c.rank := rfl

@[simp] theorem under_visit (i : Nat) (c : Call) : (c.under i).visit = c.visit := rfl

theorem Encloses.under {c d : Call} (i : Nat) : c.Encloses d → (c.under i).Encloses (d.under i)
  | .inl ⟨address, rank⟩ => .inl ⟨by simp [address], rank⟩
  | .inr ⟨j, below, address⟩ => .inr ⟨j, below, by simp [address]⟩

theorem Beside.under {c d : Call} (k : Nat) : c.Beside d → (c.under k).Beside (d.under k)
  | ⟨above, i, j, lt, left, right⟩ =>
    ⟨k :: above, i, j, lt, by simpa using left, by simpa using right⟩

theorem Precedes.under {c d : Call} (i : Nat) :
    Precedes hooks c d → Precedes hooks (c.under i) (d.under i)
  | outer before encloses => outer before (encloses.under i)
  | inner after encloses => inner after (encloses.under i)
  | beside h => beside (h.under i)

/-! ## the order of calls -/

theorem Encloses.asymm {c d : Call} (h : c.Encloses d) : ¬ d.Encloses c := by
  rcases h with ⟨address, rank⟩ | ⟨i, below, address⟩
  · rintro (⟨_, rank'⟩ | ⟨j, below', address'⟩)
    · omega
    · simp [address] at address'
  · rintro (⟨address', _⟩ | ⟨j, below', address'⟩)
    · simp [address] at address'
    · have := congrArg List.length address'
      simp [address] at this

theorem Encloses.isPrefix {c d : Call} : c.Encloses d → c.address <+: d.address
  | .inl ⟨address, _⟩ => address ▸ List.prefix_rfl
  | .inr ⟨i, below, address⟩ => ⟨i :: below, address.symm⟩

theorem Beside.lt {c d : Call} : c.Beside d → c.address < d.address
  | ⟨above, i, j, lt, ⟨below, left⟩, ⟨below', right⟩⟩ => by
    rw [← left, ← right, List.append_assoc, List.append_assoc]
    exact List.append_left_lt (List.cons_lt_cons_iff.2 (.inl lt))

/-- Of two nodes beside each other neither is above the other. -/
theorem Beside.not_prefix {c d : Call} : c.Beside d → ¬ c.address <+: d.address
  | ⟨above, i, j, lt, left, right⟩, h => by
    rcases List.prefix_or_prefix_of_prefix (left.trans h) right with h | h <;>
      simp at h <;> omega

theorem Beside.not_encloses {c d : Call} (h : c.Beside d) : ¬ c.Encloses d :=
  fun encloses => h.not_prefix encloses.isPrefix

theorem Beside.not_enclosed {c d : Call} (h : c.Beside d) : ¬ d.Encloses c := by
  intro encloses
  obtain ⟨below, address⟩ := encloses.isPrefix
  exact absurd (address ▸ h.lt) (List.le_append_left)

/-- Of two calls only one can come first. -/
theorem Precedes.asymm {c d : Call} : Precedes hooks c d → ¬ Precedes hooks d c
  | outer _ encloses, outer _ encloses' => encloses.asymm encloses'
  | outer before _, inner after _ => by simp [before] at after
  | outer _ encloses, beside h => h.not_enclosed encloses
  | inner after _, outer before _ => by simp [before] at after
  | inner _ encloses, inner _ encloses' => encloses.asymm encloses'
  | inner _ encloses, beside h => h.not_encloses encloses
  | beside h, outer _ encloses => h.not_enclosed encloses
  | beside h, inner _ encloses => h.not_encloses encloses
  | beside h, beside h' => List.lt_asymm h.lt h'.lt

end Call

/-! ## records -/

/-- The list of the calls that are made, in the order in which they come. -/
structure IsRecord (hooks : Hooks) (n : Node) (calls : List Call) : Prop where
  made : ∀ c, c ∈ calls ↔ c.IsMade hooks n
  ordered : calls.Pairwise (Call.Precedes hooks)

namespace IsRecord

variable {n : Node} {calls calls' : List Call}

theorem nodup (h : IsRecord hooks n calls) : calls.Nodup :=
  h.ordered.imp fun first (eq : _ = _) => by subst eq; exact first.asymm first

theorem unique (h : IsRecord hooks n calls) (h' : IsRecord hooks n calls') : calls = calls' :=
  ((List.perm_ext_iff_of_nodup h.nodup h'.nodup).2 fun c => by rw [h.made, h'.made]).eq_of_pairwise
    (fun _ _ _ _ first first' => (first.asymm first').elim) h.ordered h'.ordered

end IsRecord

/-! ## the calls at one node -/

/-- The calls of the methods of one node, from the one of that rank on, around those below. -/
def callsAround (hooks : Hooks) (className : String) (line : Int) (below : List Call)
    (rank : Nat) : List String → List Call
  | [] => below
  | method :: rest =>
    let call : Call := ⟨[], rank, ⟨method, className, line⟩⟩
    let calls := callsAround hooks className line below (rank + 1) rest
    match hooks method with
    | none => calls
    | some .before => call :: calls
    | some .after => calls ++ [call]
    | some .stop => [call]

section callsAround

variable {className : String} {line : Int} {below : List Call}

theorem callsAround_visit (methods : List String) (rank : Nat) :
    (callsAround hooks className line below rank methods).map Call.visit =
      (Outline.chain hooks className line (below.map Call.visit) methods).1 := by
  induction methods generalizing rank with
  | nil => rfl
  | cons method rest ih =>
    unfold callsAround Outline.chain
    cases hook : hooks method with
    | none => exact ih _
    | some kind => cases kind <;> simp [ih]

theorem chain_value {inner : List Visit} (methods : List String) :
    (Outline.chain hooks className line inner methods).2 =
      (methods.find? (hooks · = some .stop)).map fun method => method ++ "@" ++ toString line := by
  induction methods with
  | nil => rfl
  | cons method rest ih =>
    unfold Outline.chain
    cases hook : hooks method with
    | none => simp [ih, hook]
    | some kind => cases kind <;> simp [ih, hook]

theorem mem_callsAround_cons {c : Call} {method : String} {rest : List String} {rank : Nat} :
    c ∈ callsAround hooks className line below rank (method :: rest) ↔
      c = ⟨[], rank, ⟨method, className, line⟩⟩ ∧ (hooks method).isSome ∨
      hooks method ≠ some .stop ∧ c ∈ callsAround hooks className line below (rank + 1) rest := by
  conv => lhs; unfold callsAround
  cases hook : hooks method with
  | none => simp
  | some kind => cases kind <;> simp [or_comm]

theorem mem_callsAround {c : Call} {methods : List String} {rank : Nat} :
    c ∈ callsAround hooks className line below rank methods ↔
      (c ∈ below ∧ ∀ method ∈ methods, hooks method ≠ some .stop) ∨
      ∃ method earlier later, c = ⟨[], rank + earlier.length, ⟨method, className, line⟩⟩ ∧
        methods = earlier ++ method :: later ∧ (hooks method).isSome ∧
        ∀ method ∈ earlier, hooks method ≠ some .stop := by
  induction methods generalizing rank with
  | nil => simp [callsAround]
  | cons method rest ih =>
    rw [mem_callsAround_cons, ih]
    constructor
    · rintro (⟨rfl, hooked⟩ | ⟨goes, ⟨mem, go⟩ | ⟨m, earlier, later, rfl, rfl, hooked, go⟩⟩)
      · exact .inr ⟨method, [], rest, by simp [hooked]⟩
      · exact .inl ⟨mem, by simpa [goes] using go⟩
      · exact .inr ⟨m, method :: earlier, later, by simp [Nat.add_right_comm, Nat.add_assoc],
          by simp, hooked, by simpa [goes] using go⟩
    · rintro (⟨mem, go⟩ | ⟨m, _ | ⟨_, earlier⟩, later, rfl, split, hooked, go⟩)
      · simp at go
        exact .inr ⟨go.1, .inl ⟨mem, go.2⟩⟩
      · simp at split
        simp [split, hooked]
      · simp at split go
        obtain ⟨rfl, rfl⟩ := split
        exact .inr ⟨go.1, .inr ⟨m, earlier, later,
          by simp [Nat.add_right_comm, Nat.add_assoc], rfl, hooked, go.2⟩⟩

theorem callsAround_ordered (apart : below.Pairwise (Call.Precedes hooks))
    (deep : ∀ c ∈ below, c.address ≠ []) (methods : List String) (rank : Nat) :
    (callsAround hooks className line below rank methods).Pairwise (Call.Precedes hooks) := by
  -- every later call is below, or of the same node at a higher rank
  have encloses (method : String) (rest : List String) (rank : Nat) :
      ∀ c ∈ callsAround hooks className line below (rank + 1) rest,
        Call.Encloses ⟨[], rank, ⟨method, className, line⟩⟩ c := by
    intro c mem
    rcases mem_callsAround.1 mem with ⟨mem, _⟩ | ⟨m, earlier, later, rfl, -⟩
    · obtain ⟨i, rest, eq⟩ := List.exists_cons_of_ne_nil (deep c mem)
      exact .inr ⟨i, rest, by simp [eq]⟩
    · exact .inl ⟨rfl, by simp; omega⟩
  induction methods generalizing rank with
  | nil => exact apart
  | cons method rest ih =>
    unfold callsAround
    cases hook : hooks method with
    | none => exact ih _
    | some kind =>
      cases kind with
      | before =>
        simpa using ⟨fun c mem => .outer hook (encloses _ _ _ c mem), ih _⟩
      | after =>
        simpa [List.pairwise_append, ih] using
          fun c mem => .inner hook (encloses _ _ _ c mem)
      | stop => simp

end callsAround

/-! ## the calls of a walk -/

namespace Call

/-- The call is made at or below one of the nodes, the first of which has that place. -/
def IsBelow (hooks : Hooks) (place : Nat) (ns : List Node) (c : Call) : Prop :=
  ∃ i m d, ns[i]? = some m ∧ IsMade hooks m d ∧ c = d.under (place + i)

theorem IsBelow.address {place : Nat} {ns : List Node} {c : Call} :
    c.IsBelow hooks place ns → ∃ i below, place ≤ i ∧ c.address = i :: below
  | ⟨i, _, d, _, _, eq⟩ => ⟨place + i, d.address, by omega, by simp [eq]⟩

theorem under_beside {i j : Nat} (lt : i < j) (c d : Call) : (c.under i).Beside (d.under j) :=
  ⟨[], i, j, lt, by simp, by simp⟩

theorem isOwn_iff {n : Node} {c : Call} :
    c.address = [] ∧ c.IsOwn hooks n ↔ ∃ method earlier later,
      c = ⟨[], earlier.length, ⟨method, n.label.className, n.line⟩⟩ ∧
        n.methods = earlier ++ method :: later ∧ (hooks method).isSome ∧
        ∀ method ∈ earlier, hooks method ≠ some .stop := by
  obtain ⟨address, rank, method, className, line⟩ := c
  constructor
  · rintro ⟨rfl, ⟨earlier, later, split, rank, go⟩, hooked, className, line⟩
    exact ⟨method, earlier, later, by simp_all, split, hooked, go⟩
  · rintro ⟨_, earlier, later, ⟨⟩, split, hooked, go⟩
    exact ⟨rfl, ⟨earlier, later, split, rfl, go⟩, hooked, rfl, rfl⟩

theorem isMade_iff {n : Node} {c : Call} :
    c.IsMade hooks n ↔ c.address = [] ∧ c.IsOwn hooks n ∨
      ¬ n.Stops hooks ∧ c.IsBelow hooks 0 n.children := by
  constructor
  · rintro ⟨⟨m, at', own⟩, reached⟩
    cases address : c.address with
    | nil =>
      simp [address] at at'
      exact .inl ⟨rfl, at' ▸ own⟩
    | cons i below =>
      simp [address, Option.bind_eq_some_iff] at at'
      obtain ⟨child, eq, at'⟩ := at'
      refine .inr ⟨reached [] i below n (by simp [address]) rfl, i, child,
        { c with address := below }, eq, ⟨⟨m, at', ?_⟩, ?_⟩, ?_⟩
      · exact ⟨own.listed, own.hooked, own.className, own.line⟩
      · rintro above j rest m' rfl at''
        exact reached (i :: above) j rest m' (by simp [address]) (by simp [eq, at''])
      · cases c
        simp_all [under]
  · rintro (⟨address, own⟩ | ⟨goes, i, child, d, eq, ⟨⟨m, at', own⟩, reached⟩, rfl⟩)
    · exact ⟨⟨n, by simp [address], own⟩, by simp [address]⟩
    · refine ⟨⟨m, by simp [eq, at'], own.listed, own.hooked, own.className, own.line⟩, ?_⟩
      rintro (_ | ⟨_, above⟩) j rest m' split at''
      · cases at''
        exact goes
      · simp at split
        obtain ⟨rfl, split⟩ := split
        simp [eq] at at''
        exact reached above j rest m' split at''

end Call

theorem calls_beside (ns : List Node) (place : Nat)
    (records : ∀ n ∈ ns, ∃ calls, IsRecord hooks n calls ∧
      calls.map Call.visit = (n.outline.walk hooks).1) :
    ∃ calls : List Call, (∀ c, c ∈ calls ↔ c.IsBelow hooks place ns) ∧
      calls.Pairwise (Call.Precedes hooks) ∧
      calls.map Call.visit = ns.flatMap fun n => (n.outline.walk hooks).1 := by
  have lists : ∀ n ∈ ns, ∃ calls, (∀ c, c ∈ calls ↔ c.IsMade hooks n) ∧
      calls.Pairwise (Call.Precedes hooks) ∧
      List.Forall₂ (fun c v => c.visit = v) calls (n.outline.walk hooks).1 := by
    intro n hn
    obtain ⟨calls, record, visits⟩ := records n hn
    exact ⟨calls, record.made, record.ordered, visits ▸ List.forall₂_map_right_iff.2
      (List.forall₂_same.2 fun _ _ => rfl)⟩
  obtain ⟨calls, made, ordered, visits⟩ := Node.exists_beside (fun i _ _ h => h.under i)
    (fun _ _ c d lt => .beside (Call.under_beside lt c d)) place ns lists
  refine ⟨calls, made, ordered, ?_⟩
  rw [← List.forall₂_eq_eq_eq, List.forall₂_map_left_iff]
  exact visits.imp fun c v ⟨i, m, d, _, seen, eq⟩ => eq ▸ seen

theorem exists_record (n : Node) : ∃ calls, IsRecord hooks n calls ∧
    calls.map Call.visit = (n.outline.walk hooks).1 := by
  induction n using Node.children_induction with
  | node n ih =>
    obtain ⟨below, mem, ordered, visits⟩ := calls_beside n.children 0 ih
    have deep : ∀ c ∈ below, c.address ≠ [] := by
      intro c isBelow
      obtain ⟨i, rest, _, eq⟩ := ((mem c).1 isBelow).address
      simp [eq]
    refine ⟨callsAround hooks n.label.className n.line below 0 n.methods, ⟨fun c => ?_, ?_⟩, ?_⟩
    · simp [mem_callsAround, Call.isMade_iff, Call.isOwn_iff, mem, Node.not_stops, or_comm,
        and_comm]
    · exact callsAround_ordered ordered deep _ _
    · rw [callsAround_visit, n.walk_outline, visits, n.label.visits_eq]
      rfl

/--
The calls of a walk are just those that are to be made, each once and in their order. The walk
gives a value just when a method of the node it starts at stops, and then that method's. In a
parsed tree the order of the children is that of the text.
-/
theorem Node.walk_record (hooks : Hooks) (n : Node) :
    (∃ calls, IsRecord hooks n calls ∧ calls.Nodup ∧
      (∀ others, IsRecord hooks n others → others = calls) ∧
      (n.outline.walk hooks).1 = calls.map Call.visit) ∧
    (n.outline.walk hooks).2 =
      (n.methods.find? (hooks · = some .stop)).map (fun m => m ++ "@" ++ toString n.line) ∧
    ∀ text name p q address, (Source.ofText text name).parse = .ok p q →
      (Node.program p).at? address = some n →
      ∃ w, w <:+: Grammar.tokens text ∧ Grammar.InOrder name w n.children := by
  obtain ⟨calls, record, visits⟩ := exists_record n
  refine ⟨⟨calls, record, record.nodup, fun _ h => h.unique record, visits.symm⟩, ?_, ?_⟩
  · rw [n.walk_outline, chain_value, n.label.visits_eq]
    rfl
  · intro text name p q address parsed here
    obtain ⟨w, inside, made⟩ := (Grammar.makes_of_parse parsed).at here
    exact ⟨w, inside, made.children⟩

/-- A general method may report before the children, and a special one stop before it is asked. -/
theorem Node.walk_record_operands :
    let text := "class A \x7b int x =\n !y + this.z; \x7d"
    let hooks : Hooks := fun m => if m = "visit_binary_expr" then some .before
      else if m = "visit_unary_not_expr" then some .stop
      else if m = "visit_unary_expr" then some .after
      else if m = "visit_var_expr" then some .after else none
    ∃ p q n, (Source.ofText text).parse = .ok p q ∧
      (Node.program p).at? [0, 0, 0, 0, 0] = some n ∧
      (n.outline.walk hooks).1 = [⟨"visit_binary_expr", "BinaryArithPlusExpr", 2⟩,
        ⟨"visit_unary_not_expr", "UnaryNotExpr", 2⟩, ⟨"visit_var_expr", "VarExpr", 2⟩,
        ⟨"visit_var_expr", "VarExpr", 2⟩] ∧
      (∃ calls, IsRecord hooks n calls ∧ (n.outline.walk hooks).1 = calls.map Call.visit) ∧
      ∃ w, w <:+: Grammar.tokens text ∧ Grammar.InOrder Source.anonymous w n.children := by
  intro text hooks
  have walked : (parseText text).toOption.map (fun p =>
      ((Node.program p).at? [0, 0, 0, 0, 0]).map fun n => (n.outline.walk hooks).1) =
        some (some [⟨"visit_binary_expr", "BinaryArithPlusExpr", 2⟩,
          ⟨"visit_unary_not_expr", "UnaryNotExpr", 2⟩, ⟨"visit_var_expr", "VarExpr", 2⟩,
          ⟨"visit_var_expr", "VarExpr", 2⟩]) := by
    decide +kernel
  cases parsed : parseText text with
  | error => rw [parsed] at walked; cases walked
  | ok p =>
    obtain ⟨q, hq, -⟩ := Grammar.parse_of_parseText parsed
    rw [parsed] at walked
    obtain ⟨n, hn, visits⟩ := Option.map_eq_some_iff.1 (Option.some.inj walked)
    obtain ⟨⟨calls, record, -, -, eq⟩, -, order⟩ := walk_record hooks n
    exact ⟨p, q, n, hq, hn, visits, ⟨calls, record, eq⟩, order text _ p q _ hq hn⟩

end BantamSyntax
