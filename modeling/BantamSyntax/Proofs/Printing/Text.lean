import BantamSyntax.Proofs.Printing.Pieces

/-!
# Scanning printed text

The text that a tree is printed as has the tree's symbols, whatever the indentation.
-/
namespace BantamSyntax
namespace Scanner

open BantamSyntax.Symbol

/-! ## expressions -/

theorem apart_closing (cs : List Char) : Apart (')' :: cs) :=
  apart_cons rfl

theorem begins_name {s : String} (h : isName s = true) : BeginsExpr s.toList := by
  simp only [isName, isWord, Bool.and_eq_true] at h
  have word := h.1
  split at word
  · cases word
  · rename_i c cs hs
    simp only [Bool.and_eq_true] at word
    exact ⟨c, cs, hs, .inl word.1⟩

theorem symbolsOf_qualify {receiver : Option String} {name : String} {cs : List Char}
    (hr : receiver.all isReceiver = true) (hn : isName name = true) (apart : Apart cs) :
    symbolsOf ((qualify receiver name).toList ++ cs) = reference receiver name ++ symbolsOf cs := by
  cases receiver with
  | none => exact symbolsOf_name hn apart
  | some r =>
    have dot : Apart ('.' :: (name.toList ++ cs)) := apart_cons rfl
    simp only [qualify, reference, String.toList_append, String.reduceToList, List.append_assoc,
      List.cons_append, List.nil_append]
    rw [symbolsOf_name (isName_of_isReceiver hr) dot, symbolsOf_dot, symbolsOf_name hn apart]

theorem begins_qualify {receiver : Option String} {name : String}
    (hr : receiver.all isReceiver = true) (hn : isName name = true) :
    BeginsExpr (qualify receiver name).toList := by
  cases receiver with
  | none => exact begins_name hn
  | some r =>
    simp only [qualify, String.toList_append, List.append_assoc]
    exact (begins_name (isName_of_isReceiver hr)).append _

theorem nonempty_of_isReceiver {receiver : Option String}
    (h : receiver.all isReceiver = true) : nonempty receiver = receiver := by
  cases receiver with
  | none => rfl
  | some r =>
    simp only [Option.all_some, isReceiver, Grammar.receivers, List.mem_cons, List.not_mem_nil,
      or_false, decide_eq_true_eq] at h
    rcases h with rfl | rfl <;> rfl

theorem symbolsOf_keyword (s : String) {k : TokenKind} {c : Char} (cs : List Char)
    (word : isWord s = true) (known : TokenKind.reserved.lookup s = some k)
    (stop : isWordChar c = false) :
    symbolsOf (s.toList ++ c :: cs) = (k, s) :: symbolsOf (c :: cs) := by
  rw [symbolsOf_word word (apart_cons stop), known]
  rfl

end Scanner

open Scanner BantamSyntax.Symbol

theorem ConstantKind.begins {kind : ConstantKind} {s : String} (h : kind.Spells s) :
    BeginsExpr s.toList := by
  cases kind with
  | integer =>
    have digits := h.1
    simp only [Numeral.isDigits, Bool.and_eq_true] at digits
    cases hs : s.toList with
    | nil => simp [hs] at digits
    | cons c cs =>
      rw [hs, List.all_cons, Bool.and_eq_true] at digits
      exact ⟨c, cs, rfl, .inr (.inl digits.2.1)⟩
  | boolean => rcases h with rfl | rfl <;> exact ⟨_, _, rfl, .inl rfl⟩
  | string =>
    obtain ⟨body, hs, _⟩ := isString_of_scansAlone h
    exact ⟨'"', body, hs, .inr (.inr (.inl rfl))⟩

theorem Expr.begins {e : Expr} (h : e.Valid) : BeginsExpr e.source.toList := by
  have opened (cs : List Char) : BeginsExpr ('(' :: cs) := ⟨'(', cs, rfl, by simp⟩
  cases e with
  | constant => exact ConstantKind.begins h
  | var v =>
    have ⟨hr, hn⟩ := Variable.valid_parts h
    exact begins_qualify hr hn
  | call _ receiver method _ arguments =>
    simp only [source, String.toList_append, List.append_assoc]
    exact (begins_qualify (Variable.receiver_name h.1) h.2.1).append _
  | unary _ op operand =>
    simp only [source]
    split <;> simp only [String.toList_append, String.reduceToList, List.append_assoc,
      List.cons_append, List.nil_append] <;> exact opened _
  | _ =>
    simp only [source, String.toList_append, String.reduceToList, List.append_assoc,
      List.cons_append, List.nil_append]
    first | exact opened _ | exact ⟨_, _, rfl, .inl rfl⟩

mutual

theorem Expr.scans {e : Expr} (h : e.Valid) {cs : List Char} (apart : Apart cs) :
    symbolsOf (e.source.toList ++ cs) = e.symbols ++ symbolsOf cs := by
  match e with
  | .constant .. => exact symbolsOf_constant h apart
  | .var v =>
    have ⟨hr, hn⟩ := Variable.valid_parts h
    exact symbolsOf_qualify hr hn apart
  | .assign _ receiver name value =>
    obtain ⟨hr, hn, hv⟩ := h
    have closed := Expr.scans hv (apart_closing cs)
    simp only [source, nonempty_of_isReceiver hr, String.toList_append, String.reduceToList,
      List.append_assoc, List.cons_append, List.nil_append]
    rw [symbolsOf_opening, symbolsOf_qualify hr hn (apart_cons rfl), symbolsOf_space,
      symbolsOf_equals, symbolsOf_space, closed, symbolsOf_closing]
    simp [symbols]
  | .call _ receiver method _ arguments =>
    obtain ⟨hr, hn, ha⟩ := h
    have closed := Expr.scans_all ha (apart_closing cs)
    simp only [source, String.toList_append, String.reduceToList, List.append_assoc,
      List.cons_append, List.nil_append]
    rw [symbolsOf_qualify (Variable.receiver_name hr) hn (apart_cons rfl), symbolsOf_opening,
      closed, symbolsOf_closing]
    simp [symbols]
  | .new _ type =>
    have word := symbolsOf_keyword "new" (k := .newWord) (c := ' ')
      (type.toList ++ '(' :: ')' :: cs) rfl rfl rfl
    simp only [source, String.toList_append, String.reduceToList, List.append_assoc,
      List.cons_append, List.nil_append] at word ⊢
    rw [word, symbolsOf_space, symbolsOf_name h (apart_cons rfl), symbolsOf_opening,
      symbolsOf_closing]
    rfl
  | .cast _ type operand =>
    obtain ⟨hn, ho⟩ := h
    have closed := Expr.scans ho (apart_closing cs)
    have word := symbolsOf_keyword "cast" (k := .castWord) (c := '(')
      (type.toList ++ ',' :: ' ' :: (operand.source.toList ++ ')' :: cs)) rfl rfl rfl
    simp only [source, String.toList_append, String.reduceToList, List.append_assoc,
      List.cons_append, List.nil_append] at word ⊢
    rw [word, symbolsOf_opening, symbolsOf_name hn (apart_cons rfl), symbolsOf_comma,
      symbolsOf_space, closed, symbolsOf_closing]
    simp [symbols]
  | .binary _ op left right =>
    obtain ⟨hl, hr⟩ := h
    have closed := Expr.scans hr (apart_closing cs)
    have apart' (ds : List Char) : Apart (' ' :: ds) := apart_cons rfl
    simp only [source, String.toList_append, String.reduceToList, List.append_assoc,
      List.cons_append, List.nil_append]
    rw [symbolsOf_opening, Expr.scans hl (apart' _), symbolsOf_space, symbolsOf_binary,
      symbolsOf_space, closed, symbolsOf_closing]
    simp [symbols]
  | .unary _ op operand =>
    have valid : operand.Valid := h
    have closed := Expr.scans valid (apart_closing cs)
    cases hs : op.side with
    | before =>
      simp only [source, hs, String.toList_append, String.reduceToList, List.append_assoc,
        List.cons_append, List.nil_append]
      rw [symbolsOf_opening, symbolsOf_before op ((Expr.begins valid).append _), closed,
        symbolsOf_closing]
      simp [symbols, hs]
    | after =>
      have operated := Expr.scans valid (apart_after op (')' :: cs))
      simp only [source, hs, String.toList_append, String.reduceToList, List.append_assoc,
        List.cons_append, List.nil_append]
      rw [symbolsOf_opening, operated, symbolsOf_after hs, symbolsOf_closing]
      simp [symbols, hs]

theorem Expr.scans_all {es : List Expr} (h : Expr.AllValid es) {cs : List Char}
    (apart : Apart cs) :
    symbolsOf ((Expr.sources es).toList ++ cs) = Expr.symbolsAll es ++ symbolsOf cs := by
  match es with
  | [] => rfl
  | [e] => exact Expr.scans h.1 apart
  | e :: e' :: es =>
    have rest := Expr.scans_all h.2 apart
    simp only [sources, String.toList_append, String.reduceToList, List.append_assoc,
      List.cons_append, List.nil_append]
    rw [Expr.scans h.1 (apart_cons rfl), symbolsOf_comma, symbolsOf_space, rest]
    simp [symbolsAll]

end

/-! ## lines -/

/-- The text is scanned as the symbols, if no word goes on after it. -/
def Scans (text : String) (w : List Symbol) : Prop :=
  ∀ cs, Apart cs → symbolsOf (text.toList ++ cs) = w ++ symbolsOf cs

theorem Expr.scans_or {e : Option Expr} (h : ∀ e' ∈ e, e'.Valid) :
    Scans (Expr.sourceOr e) (Expr.symbolsOr e) := by
  cases e with
  | none => exact fun cs _ => rfl
  | some e => exact fun cs => Expr.scans (h e rfl)

/-- The texts, each on a new line. -/
def onLines (texts : List String) : List Char :=
  texts.flatMap fun s => '\n' :: s.toList

theorem onLines_cons (s : String) (texts : List String) :
    onLines (s :: texts) = '\n' :: (s.toList ++ onLines texts) :=
  rfl

theorem onLines_append (texts others : List String) :
    onLines (texts ++ others) = onLines texts ++ onLines others :=
  List.flatMap_append

theorem apart_onLines (texts : List String) {cs : List Char} (h : Apart cs) :
    Apart (onLines texts ++ cs) := by
  cases texts with
  | nil => exact h
  | cons => exact apart_cons rfl

/-- Once on new lines, the lines are scanned as the symbols. -/
def LinesScan (width indent : Int) (ls : List Line) (w : List Symbol) : Prop :=
  ∀ cs, Apart cs → symbolsOf (onLines (ls.map (Line.render width indent)) ++ cs) = w ++ symbolsOf cs

section

variable {width indent : Int} {ls ms : List Line} {v w : List Symbol}

theorem LinesScan.nil : LinesScan width indent [] [] :=
  fun _ _ => rfl

theorem LinesScan.cons (depth : Nat) {text : String} (h : Scans text v)
    (rest : LinesScan width indent ls w) :
    LinesScan width indent (⟨depth, text⟩ :: ls) (v ++ w) := by
  intro cs apart
  rw [List.map_cons, onLines_cons, List.cons_append, symbolsOf_newline, Line.render,
    String.toList_append, List.append_assoc, List.append_assoc, symbolsOf_blanks,
    h _ (apart_onLines _ apart), rest cs apart, List.append_assoc]

theorem LinesScan.one (depth : Nat) {text : String} (h : Scans text v) :
    LinesScan width indent [⟨depth, text⟩] v := by
  rw [← List.append_nil v]
  exact .cons depth h .nil

theorem LinesScan.append (first : LinesScan width indent ls v)
    (second : LinesScan width indent ms w) : LinesScan width indent (ls ++ ms) (v ++ w) := by
  intro cs apart
  rw [List.map_append, onLines_append, List.append_assoc, first _ (apart_onLines _ apart),
    second cs apart, List.append_assoc]

end

/-! ## statements -/

theorem scans_openBrace : Scans "\x7b" [openBrace] :=
  fun cs _ => symbolsOf_openBrace cs

theorem scans_closeBrace : Scans "\x7d" [closeBrace] :=
  fun cs _ => symbolsOf_closeBrace cs

theorem scans_else : Scans "else" [(.elseWord, "else")] :=
  fun _ apart => symbolsOf_word (s := "else") rfl apart

section

variable {name : String} {e : Expr}

theorem scans_declare (hn : isName name = true) (he : e.Valid) :
    Scans ("var " ++ name ++ " = " ++ e.source ++ ";")
      ((.varWord, "var") :: (.identifier, name) :: equals :: e.symbols ++ [semicolon]) := by
  intro cs _
  have word := symbolsOf_keyword "var" (k := .varWord) (c := ' ')
    (name.toList ++ ' ' :: '=' :: ' ' :: (e.source.toList ++ ';' :: cs)) rfl rfl rfl
  simp only [String.toList_append, String.reduceToList, List.append_assoc, List.cons_append,
    List.nil_append] at word ⊢
  rw [word, symbolsOf_space, symbolsOf_name hn (apart_cons rfl), symbolsOf_space, symbolsOf_equals,
    symbolsOf_space, Expr.scans he (apart_cons rfl), symbolsOf_semicolon]

theorem scans_statement (he : e.Valid) : Scans (e.source ++ ";") (e.symbols ++ [semicolon]) := by
  intro cs _
  simp only [String.toList_append, String.reduceToList, List.append_assoc, List.cons_append,
    List.nil_append]
  rw [Expr.scans he (apart_cons rfl), symbolsOf_semicolon]

/-- The condition of an `if` or a `while`, after the word. -/
theorem scans_condition (word : String) {k : TokenKind} (he : e.Valid)
    (spelled : isWord word = true) (known : TokenKind.reserved.lookup word = some k) :
    Scans (word ++ " (" ++ e.source ++ ")") ((k, word) :: opening :: e.symbols ++ [closing]) := by
  intro cs _
  have head := symbolsOf_keyword word (c := ' ') ('(' :: (e.source.toList ++ ')' :: cs)) spelled
    known rfl
  simp only [String.toList_append, String.reduceToList, List.append_assoc, List.cons_append,
    List.nil_append]
  rw [head, symbolsOf_space, symbolsOf_opening, Expr.scans he (apart_cons rfl), symbolsOf_closing]

theorem scans_for {init condition update : Option Expr} (hi : ∀ e ∈ init, e.Valid)
    (hc : ∀ e ∈ condition, e.Valid) (hu : ∀ e ∈ update, e.Valid) :
    Scans ("for (" ++ Expr.sourceOr init ++ "; " ++ Expr.sourceOr condition ++ "; "
        ++ Expr.sourceOr update ++ ")")
      ((.forWord, "for") :: opening :: Expr.symbolsOr init ++ semicolon :: Expr.symbolsOr condition
        ++ semicolon :: Expr.symbolsOr update ++ [closing]) := by
  intro cs _
  have word := symbolsOf_keyword "for" (k := .forWord) (c := ' ')
    ('(' :: ((Expr.sourceOr init).toList ++ ';' :: ' ' :: ((Expr.sourceOr condition).toList
      ++ ';' :: ' ' :: ((Expr.sourceOr update).toList ++ ')' :: cs)))) rfl rfl rfl
  simp only [String.toList_append, String.reduceToList, List.append_assoc, List.cons_append,
    List.nil_append] at word ⊢
  rw [word, symbolsOf_space, symbolsOf_opening, Expr.scans_or hi _ (apart_cons rfl),
    symbolsOf_semicolon, symbolsOf_space, Expr.scans_or hc _ (apart_cons rfl),
    symbolsOf_semicolon, symbolsOf_space, Expr.scans_or hu _ (apart_cons rfl), symbolsOf_closing]

/-- A statement that is a word alone. -/
theorem scans_alone (word : String) {k : TokenKind} (spelled : isWord word = true)
    (known : TokenKind.reserved.lookup word = some k) :
    Scans (word ++ ";") [(k, word), semicolon] := by
  intro cs _
  have head := symbolsOf_keyword word (c := ';') cs spelled known rfl
  simp only [String.toList_append, String.reduceToList, List.append_assoc, List.cons_append,
    List.nil_append]
  rw [head, symbolsOf_semicolon]

theorem scans_return (he : e.Valid) :
    Scans ("return " ++ e.source ++ ";")
      ((.returnWord, "return") :: e.symbols ++ [semicolon]) := by
  intro cs _
  have word := symbolsOf_keyword "return" (k := .returnWord) (c := ' ')
    (e.source.toList ++ ';' :: cs) rfl rfl rfl
  simp only [String.toList_append, String.reduceToList, List.append_assoc, List.cons_append,
    List.nil_append] at word ⊢
  rw [word, symbolsOf_space, Expr.scans he (apart_cons rfl), symbolsOf_semicolon]

end

mutual

theorem Stmt.scans {s : Stmt} (h : s.Valid) (width indent : Int) (depth : Nat) :
    LinesScan width indent (s.lines depth) s.symbols := by
  match s with
  | .block _ _ body =>
    exact (LinesScan.cons depth scans_openBrace (Stmt.scans_all h width indent (depth + 1))).append
      (.one depth scans_closeBrace)
  | .declare .. => exact .one depth (scans_declare h.1 h.2)
  | .expr .. => exact .one depth (scans_statement h)
  | .ifThen _ _ consequent =>
    have branch := Stmt.scans h.2 width indent (consequent.depthUnder depth)
    have all := LinesScan.cons depth (scans_condition "if" h.1 rfl rfl) branch
    simpa only [lines, symbols, String.reduceAppend, List.append_assoc, List.cons_append,
      List.nil_append] using all
  | .ifElse _ _ consequent alternative =>
    have branch := Stmt.scans h.2.1 width indent (consequent.depthUnder depth)
    have last := Stmt.scans h.2.2 width indent (alternative.depthUnder depth)
    have all := (LinesScan.cons depth (scans_condition "if" h.1 rfl rfl) branch).append
      (.cons depth scans_else last)
    simpa only [lines, symbols, String.reduceAppend, List.append_assoc, List.cons_append,
      List.nil_append] using all
  | .while _ _ body =>
    have repeated := Stmt.scans h.2 width indent (body.depthUnder depth)
    have all := LinesScan.cons depth (scans_condition "while" h.1 rfl rfl) repeated
    simpa only [lines, symbols, String.reduceAppend, List.append_assoc, List.cons_append,
      List.nil_append] using all
  | .for _ _ _ _ body =>
    have repeated := Stmt.scans h.2.2.2 width indent (body.depthUnder depth)
    have all := LinesScan.cons depth (scans_for h.1 h.2.1 h.2.2.1) repeated
    simpa only [lines, symbols, List.append_assoc, List.cons_append, List.nil_append] using all
  | .break .. => exact .one depth (scans_alone "break" rfl rfl)
  | .return _ none => exact .one depth (scans_alone "return" rfl rfl)
  | .return _ (some value) => exact .one depth (scans_return (h value rfl))

theorem Stmt.scans_all {ss : List Stmt} (h : Stmt.AllValid ss) (width indent : Int)
    (depth : Nat) :
    LinesScan width indent (Stmt.linesAll depth ss) (Stmt.symbolsAll ss) := by
  match ss with
  | [] => exact .nil
  | s :: ss =>
    exact (Stmt.scans h.1 width indent depth).append (Stmt.scans_all h.2 width indent depth)

end

/-! ## classes -/

theorem Formal.scans {f : Formal} (h : f.isValid = true) : Scans f.text f.symbols := by
  intro cs apart
  simp only [isValid, Bool.and_eq_true] at h
  simp only [text, String.toList_append, String.reduceToList, List.append_assoc, List.cons_append,
    List.nil_append]
  rw [symbolsOf_name h.1 (apart_cons rfl), symbolsOf_space, symbolsOf_name h.2 apart]
  rfl

theorem Formal.scans_all {fs : List Formal} (h : fs.all Formal.isValid = true) :
    Scans (Formal.texts fs) (Formal.symbolsAll fs) := by
  intro cs apart
  induction fs with
  | nil => rfl
  | cons f fs ih =>
    rw [List.all_cons, Bool.and_eq_true] at h
    cases fs with
    | nil => exact Formal.scans h.1 cs apart
    | cons f' fs =>
      have rest := ih h.2
      simp only [texts, List.map_cons, String.intercalate_cons_cons, String.toList_append,
        String.reduceToList, List.append_assoc, List.cons_append, List.nil_append] at rest ⊢
      rw [Formal.scans h.1 _ (apart_cons rfl), symbolsOf_comma, symbolsOf_space, rest]
      simp [symbolsAll]

section

variable {type name : String}

theorem scans_field (ht : isName type = true) (hn : isName name = true) :
    Scans (type ++ " " ++ name ++ ";") [(.identifier, type), (.identifier, name), semicolon] := by
  intro cs _
  simp only [String.toList_append, String.reduceToList, List.append_assoc, List.cons_append,
    List.nil_append]
  rw [symbolsOf_name ht (apart_cons rfl), symbolsOf_space, symbolsOf_name hn (apart_cons rfl),
    symbolsOf_semicolon]

theorem scans_fieldInit {e : Expr} (ht : isName type = true) (hn : isName name = true)
    (he : e.Valid) :
    Scans (type ++ " " ++ name ++ " = " ++ e.source ++ ";")
      ((.identifier, type) :: (.identifier, name) :: equals :: e.symbols ++ [semicolon]) := by
  intro cs _
  simp only [String.toList_append, String.reduceToList, List.append_assoc, List.cons_append,
    List.nil_append]
  rw [symbolsOf_name ht (apart_cons rfl), symbolsOf_space, symbolsOf_name hn (apart_cons rfl),
    symbolsOf_space, symbolsOf_equals, symbolsOf_space, Expr.scans he (apart_cons rfl),
    symbolsOf_semicolon]

theorem scans_method {fs : List Formal} (ht : isName type = true) (hn : isName name = true)
    (hf : fs.all Formal.isValid = true) :
    Scans (type ++ " " ++ name ++ "(" ++ Formal.texts fs ++ ") \x7b")
      ((.identifier, type) :: (.identifier, name) :: opening :: Formal.symbolsAll fs
        ++ [closing, openBrace]) := by
  intro cs _
  simp only [String.toList_append, String.reduceToList, List.append_assoc, List.cons_append,
    List.nil_append]
  rw [symbolsOf_name ht (apart_cons rfl), symbolsOf_space, symbolsOf_name hn (apart_cons rfl),
    symbolsOf_opening, Formal.scans_all hf _ (apart_cons rfl), symbolsOf_closing, symbolsOf_space,
    symbolsOf_openBrace]

end

theorem Member.scans {m : Member} (h : m.Valid) (width indent : Int) (depth : Nat) :
    LinesScan width indent (m.lines depth) m.symbols := by
  cases m with
  | field _ type name init =>
    obtain ⟨ht, hn, hi⟩ := h
    cases init with
    | none => exact .one depth (scans_field ht hn)
    | some e => exact .one depth (scans_fieldInit ht hn (hi e rfl))
  | method _ type name _ formals _ body =>
    obtain ⟨ht, hn, hf, hb⟩ := h
    have all := (LinesScan.cons depth (scans_method ht hn hf)
      (Stmt.scans_all hb width indent (depth + 1))).append (.one depth scans_closeBrace)
    simpa only [lines, symbols, List.append_assoc, List.cons_append, List.nil_append] using all

theorem Member.scans_all {ms : List Member} (h : ∀ m ∈ ms, m.Valid) (width indent : Int)
    (depth : Nat) :
    LinesScan width indent (ms.flatMap (Member.lines depth)) (ms.flatMap Member.symbols) := by
  induction ms with
  | nil => exact .nil
  | cons m ms ih =>
    rw [List.flatMap_cons, List.flatMap_cons]
    exact (Member.scans (h m (by simp)) width indent depth).append
      (ih fun m' hm => h m' (by simp [hm]))

theorem nonempty_of_isName {parent : Option String} (h : parent.all isName = true) :
    nonempty parent = parent := by
  cases parent with
  | none => rfl
  | some name =>
    have ne : name ≠ "" := by
      rintro rfl
      cases h
    simp [nonempty, ne]

theorem toList_intercalate (s : String) (texts : List String) :
    ("\n".intercalate (s :: texts)).toList = s.toList ++ onLines texts := by
  induction texts generalizing s with
  | nil => simp [onLines]
  | cons t texts ih =>
    rw [String.intercalate_cons_cons, String.toList_append, ih, onLines_cons, String.toList_append,
      List.append_assoc]
    rfl

theorem ClassDecl.scans_heading {c : ClassDecl} (hn : isName c.name = true)
    (hp : c.parent.all isName = true) :
    Scans ("class " ++ c.heading ++ " \x7b")
      ((.classWord, "class") :: (.identifier, c.name) :: ofParent c.parent ++ [openBrace]) := by
  intro cs _
  have classWord (cs : List Char) := symbolsOf_keyword "class" (k := .classWord) (c := ' ') cs
    rfl rfl rfl
  have extendsWord (cs : List Char) := symbolsOf_keyword "extends" (k := .extendsWord) (c := ' ') cs
    rfl rfl rfl
  simp only [String.reduceToList, List.cons_append, List.nil_append] at classWord extendsWord
  simp only [heading, nonempty_of_isName hp]
  cases hc : c.parent with
  | none =>
    simp only [String.toList_append, String.reduceToList, List.append_assoc, List.cons_append,
      List.nil_append]
    rw [classWord, symbolsOf_space, symbolsOf_name hn (apart_cons rfl), symbolsOf_space,
      symbolsOf_openBrace]
    rfl
  | some parent =>
    rw [hc] at hp
    simp only [String.toList_append, String.reduceToList, List.append_assoc, List.cons_append,
      List.nil_append]
    rw [classWord, symbolsOf_space, symbolsOf_name hn (apart_cons rfl), symbolsOf_space,
      extendsWord, symbolsOf_space, symbolsOf_name hp (apart_cons rfl), symbolsOf_space,
      symbolsOf_openBrace]
    rfl

theorem ClassDecl.scans {c : ClassDecl} (h : c.Valid) (width indent : Int) :
    Scans (c.source width indent) c.symbols := by
  obtain ⟨hn, hp, hm⟩ := h
  intro cs _
  have ending : Apart (onLines ["\x7d"] ++ '\n' :: cs) := apart_cons rfl
  have closed : symbolsOf (onLines ["\x7d"] ++ '\n' :: cs) = closeBrace :: symbolsOf cs := by
    refine (symbolsOf_newline _).trans ((symbolsOf_closeBrace ('\n' :: cs)).trans ?_)
    rw [symbolsOf_newline]
  have parts : (c.source width indent).toList ++ cs =
      ("class " ++ c.heading ++ " \x7b").toList ++
        (onLines ((c.members.flatMap (Member.lines 1)).map (Line.render width indent)) ++
          (onLines ["\x7d"] ++ '\n' :: cs)) := by
    rw [source, String.toList_append, List.cons_append, toList_intercalate, onLines_append,
      List.append_assoc, List.append_assoc, List.append_assoc]
    rfl
  rw [parts, ClassDecl.scans_heading hn hp _ (apart_onLines _ ending),
    Member.scans_all hm width indent 1 _ ending, closed]
  simp [symbols]

/-- Printed programs are scanned as the symbols of their trees, whatever the indentation. -/
theorem Program.scans {p : Program} (h : p.Valid) (width indent : Int) :
    Scans (p.source width indent) p.symbols := by
  obtain ⟨line, classesLine, cs⟩ := p
  intro ds apart
  simp only [source, symbols, Program.Valid] at h ⊢
  induction cs with
  | nil => rfl
  | cons c cs ih =>
    have first := ClassDecl.scans (h c (by simp)) width indent
    cases cs with
    | nil => simpa using first ds apart
    | cons c' cs =>
      have rest := ih fun d hd => h d (by simp [hd])
      simp only [List.map_cons, String.intercalate_cons_cons, String.toList_append,
        String.reduceToList, List.append_assoc, List.cons_append, List.nil_append] at rest ⊢
      rw [first _ (apart_cons rfl), symbolsOf_newline, rest]
      simp

end BantamSyntax
