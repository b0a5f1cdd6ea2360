import InfixCalc.Proofs.Conversion.Failure
import InfixCalc.Proofs.Grammar.Tracking
import InfixCalc.Proofs.Lexeme.Places

/-!
# What a rejection says

The fault of a rejected statement is one that the statement has. `Describes statement fault` says
for every cause what has to be the case, in terms of the text and of its lexemes only: which token
stands at the place of the fault, what comes before it, and which parenthesis is open there.
-/

namespace InfixCalc

/-! ### Places -/

/-- Whether a text stands at a place of a statement, after legal characters only. -/
def StandsAt (statement text : String) (index : Nat) : Prop :=
  ∃ front back : String, statement = front ++ text ++ back ∧ Legal front ∧
    front.utf8ByteSize = index

/-- A token at its place in a statement, with the lexemes before it and the items after it. -/
structure Occurs (statement : String) (before : List Lexeme) (t : Token) (index : Nat)
    (after : List Item) : Prop where
  items : ∃ stop, items statement = before.map .lexeme ++ .lexeme ⟨t, index, stop⟩ :: after
  place : StandsAt statement t.text index

/-- What a fault says about a statement. -/
inductive Describes (statement : String) : Fault → Prop where
  | illegalCharacter {found : Char} {index : Nat}
      (place : StandsAt statement (String.singleton found) index)
      (illegal : Lexeme.isLegal found = false) :
      Describes statement ((Cause.illegalCharacter found).at index)
  /-- An operator after an operator, or one that is no sign and has nothing to its left. -/
  | unexpectedOperator {before : List Lexeme} {op : Operator} {index : Nat} {after : List Item}
      (occurs : Occurs statement before (.operator op) index after)
      (misplaced : (∃ left, previous? before = some (.operator left)) ∨
        op.isSign = false ∧ (before = [] ∨ previous? before = some .opening ∨
          previous? before = some .comma)) :
      Describes statement ((Cause.unexpectedOperator op.symbol).at index)
  | operatorExpected {before : List Lexeme} {t : Token} {index : Nat} {after : List Item}
      (occurs : Occurs statement before t index after)
      (begins : t = .opening ∨ ∃ text, t = .segment text) (ends : EndsOperand before) :
      Describes statement (Cause.operatorExpected.at index)
  | emptyParentheses {before : List Lexeme} {index : Nat} {after : List Item}
      (occurs : Occurs statement before .closing index after)
      (empty : previous? before = some .opening) :
      Describes statement (Cause.emptyParentheses.at index)
  | unexpectedCloseParen {before : List Lexeme} {index : Nat} {after : List Item}
      (occurs : Occurs statement before .closing index after)
      (misplaced : (∃ left, previous? before = some (.operator left)) ∨
        previous? before = some .comma ∨ before = [] ∨
        ∃ n, Balanced (before.map (·.token)) n) :
      Describes statement (Cause.unexpectedCloseParen.at index)
  | unexpectedComma {before : List Lexeme} {index : Nat} {after : List Item}
      (occurs : Occurs statement before .comma index after)
      (misplaced : ¬ EndsOperand before ∨ (∃ n, Balanced (before.map (·.token)) n) ∨
        ∃ outer openAt n, Inside before outer openAt n ∧ callee? (outer.map (·.token)) = none) :
      Describes statement (Cause.unexpectedComma.at index)
  | missingOpenParen {before : List Lexeme} {f : Builtin} {index : Nat} {after : List Item}
      (occurs : Occurs statement before (.segment f.name) index after)
      (missing : ∀ start stop rest, after ≠ .lexeme ⟨.opening, start, stop⟩ :: rest) :
      Describes statement ((Cause.missingOpenParen f.name).at index)
  /-- The call that ends has one argument more than there are commas in it. -/
  | argumentCount {before outer : List Lexeme} {f : Builtin} {expected n index openAt : Nat}
      {after : List Item} (occurs : Occurs statement before .closing index after)
      (inside : Inside before outer openAt n)
      (callee : callee? (outer.map (·.token)) = some f)
      (arity : f.arity = .exact expected) (wrong : expected ≠ n + 1) :
      Describes statement ((Cause.argumentCount f.name expected (n + 1)).at index)
  | invalidNumber {before : List Lexeme} {literal : String} {index : Nat} {after : List Item}
      (occurs : Occurs statement before (.segment literal) index after)
      (digit : Word.startsWithDigit literal) (unread : Number.read? literal = none) :
      Describes statement ((Cause.invalidNumber literal).at index)
  | trailingOperator {ls : List Lexeme} {op : Operator}
      (whole : items statement = ls.map .lexeme) (last : previous? ls = some (.operator op)) :
      Describes statement Cause.trailingOperator.overall
  | unclosedParen {ls outer : List Lexeme} {index n : Nat}
      (whole : items statement = ls.map .lexeme) (inside : Inside ls outer index n)
      (place : StandsAt statement "(" index) :
      Describes statement (Cause.unclosedParen.at index)

/-! ### Items at their places -/

variable {statement : String} {before : List Lexeme} {after is rest : List Item} {c : Conversion}
  {w : Word} {fault : Fault}

lemma standsAt_of_items {item : Item}
    (h : items statement = before.map .lexeme ++ item :: after) :
    StandsAt statement (String.ofList item.chars) item.start := by
  obtain ⟨front, back, hchars, hstart, hfront, -⟩ := Lexeme.exists_of_scan_eq_append h
  refine ⟨String.ofList front, String.ofList back, ?_, ?_, ?_⟩
  · rw [← String.toList_inj, hchars]
    simp
  · apply legal_of_items
    rw [items, String.toList_ofList, hfront]
  · rw [String.utf8ByteSize_ofList, hstart, Nat.zero_add]

lemma occurs_of_items {l : Lexeme}
    (h : items statement = before.map .lexeme ++ .lexeme l :: after) :
    Occurs statement before l.token l.start after := by
  refine ⟨⟨l.stop, h⟩, ?_⟩
  have hplace := standsAt_of_items h
  rwa [Item.chars, String.ofList_toList] at hplace

lemma Inside.standsAt {outer : List Lexeme} {openAt n : Nat} (h : Inside before outer openAt n)
    (hitems : items statement = before.map .lexeme) : StandsAt statement "(" openAt := by
  obtain ⟨stop, inner, rfl, -⟩ := h
  rw [List.map_append, List.map_cons] at hitems
  exact (occurs_of_items hitems).place

/-! ### Faults -/

lemma describes_illegal {found : Char} {index : Nat}
    (h : items statement = before.map .lexeme ++ .illegal found index :: rest) :
    Describes statement ((Cause.illegalCharacter found).at index) := by
  have hplace := standsAt_of_items h
  rw [Item.chars, ← String.singleton_eq_ofList] at hplace
  have hmem : .illegal found index ∈ Lexeme.scan 0 statement.toList := by
    rw [← items, h]
    simp
  exact .illegalCharacter hplace (Lexeme.isLegal_of_illegal_mem hmem)

/-- A word that cannot be read is at fault. -/
theorem describes_of_fails (htracks : Tracks before c)
    (hitems : items statement = before.map .lexeme ++ is) (hheads : Word.Heads is w rest)
    (hfails : Conversion.Fails c w fault) : Describes statement fault := by
  cases hfails with
  | @illegal found index =>
    cases hheads with
    | written hw => cases hw
    | illegal => exact describes_illegal hitems
    | lost segment =>
      have hitems : items statement =
          (before ++ [segment]).map .lexeme ++ .illegal found index :: rest := by
        simp [hitems]
      exact describes_illegal hitems
  | operator hphase =>
    cases hheads with
    | written hw =>
      cases hw
      refine .unexpectedOperator (occurs_of_items hitems) ?_
      rcases hphase with hphase | ⟨hsign, hop⟩
      · exact .inl (htracks.afterOperator_iff.mp hphase)
      · exact .inr ⟨hop, htracks.allowsSign_iff.mp hsign⟩
  | operand hmeaning hphase =>
    have hends := htracks.endsOperand_iff.mpr hphase
    cases hheads with
    | written hw =>
      cases hw with
      | opening => exact .operatorExpected (occurs_of_items hitems) (.inl rfl) hends
      | number | «variable» | call =>
        exact .operatorExpected (occurs_of_items hitems) (.inr ⟨_, rfl⟩) hends
      | operator | closing | comma => cases hmeaning
    | unreadable | bare =>
      exact .operatorExpected (occurs_of_items hitems) (.inr ⟨_, rfl⟩) hends
    | illegal | lost => cases hmeaning
  | empty hphase =>
    cases hheads with
    | written hw =>
      cases hw
      exact .emptyParentheses (occurs_of_items hitems) (htracks.afterOpening_iff.mp hphase)
  | closing hphase =>
    cases hheads with
    | written hw =>
      cases hw
      refine .unexpectedCloseParen (occurs_of_items hitems) ?_
      rcases hphase with hphase | hphase
      · rcases htracks.start_iff.mp hphase with hnil | hcomma
        · exact .inr (.inr (.inl hnil))
        · exact .inr (.inl hcomma)
      · exact .inl (htracks.afterOperator_iff.mp hphase)
  | unmatched hnone =>
    cases hheads with
    | written hw =>
      cases hw
      have hbalanced := htracks.exists_balanced (htracks.groups_eq_nil hnone)
      exact .unexpectedCloseParen (occurs_of_items hitems) (.inr (.inr (.inr hbalanced)))
  | arguments hgroups harity hne =>
    cases hheads with
    | written hw =>
      cases hw
      obtain ⟨outer, n, hinside, hcallee, rfl⟩ := htracks.inside hgroups
      exact .argumentCount (occurs_of_items hitems) hinside hcallee harity hne
  | comma hphase =>
    cases hheads with
    | written hw =>
      cases hw
      exact .unexpectedComma (occurs_of_items hitems)
        (.inl fun hends => hphase (htracks.endsOperand_iff.mp hends))
  | outside hnone =>
    cases hheads with
    | written hw =>
      cases hw
      exact .unexpectedComma (occurs_of_items hitems) (.inr (htracks.outside hnone))
  | bare =>
    cases hheads with
    | written hw => cases hw
    | bare f start stop hrest =>
      refine .missingOpenParen (occurs_of_items hitems) ?_
      rintro openAt openStop rest rfl
      cases hrest
  | unreadable =>
    cases hheads with
    | written hw => cases hw
    | unreadable start stop rest digit unread =>
      exact .invalidNumber (occurs_of_items hitems) digit unread

/-- A statement that is read to its end can still lack something. -/
theorem describes_of_program (htracks : Tracks before c)
    (hitems : items statement = before.map .lexeme) (h : c.program = .error fault) :
    Describes statement fault := by
  rcases Conversion.program_eq_error h with ⟨hphase, rfl⟩ | ⟨group, groups, hgroups, rfl⟩
  · obtain ⟨op, hop⟩ := htracks.afterOperator_iff.mp hphase
    exact .trailingOperator hitems hop
  · obtain ⟨outer, n, hinside, -⟩ := htracks.inside hgroups
    exact .unclosedParen hitems hinside (hinside.standsAt hitems)

/-! ### Statements -/

/-- The fault of words that cannot be read is one that the statement has. -/
lemma describes_of_consume {c : Conversion}
    (h : Conversion.initial.consume (words statement) = (c, some fault)) :
    Describes statement fault := by
  obtain ⟨before, w, after, hwords, hbefore, hread⟩ := Conversion.exists_of_consume_eq_some h
  obtain ⟨ls, is, hitems, his, htracks⟩ := Tracks.initial.consume hwords hbefore
  rcases Word.heads_ofItems is with rfl | ⟨v, rest, hheads, hcons⟩
  · cases his
  · obtain ⟨rfl, -⟩ := List.cons.inj (hcons.symm.trans his)
    exact describes_of_fails htracks hitems hheads (Conversion.fails_of_read hread)

lemma statement_eq_and_describes {r : Rejection} (h : parse statement = .error r) :
    r.statement = statement ∧ Describes statement r.toFault := by
  obtain ⟨hstatement, c, hconsume | ⟨hconsume, hprogram⟩⟩ := parse_eq_error_iff.mp h
  · exact ⟨hstatement, describes_of_consume hconsume⟩
  · obtain ⟨ls, hitems, htracks⟩ := exists_tracks_of_consume hconsume
    exact ⟨hstatement, describes_of_program htracks hitems hprogram⟩

/-- The fault that a statement is rejected for is one that it has. -/
theorem describes_of_parse {r : Rejection} (h : parse statement = .error r) :
    r.statement = statement ∧ Describes statement r.toFault :=
  statement_eq_and_describes h

/-- The inner call of `x + pow(max(y, z))` has two arguments, but the outer one has only one. -/
theorem describes_powerOfMax :
    parse "x + pow(max(y, z))"
        = .error ⟨(Cause.argumentCount "pow" 2 1).at 17, "x + pow(max(y, z))"⟩ ∧
      Describes "x + pow(max(y, z))" ((Cause.argumentCount "pow" 2 1).at 17) := by
  have hfault : (Conversion.initial.consume (words "x + pow(max(y, z))")).2
      = some ((Cause.argumentCount "pow" 2 1).at 17) := by
    decide +kernel
  have hparse : parse "x + pow(max(y, z))"
      = .error ⟨(Cause.argumentCount "pow" 2 1).at 17, "x + pow(max(y, z))"⟩ :=
    parse_eq_error_iff.mpr ⟨rfl, _, .inl (Prod.ext rfl hfault)⟩
  exact ⟨hparse, (describes_of_parse hparse).2⟩

end InfixCalc
