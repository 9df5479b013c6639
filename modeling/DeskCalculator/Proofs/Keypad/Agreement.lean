import DeskCalculator.Proofs.Expression.Boundary
import DeskCalculator.Proofs.Expression.Placement
import DeskCalculator.Proofs.Keypad.Chain
import DeskCalculator.Proofs.Keypad.Range

namespace DeskCalculator

open Text

section Scanning

variable {cs rest : List Char} {c : Char} (p : Nat)

theorem Unsigned.isNumeralChar (h : Unsigned cs) : ∀ c ∈ cs, isNumeralChar c = true := by
  intro c hc
  by_cases hpoint : c = '.'
  · simp [DeskCalculator.isNumeralChar, hpoint]
  · simp [DeskCalculator.isNumeralChar, h.isDigit hc hpoint]

theorem scanFrom_operand (h : Unsigned cs) (hfinite : (Binary64.ofPlain cs).isFinite = true)
    (hrest : ∀ c ∈ rest.head?, isNumeralChar c = false) : scanFrom p (cs ++ rest) =
      scanFrom (p + cs.length) rest >>= fun ts => .ok (⟨.number (.ofPlain cs), p⟩ :: ts) := by
  obtain ⟨c, ds, rfl⟩ := List.exists_cons_of_ne_nil h.plain.ne_nil
  have hc : isNumeralChar c = true := h.isNumeralChar c (by simp)
  have hblank : ¬isBlank c = true := fun hb =>
    Bool.false_ne_true ((isNumeralChar_blank hb).symm.trans hc)
  have htake : (ds ++ rest).takeWhile isNumeralChar = ds := by
    rw [List.takeWhile_append_of_pos fun d hd => h.isNumeralChar d (by simp [hd])]
    cases rest with
    | nil => simp
    | cons d rest => simp [hrest d rfl]
  have hlexeme : lexemeAt p c (ds ++ rest) =
      .ok (some (.number (.ofPlain (c :: ds))), ds.length) := by
    rw [lexemeAt, if_neg hblank, if_pos hc, htake]
    simp [h.numeralLexeme_eq, hfinite, Except.map]
  rw [List.cons_append, scanFrom_cons, hlexeme, ok_bind, List.drop_left, List.length_cons,
    Nat.add_assoc, Nat.add_comm 1]
  rfl

theorem scanFrom_operator (hc : operatorSymbols.contains c = true) : scanFrom p (c :: rest) =
    scanFrom (p + 1) rest >>= fun ts => .ok (⟨.operator (String.singleton c), p⟩ :: ts) := by
  have hlexeme : lexemeAt p c rest = .ok (some (.operator (String.singleton c)), 0) := by
    simp only [operatorSymbols, List.contains_cons, List.contains_nil, Bool.or_false,
      Bool.or_eq_true, beq_iff_eq] at hc
    rcases hc with rfl | rfl | rfl | rfl | rfl <;> rfl
  rw [scanFrom_cons, hlexeme, ok_bind]
  rfl

end Scanning

def Operator.operation? : Operator → Option Operation
  | .add => some .plus
  | .subtract => some .minus
  | .multiply => some .times
  | .divide => some .over
  | .percent => none

section Operations

variable {op : Operator} {operation : Operation}

theorem Operator.apply_eq (h : op.operation? = some operation) (x y : Value) :
    op.apply x y = operation.apply x y := by
  cases op <;> cases h <;> rfl

theorem Operation.ofSymbol?_symbol (operation : Operation) :
    ofSymbol? operation.symbol = some operation := by
  cases operation <;> rfl

theorem derives_binary (h : op.operation? = some operation) {a b t : Token} {k : Nat}
    (ha : a.kind = .number) (hb : b.kind = .number)
    (ht : t.lexeme.symbol? = some operation.symbol) :
    Derives .expression (k + 1) [a, t, b]
      (.binary operation.symbol (.literal a.value) (.literal b.value)) := by
  have hleft : Derives .unary (k + 1) [a] (.literal a.value) := .power (.primary (.number ha))
  have hright : Derives .unary (k + 1) [b] (.literal b.value) := .power (.primary (.number hb))
  cases op with
  | add | subtract =>
    cases h
    exact .sum (.term (.unary hleft)) ht (by decide) (.unary hright)
  | multiply | divide =>
    cases h
    exact .term (.product (.unary hleft) ht (by decide) hright)
  | percent => cases h

theorem exists_symbol (h : op.operation? = some operation) :
    ∃ c, operation.symbol = String.singleton c ∧ operatorSymbols.contains c = true ∧
      isNumeralChar c = false := by
  cases op with
  | add => cases h; exact ⟨'+', rfl, rfl, rfl⟩
  | subtract => cases h; exact ⟨'-', rfl, rfl, rfl⟩
  | multiply => cases h; exact ⟨'*', rfl, rfl, rfl⟩
  | divide => cases h; exact ⟨'/', rfl, rfl, rfl⟩
  | percent => cases h

end Operations

section Binary

variable (a b : Entry) {op : Operator} {operation : Operation}

theorem evaluateText_binary (h : op.operation? = some operation)
    (ha : a.operand.value.isFinite = true) (hb : b.operand.value.isFinite = true) :
    evaluateText (a.text ++ operation.symbol ++ b.text) =
      op.apply (.real a.operand.value) (.real b.operand.value) >>= fun n => .ok n.toValue := by
  obtain ⟨c, hsymbol, hc, hnumeral⟩ := exists_symbol h
  have htext : (a.text ++ operation.symbol ++ b.text).toList =
      a.text.toList ++ c :: (b.text.toList ++ []) := by
    simp [hsymbol]
  have hscan : ∃ i j k l, scan (a.text ++ operation.symbol ++ b.text) =
      .ok ([⟨.number a.operand.value, i⟩, ⟨.operator operation.symbol, j⟩,
        ⟨.number b.operand.value, k⟩] ++ [⟨.finish, l⟩]) := by
    rw [scan, htext, scanFrom_operand 0 a.unsigned ha (by simp [hnumeral]),
      scanFrom_operator _ hc, scanFrom_operand _ b.unsigned hb (by simp), scanFrom.eq_def, hsymbol]
    exact ⟨_, _, _, _, rfl⟩
  obtain ⟨i, j, k, l, hscan⟩ := hscan
  have hparse : parseText (a.text ++ operation.symbol ++ b.text) = .ok (.binary operation.symbol
      (.literal (.real a.operand.value)) (.literal (.real b.operand.value))) := by
    rw [parseText, hscan]
    exact parse_of_derives (derives_binary h rfl rfl rfl) rfl
  rw [evaluateText, hparse, ok_bind, Expression.evaluate_eq_value, Operator.apply_eq h]
  simp only [Expression.value, ok_bind, applyBinary, Operation.ofSymbol?_symbol]
  rfl

def Entry.binaryKeys (a : Entry) (op : Operator) (b : Entry) : List Action :=
  a.keys ++ (⟨op, b⟩ : Link).keys

theorem afterAll_binaryKeys (decimals : Int) : State.initial.afterAll decimals
    (a.binaryKeys op b) = .ok ((⟨op, b⟩ : Link).pending a.operand) := by
  have hevaluate : (State.initial.typing a.operand).evaluate decimals = .ok _ :=
    State.evaluate_of_not_pending rfl
  rw [Entry.binaryKeys, State.afterAll_append (a.afterAll_keys decimals (.inr rfl)),
    afterAll_link hevaluate]
  rfl

variable {decimals : Int} {x : Binary64} {f : Fault}

theorem evaluate_binary : ((⟨op, b⟩ : Link).pending a.operand).evaluate decimals =
    op.compute decimals a.operand.value b.operand.value >>= fun o => .ok (.resolved o "") :=
  State.evaluate_pending rfl rfl

theorem evaluate_binary_ok (h0 : 0 ≤ decimals) (h15 : decimals ≤ 15)
    (h : op.apply (.real a.operand.value) (.real b.operand.value) = .ok (.real x))
    (hx : x.isFinite = true) :
    ∃ o, (x.rounded decimals.toNat).display = .ok o.chars ∧
      ((⟨op, b⟩ : Link).pending a.operand).evaluate decimals = .ok (.resolved o "") := by
  obtain ⟨o, ho, hdisplay⟩ := Operand.exists_ofValue (Binary64.isFinite_rounded hx decimals.toNat)
  refine ⟨o, hdisplay, ?_⟩
  rw [evaluate_binary, Operator.compute, h, ok_bind, Number.quantity_real,
    Quantity.roundHalfUp_ofReal x h0 h15, ok_bind, ho, ok_bind]

theorem evaluate_binary_fault
    (h : op.apply (.real a.operand.value) (.real b.operand.value) = .error (.fault f)) :
    ((⟨op, b⟩ : Link).pending a.operand).evaluate decimals = .error (.fault f) := by
  rw [evaluate_binary, Operator.compute, h, error_bind, error_bind]

end Binary

namespace Session

/-- The keypad and the expressions compute the same. The keys of two numbers and an operator are
all taken exactly if the expression has a value, of which the rounded one is shown; otherwise the
equals key shows the fault of the expression. -/
theorem keys_agree {decimals : Int} (h0 : 0 ≤ decimals) (h15 : decimals ≤ 15) (a b : Entry)
    {x y : Binary64} (hx : Binary64.ofText a.text = .ok x) (hy : Binary64.ofText b.text = .ok y)
    (hxfinite : x.isFinite = true) (hyfinite : y.isFinite = true) {op : Operator}
    {operation : Operation} (hop : op.operation? = some operation) :
    let keys := a.binaryKeys op b
    let outcome := (evaluationReport (a.text ++ operation.symbol ++ b.text)).outcome
    ((start decimals).Quiet (keys ++ [.equals]) ↔ ∃ w, outcome = .ok (.ok w)) ∧
    (∀ w, outcome = .ok (.ok w) → ∃ rounded shown,
      w.quantity.roundHalfUp (.int decimals) = .ok rounded ∧ rounded.display = .ok shown ∧
        ((start decimals).run (keys ++ [.equals])).state.display = String.ofList shown) ∧
    ∀ f, outcome = .ok (.error f) → (start decimals).Quiet keys ∧
      ∃ u, (((start decimals).run keys).perform .equals).update = .ok u ∧ u.fault = some f := by
  intro keys outcome
  obtain rfl := Except.ok.inj (a.ofText_text.symm.trans hx)
  obtain rfl := Except.ok.inj (b.ofText_text.symm.trans hy)
  have htext := evaluateText_binary a b hop hxfinite hyfinite
  have hkeys : (start decimals).state.afterAll decimals keys = _ := afterAll_binaryKeys a b decimals
  rcases (settles_apply op a.operand.value b.operand.value).cases with
    ⟨n, ⟨w, rfl, hw⟩, happly⟩ | ⟨f, -, happly⟩
  · rw [happly, ok_bind] at htext
    have houtcome : outcome = .ok (.ok (.real w)) := outcome_ok htext
    obtain ⟨o, hdisplay, hevaluate⟩ := evaluate_binary_ok a b h0 h15 happly hw
    have hequals : Action.equals.transition decimals (Link.pending a.operand ⟨op, b⟩) =
        .ok (.resolved o "") := hevaluate
    have hall : (start decimals).state.afterAll decimals (keys ++ [.equals]) =
        .ok (.resolved o "") := by
      rw [State.afterAll_append hkeys, State.afterAll_cons hequals]
      rfl
    rw [houtcome]
    refine ⟨iff_of_true (quiet_of_afterAll hall) ⟨_, rfl⟩, ?_, nofun⟩
    rintro _ ⟨⟩
    refine ⟨_, _, Quantity.roundHalfUp_ofReal w h0 h15, hdisplay, ?_⟩
    rw [run_of_afterAll hall]
    rfl
  · rw [happly, error_bind] at htext
    have houtcome : outcome = .ok (.error f) := outcome_fault htext
    have hequals : ∃ u, (((start decimals).run keys).perform .equals).update = .ok u ∧
        u.fault = some f := by
      rw [run_of_afterAll hkeys]
      exact fault_of_perform (evaluate_binary_fault a b happly)
    rw [houtcome]
    refine ⟨iff_of_false (fun hquiet => ?_) nofun, nofun, ?_⟩
    · obtain ⟨u, hu, hnone⟩ := hquiet keys .equals [] rfl
      obtain ⟨v, hv, hsome⟩ := hequals
      cases hu.symm.trans hv
      cases hnone.symm.trans hsome
    · rintro _ ⟨⟩
      exact ⟨quiet_of_afterAll hkeys, hequals⟩

theorem keys_agree_quotient :
    ((start 2).run (Entry.binaryKeys ⟨"1.", rfl⟩ .divide ⟨"0.25", rfl⟩ ++ [.equals])).state.display =
      "4" := by
  have h0 : (0 : Int) ≤ 2 := by decide
  have h15 : (2 : Int) ≤ 15 := by decide
  have hop : Operator.divide.operation? = some .over := rfl
  have ha : (Entry.operand ⟨"1.", rfl⟩).value.isFinite = true := by decide +kernel
  have hb : (Entry.operand ⟨"0.25", rfl⟩).value.isFinite = true := by decide +kernel
  have happly : Operator.divide.apply (.real (Entry.operand ⟨"1.", rfl⟩).value)
      (.real (Entry.operand ⟨"0.25", rfl⟩).value) = .ok (.real (.ofPlain ['4'])) :=
    eq_ok_of_toOption (by decide +kernel)
  have htext : evaluateText ("1." ++ Operation.over.symbol ++ "0.25") =
      .ok (.real (.ofPlain ['4'])) := by
    rw [evaluateText_binary ⟨"1.", rfl⟩ ⟨"0.25", rfl⟩ hop ha hb, happly]
    rfl
  have hfour : ((Binary64.ofPlain ['4']).rounded 2).display = .ok ['4'] :=
    eq_ok_of_toOption (by decide +kernel)
  obtain ⟨rounded, shown, hrounded, hshown, hdisplay⟩ :=
    (keys_agree h0 h15 ⟨"1.", rfl⟩ ⟨"0.25", rfl⟩ (Entry.ofText_text _) (Entry.ofText_text _)
      ha hb hop).2.1 _ (outcome_ok htext)
  rw [Value.quantity_real, Quantity.roundHalfUp_ofReal _ h0 h15] at hrounded
  obtain rfl := Except.ok.inj hrounded
  rw [hdisplay, ← Except.ok.inj (hfour.symm.trans hshown)]

end Session

end DeskCalculator
