import DeskCalculator.Expression.Report
import DeskCalculator.Proofs.Expression.Evaluation
import DeskCalculator.Proofs.Expression.Parsing
import DeskCalculator.Proofs.Expression.Scanning

namespace DeskCalculator

theorem isFinite_constant? {name : String} {x : Binary64} (h : constant? name = some x) :
    x.isFinite = true := by
  obtain ⟨p, hp, rfl⟩ := Option.map_eq_some_iff.mp h
  have hmem := List.mem_of_find?_eq_some hp
  simp only [constantTable, List.mem_cons, List.not_mem_nil, or_false] at hmem
  rcases hmem with rfl | rfl | rfl <;> rfl

namespace Lexeme.Known

variable {t : Token}

theorem value_of_number (h : t.lexeme.Known) (hk : t.kind = .number) :
    ∃ x, t.value = .real x ∧ x.isFinite = true := by
  obtain ⟨lexeme, position⟩ := t
  cases h with
  | number hx => exact ⟨_, rfl, hx⟩
  | _ => cases hk

theorem value_of_function (h : t.lexeme.Known) (hk : t.kind = .function) :
    ∃ name, t.value = .text name ∧ (Function.ofName? name).isSome := by
  obtain ⟨lexeme, position⟩ := t
  cases h with
  | function hs => exact ⟨_, rfl, hs⟩
  | _ => cases hk

end Lexeme.Known

def Value.IsFiniteReal (v : Value) : Prop :=
  ∃ x, v = .real x ∧ x.isFinite = true

namespace Expression

inductive Known : Expression → Prop where
  | literal {x : Binary64} : x.isFinite = true → Known (.literal (.real x))
  | unary {symbol a} : Known a → Known (.unary symbol a)
  | binary {symbol a b} : (Operation.ofSymbol? symbol).isSome → Known a → Known b →
      Known (.binary symbol a b)
  | call {name a} : (Function.ofName? name).isSome → Known a → Known (.call (.text name) a)
  | factorial {a} : Known a → Known (.factorial a)

theorem known_of_derives {r : Rule} {k : Nat} {ts : List Token} {n : Expression}
    (h : Derives r k ts n) (hts : ∀ t ∈ ts, t.lexeme.Known) : n.Known := by
  induction h with
  | term _ ih | unary _ ih | power _ ih | primary _ ih => exact ih hts
  | sum _ _ hm _ iha ihb | product _ _ hm _ iha ihb =>
    refine .binary ?_ (iha fun t ht => hts t (by simp [ht])) (ihb fun t ht => hts t (by simp [ht]))
    simp only [List.mem_cons, List.not_mem_nil, or_false] at hm
    rcases hm with rfl | rfl <;> rfl
  | @negatedFactorial k minus t mark x _ ht hx _ =>
    obtain ⟨y, hy, hfinite⟩ := (hts t (by simp)).value_of_number ht
    cases hx.symm.trans hy
    exact .factorial (.literal (by simpa using hfinite))
  | @negatedFactorialPower k minus t mark x op us b _ ht hx _ _ _ ih =>
    obtain ⟨y, hy, hfinite⟩ := (hts t (by simp)).value_of_number ht
    cases hx.symm.trans hy
    exact .binary rfl (.factorial (.literal (by simpa using hfinite)))
      (ih fun t ht => hts t (by simp [ht]))
  | negation _ _ _ ih => exact .unary (ih fun t ht => hts t (by simp [ht]))
  | raised _ _ _ iha ihb =>
    exact .binary rfl (iha fun t ht => hts t (by simp [ht])) (ihb fun t ht => hts t (by simp [ht]))
  | @number k t hk =>
    obtain ⟨x, hx, hfinite⟩ := (hts t (by simp)).value_of_number hk
    exact hx ▸ .literal hfinite
  | @factorial k t mark hk _ =>
    obtain ⟨x, hx, hfinite⟩ := (hts t (by simp)).value_of_number hk
    exact hx ▸ .factorial (.literal hfinite)
  | constant _ _ hx => exact .literal (isFinite_constant? hx)
  | @call k f opening ts closing n hf _ _ _ ih =>
    obtain ⟨name, hname, hknown⟩ := (hts f (by simp)).value_of_function hf
    exact hname ▸ .call hknown (ih fun t ht => hts t (by simp [ht]))
  | group _ _ _ ih => exact ih fun t ht => hts t (by simp [ht])

theorem Known.reckons_value {n : Expression} (h : n.Known) :
    Reckons Value.IsFiniteReal n.value := by
  induction h with
  | @literal x hx => exact ⟨x, rfl, hx⟩
  | unary _ ih =>
    refine ih.bind ?_
    rintro v ⟨x, rfl, hx⟩
    exact ⟨-x, rfl, by simpa using hx⟩
  | binary hs _ _ iha ihb =>
    refine iha.bind ?_
    rintro v ⟨x, rfl, -⟩
    refine ihb.bind ?_
    rintro w ⟨y, rfl, -⟩
    refine (reckons_applyBinary hs x y).bind ?_
    rintro n ⟨z, rfl, hz⟩
    exact ⟨z, rfl, hz⟩
  | call hf _ ih =>
    refine ih.bind ?_
    rintro v ⟨x, rfl, -⟩
    refine (reckons_applyFunction hf x).bind ?_
    rintro n ⟨z, rfl, hz⟩
    exact ⟨z, rfl, hz⟩
  | factorial _ ih =>
    refine ih.bind ?_
    rintro v ⟨x, rfl, -⟩
    exact (reckons_factorial x).bind fun z hz => ⟨z, rfl, hz⟩

end Expression

theorem settles_parse {tokens : List Token} (h : Scanned tokens) :
    Settles Expression.Known (parse tokens) := by
  obtain ⟨front, position, rfl, hfront⟩ := h
  have hcases := @parse_cases front ⟨.finish, position⟩
    (fun t ht => ⟨(hfront t ht).isLegible, (hfront t ht).kind_ne_finish⟩) rfl
  rcases hcases with ⟨n, hd, heq⟩ | ⟨_, _, heq⟩
  · rw [heq]
    exact Expression.known_of_derives hd hfront
  · rw [heq]
    exact Fault.ofExpression_malformed _ _

theorem settles_parseText (text : String) : Settles Expression.Known (parseText text) := by
  have hscan : Scans Scanned (scan text) := scanFrom_scanned 0 text.toList
  unfold parseText
  split
  · rename_i tokens heq
    rw [heq] at hscan
    exact settles_parse hscan
  · rename_i fault heq
    rw [heq] at hscan
    exact hscan

theorem settles_evaluateText (text : String) :
    Settles Value.IsFiniteReal (evaluateText text) := by
  unfold evaluateText
  refine (settles_parseText text).bind fun n hn => ?_
  rw [Expression.evaluate_eq_value]
  exact hn.reckons_value.settles

theorem parseText_of_evaluateText {text : String} {f : Fault}
    (h : evaluateText text = .error (.fault f)) :
    parseText text = .error (.fault f) ∨ f.ofArithmetic := by
  have hparse := settles_parseText text
  unfold evaluateText at h
  generalize parseText text = parsed at h hparse
  cases parsed with
  | error e =>
    obtain rfl := Except.error.inj h
    exact .inl rfl
  | ok n =>
    have hvalue := Expression.Known.reckons_value hparse
    rw [ok_bind, Expression.evaluate_eq_value] at h
    rw [h] at hvalue
    exact .inr hvalue

section Reported

variable {text : String}

theorem outcome_ok {v : Value} (h : evaluateText text = .ok v) :
    (evaluationReport text).outcome = .ok (.ok v) := by
  rw [evaluationReport, h]

theorem outcome_fault {f : Fault} (h : evaluateText text = .error (.fault f)) :
    (evaluationReport text).outcome = .ok (.error f) := by
  rw [evaluationReport, h]

theorem evaluateText_of_outcome {f : Fault}
    (h : (evaluationReport text).outcome = .ok (.error f)) :
    evaluateText text = .error (.fault f) := by
  unfold evaluationReport at h
  split at h
  · cases h
  · rename_i g heq
    obtain rfl := Except.error.inj (Except.ok.inj h)
    exact heq
  · cases h

end Reported

/-- The evaluation of a text is a finite number or a fault of expressions. Every numeral that the
scan accepts is one that the reader of numerals reads, as the same number. -/
theorem evaluationReport_outcome (text : String) :
    ((∃ x : Binary64, x.isFinite = true ∧
        (evaluationReport text).outcome = .ok (.ok (.real x))) ∨
      ∃ f : Fault, f.kind ∈ [.lexError, .parseError, .domainError, .divisionByZero,
        .overflowError] ∧ (evaluationReport text).outcome = .ok (.error f)) ∧
    ∀ (position : Nat) (run : List Char) (lexeme : Lexeme), run ≠ [] →
      (∀ c ∈ run, isNumeralChar c = true) → numeralLexeme position run = .ok lexeme →
      ∃ x, Binary64.ofText (String.ofList run) = .ok x ∧ x.isFinite = true ∧
        lexeme = .number x := by
  refine ⟨?_, fun position run lexeme hne hchars h => ofText_of_numeralLexeme hne hchars h⟩
  unfold evaluationReport
  rcases (settles_evaluateText text).cases with ⟨v, ⟨x, rfl, hx⟩, heq⟩ | ⟨f, hf, heq⟩
  · exact .inl ⟨x, hx, by rw [heq]⟩
  · exact .inr ⟨f, hf, by rw [heq]⟩

theorem evaluationReport_outcome_numeral :
    ∃ x, Binary64.ofText "2.5" = .ok x ∧ x.isFinite = true ∧
      numeralLexeme 0 ['2', '.', '5'] = .ok (.number x) := by
  have hscan : numeralLexeme 0 ['2', '.', '5'] = .ok (.number (.ofPlain ['2', '.', '5'])) := by
    have hfinite : (Binary64.ofPlain ['2', '.', '5']).isFinite = true := by decide +kernel
    simp [numeralLexeme, secondPoint?, hfinite]
  obtain ⟨x, hread, hfinite, hx⟩ :=
    (evaluationReport_outcome "2.5").2 0 ['2', '.', '5'] _ (by simp) (by simp; decide) hscan
  exact ⟨x, hread, hfinite, hx ▸ hscan⟩

end DeskCalculator
