import DeskCalculator.Expression.Arithmetic
import DeskCalculator.Proofs.Expression.Grammar
import DeskCalculator.Proofs.Decimal.Numerals
import DeskCalculator.Proofs.Outcome

namespace DeskCalculator

inductive Lexeme.Known : Lexeme → Prop where
  | number {x} : x.isFinite = true → Known (.number x)
  | operator {s} : (Operation.ofSymbol? s).isSome → Known (.operator s)
  | function {s} : (Function.ofName? s).isSome → Known (.function s)
  | constant {s} : (constant? s).isSome → Known (.constant s)
  | openParen : Known .openParen
  | closeParen : Known .closeParen
  | factorial : Known .factorial

theorem Lexeme.Known.isLegible {t : Token} (h : t.lexeme.Known) : t.isLegible = true := by
  obtain ⟨lexeme, position⟩ := t
  cases h <;> first | rfl | assumption

theorem Lexeme.Known.kind_ne_finish {t : Token} (h : t.lexeme.Known) : t.kind ≠ .finish := by
  obtain ⟨lexeme, position⟩ := t
  cases h <;> nofun

theorem known_of_mem_spelledLexemes :
    ∀ p ∈ spelledLexemes, p.2.Known := by
  simp only [spelledLexemes, functionNames, List.map_cons, List.map_nil, List.cons_append,
    List.nil_append, List.forall_mem_cons]
  refine ⟨.function rfl, .function rfl, .function rfl, .function rfl, .function rfl,
    .function rfl, .constant rfl, .constant rfl, by simp⟩

def Scans {α : Type} (good : α → Prop) : Except Fault α → Prop
  | .ok a => good a
  | .error f => f.ofExpression

theorem Scans.bind {α β : Type} {good : α → Prop} {fine : β → Prop} {x : Except Fault α}
    {f : α → Except Fault β} (hx : Scans good x) (hf : ∀ a, good a → Scans fine (f a)) :
    Scans fine (x >>= f) := by
  cases x with
  | ok a => exact hf a hx
  | error e => exact hx

theorem numeralLexeme_known (position : Nat) (run : List Char) :
    Scans Lexeme.Known (numeralLexeme position run) := by
  unfold numeralLexeme
  split
  · exact Fault.ofExpression_unexpectedChar _ _
  · split
    · exact Fault.ofExpression_unexpectedChar _ _
    · dsimp only
      split
      · rename_i hx
        exact .number hx
      · exact Fault.ofExpression_overflow _

theorem plain_of_secondPoint? {run : List Char} (hne : run ≠ [])
    (hchars : ∀ c ∈ run, isNumeralChar c = true) (hsecond : secondPoint? run = none)
    (hpoint : run ≠ ['.']) : Numeral.Plain run := by
  have hdigit {c : Char} (hc : c ∈ run) (hp : c ≠ '.') : Text.isDigit c = true := by
    simpa [isNumeralChar, hp] using hchars c hc
  have hwhole : Text.AllDigits (run.takeWhile (· != '.')) := fun c hc =>
    hdigit (List.takeWhile_subset _ hc) (by simpa using List.mem_takeWhile_imp hc)
  have hsplit := List.takeWhile_append_dropWhile (p := (· != '.')) (l := run)
  generalize hw : run.takeWhile (· != '.') = whole at hwhole hsplit
  cases hrest : run.dropWhile (· != '.') with
  | nil =>
    rw [hrest, List.append_nil] at hsplit
    exact .whole (hsplit ▸ hwhole) hne
  | cons point fraction =>
    have hhead := List.head_dropWhile_not (l := run) (· != '.') (by simp [hrest])
    obtain rfl : point = '.' := by simpa [hrest] using hhead
    rw [hrest] at hsplit
    have hdrop : (run.drop whole.length).drop 1 = fraction := by
      rw [← hsplit, List.drop_left, List.drop_one, List.tail_cons]
    have hlast : '.' ∉ fraction := fun hmem => by
      simp [secondPoint?, hw, hdrop, hmem] at hsecond
    have hfraction : Text.AllDigits fraction := fun c hc =>
      hdigit (hsplit ▸ by simp [hc]) fun heq => hlast (heq ▸ hc)
    refine hsplit ▸ .point hwhole hfraction fun hnil => hpoint ?_
    obtain ⟨rfl, rfl⟩ := List.append_eq_nil_iff.mp hnil
    exact hsplit.symm

theorem ofText_of_numeralLexeme {position : Nat} {run : List Char} {lexeme : Lexeme}
    (hne : run ≠ []) (hchars : ∀ c ∈ run, isNumeralChar c = true)
    (h : numeralLexeme position run = .ok lexeme) :
    ∃ x, Binary64.ofText (String.ofList run) = .ok x ∧ x.isFinite = true ∧
      lexeme = .number x := by
  unfold numeralLexeme at h
  split at h
  · cases h
  · rename_i hsecond
    split at h
    · cases h
    · rename_i hpoint
      dsimp only at h
      split at h
      · rename_i hfinite
        have hplain := plain_of_secondPoint? hne hchars hsecond hpoint
        exact ⟨_, Binary64.ofText_plain hplain false, hfinite, (Except.ok.inj h).symm⟩
      · cases h

theorem operator_known {c : Char} (h : operatorSymbols.contains c = true) :
    (Lexeme.operator (String.singleton c)).Known := by
  refine .operator ?_
  simp only [operatorSymbols, List.contains_cons, List.contains_nil, Bool.or_false,
    Bool.or_eq_true, beq_iff_eq] at h
  rcases h with rfl | rfl | rfl | rfl | rfl <;> rfl

theorem lexemeAt_known (position : Nat) (c : Char) (cs : List Char) :
    Scans (fun found => ∀ lexeme, found.1 = some lexeme → lexeme.Known)
      (lexemeAt position c cs) := by
  have one {lexeme : Lexeme} {extra : Nat} (h : lexeme.Known) :
      Scans (fun found : Option Lexeme × Nat => ∀ l, found.1 = some l → l.Known)
        (.ok (some lexeme, extra)) := by
    rintro l ⟨⟩
    exact h
  unfold lexemeAt
  split
  · exact nofun
  split
  · have hn := numeralLexeme_known position (c :: cs.takeWhile isNumeralChar)
    dsimp only
    generalize numeralLexeme position (c :: cs.takeWhile isNumeralChar) = result at hn
    cases result with
    | ok lexeme => exact one hn
    | error f => exact hn
  split
  · exact one (.constant rfl)
  split
  · rename_i h
    exact one (operator_known h)
  split
  · exact one .openParen
  split
  · exact one .closeParen
  split
  · exact one .factorial
  split
  · rename_i name lexeme hfind
    exact one (known_of_mem_spelledLexemes _ (List.mem_of_find?_eq_some hfind))
  · exact Fault.ofExpression_unexpectedChar _ _

def Scanned (tokens : List Token) : Prop :=
  ∃ front position, tokens = front ++ [⟨.finish, position⟩] ∧ ∀ t ∈ front, t.lexeme.Known

theorem Scanned.cons {tokens : List Token} {t : Token} (h : Scanned tokens)
    (ht : t.lexeme.Known) : Scanned (t :: tokens) := by
  obtain ⟨front, position, rfl, hfront⟩ := h
  refine ⟨t :: front, position, rfl, fun u hu => ?_⟩
  rcases List.mem_cons.mp hu with rfl | hu
  · exact ht
  · exact hfront u hu

theorem scanFrom_scanned (position : Nat) (cs : List Char) :
    Scans Scanned (scanFrom position cs) := by
  fun_induction scanFrom position cs with
  | case1 position => exact ⟨[], position, rfl, by simp⟩
  | case2 position c cs ih =>
    refine (lexemeAt_known position c cs).bind ?_
    rintro ⟨lexeme?, extra⟩ hlexeme
    refine (ih extra).bind fun tokens htokens => ?_
    cases lexeme? with
    | none => exact htokens
    | some lexeme => exact htokens.cons (hlexeme lexeme rfl)

end DeskCalculator
