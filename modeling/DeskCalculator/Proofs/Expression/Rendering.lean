import DeskCalculator.Proofs.Expression.Image
import DeskCalculator.Proofs.Expression.Nesting

namespace DeskCalculator

theorem Rule.tightness_le (r : Rule) : r.tightness ≤ primary.tightness := by
  cases r <;> decide

structure Rendering where
  rule : Rule
  nesting : Nat
  lexemes : List Lexeme

namespace Rendering

def startsWithFactorial : List Lexeme → Bool
  | l :: m :: _ => l.kind = .number && m.kind = .factorial
  | _ => false

def nestingAs (x : Rendering) (r : Rule) : Nat :=
  x.nesting + r.opens x.rule

def grouped (x : Rendering) : Rendering :=
  ⟨.primary, x.nestingAs .expression, .openParen :: (x.lexemes ++ [.closeParen])⟩

def within (x : Rendering) (r : Rule) : Rendering :=
  if x.rule.tightness < r.tightness then x.grouped else x

def operand (x : Rendering) : Rendering :=
  if startsWithFactorial x.lexemes then x.grouped else x.within .unary

def negated (x : Rendering) : Rendering :=
  ⟨.unary, x.operand.nestingAs .unary + 1, .operator "-" :: x.operand.lexemes⟩

def joined (x : Rendering) (rule left right : Rule) (symbol : String) (y : Rendering) :
    Rendering :=
  ⟨rule, max ((x.within left).nestingAs left) ((y.within right).nestingAs right),
    (x.within left).lexemes ++ .operator symbol :: (y.within right).lexemes⟩

def factorial (z : Binary64) : Rendering :=
  if z.hasMinus then ⟨.unary, 1, [.operator "-", .number (-z), .factorial]⟩
  else ⟨.primary, 0, [.number z, .factorial]⟩

def signedPower (z : Binary64) (y : Rendering) : Rendering :=
  ⟨.unary, (y.within .unary).nestingAs .unary + 1,
    .operator "-" :: .number (-z) :: .factorial :: .operator "^" :: (y.within .unary).lexemes⟩

def binary (symbol : String) (signed? : Option Binary64) (x y : Rendering) : Rendering :=
  if symbol = "^" then
    match signed? with
    | some z => signedPower z y
    | none => x.joined .power .primary .unary symbol y
  else if symbol ∈ ["*", "/"] then x.joined .term .term .unary symbol y
  else x.joined .expression .expression .term symbol y

def called (function : Value) (x : Rendering) : Rendering :=
  ⟨.primary, x.nestingAs .expression,
    ⟨.function, function⟩ :: .openParen :: (x.lexemes ++ [.closeParen])⟩

end Rendering

namespace Expression

def signedFactorial? : Expression → Option Binary64
  | .factorial (.literal (.scalar (.real z))) => if z.hasMinus then some z else none
  | _ => none

def rendering : Expression → Rendering
  | .literal v => ⟨.primary, 0, [⟨.number, v⟩]⟩
  | .unary _ a => a.rendering.negated
  | .binary s a b => .binary s a.signedFactorial? a.rendering b.rendering
  | .call f a => a.rendering.called f
  | .factorial (.literal (.scalar (.real z))) => .factorial z
  | _ => ⟨.primary, 0, []⟩

def nesting (n : Expression) : Nat :=
  n.rendering.nestingAs .expression

end Expression

namespace Lexeme

theorem spelled_openParen : openParen.Spelled := ⟨.openParen, nofun⟩

theorem spelled_closeParen : closeParen.Spelled := ⟨.closeParen, nofun⟩

theorem spelled_factorial : factorial.Spelled := ⟨.factorial, nofun⟩

theorem spelled_operator {s : String} (h : s ∈ ["+", "-", "*", "/", "^"]) :
    (operator s).Spelled := by
  refine ⟨.operator ?_, nofun⟩
  simp only [List.mem_cons, List.not_mem_nil, or_false] at h
  rcases h with rfl | rfl | rfl | rfl | rfl <;> rfl

theorem spelled_function {f : String} (h : f ∈ functionNames) : (function f).Spelled := by
  refine ⟨.function ?_, nofun⟩
  simp only [functionNames, List.mem_cons, List.not_mem_nil, or_false] at h
  rcases h with rfl | rfl | rfl | rfl | rfl | rfl <;> rfl

theorem spelled_number {x : Binary64} (hfinite : x.isFinite = true) (hminus : x.hasMinus = false) :
    (number x).Spelled := by
  refine ⟨.number hfinite, fun y hy => ?_⟩
  cases hy
  exact hminus

theorem spelled_neg {x : Binary64} (hfinite : x.isFinite = true) (hminus : x.hasMinus = true) :
    (number (-x)).Spelled := by
  refine spelled_number (by simpa using hfinite) ?_
  rw [Binary64.hasMinus_neg hfinite, hminus]
  rfl

end Lexeme

namespace Rendering

def Stands (x : Rendering) (n : Expression) : Prop :=
  NestsAt x.rule x.nesting x.lexemes n

theorem not_startsWithFactorial {ls : List Lexeme} (h : startsWithFactorial ls = false)
    {ts : List Token} (hts : ts.map Token.lexeme = ls) : ¬StartsWithFactorial ts := by
  rintro ⟨t, mark, rest, rfl, ht, hmark⟩
  have hstarts : startsWithFactorial ((t :: mark :: rest).map Token.lexeme) = true := by
    simp only [List.map_cons, startsWithFactorial, Bool.and_eq_true, decide_eq_true_eq]
    exact ⟨ht, hmark⟩
  rw [hts, h] at hstarts
  cases hstarts

variable {x y : Rendering} {a b n : Expression}

theorem openParen_starts (ls : List Lexeme) : startsWithFactorial (.openParen :: ls) = false := by
  cases ls with
  | nil => rfl
  | cons l ls => simp [startsWithFactorial, Lexeme.openParen]

theorem operand_starts (x : Rendering) : startsWithFactorial x.operand.lexemes = false := by
  unfold operand
  split
  · exact openParen_starts _
  · rename_i hstart
    unfold within
    split
    · exact openParen_starts _
    · exact Bool.eq_false_of_not_eq_true hstart

namespace Stands

theorem nestsAt (h : x.Stands n) {r : Rule} (hr : r.tightness ≤ x.rule.tightness) :
    NestsAt r (x.nestingAs r) x.lexemes n :=
  NestsAt.widen h hr

theorem grouped (h : x.Stands n) : x.grouped.Stands n :=
  NestsAt.group (h.nestsAt (Nat.zero_le _))

theorem group_nestsAt (h : x.Stands n) (r : Rule) :
    NestsAt r (x.grouped.nestingAs r) x.grouped.lexemes n :=
  h.grouped.nestsAt r.tightness_le

theorem within (h : x.Stands n) (r : Rule) :
    NestsAt r ((x.within r).nestingAs r) (x.within r).lexemes n := by
  unfold Rendering.within
  split
  · exact h.group_nestsAt r
  · rename_i hr
    exact h.nestsAt (Nat.le_of_not_lt hr)

theorem operand (h : x.Stands n) :
    NestsAt .unary (x.operand.nestingAs .unary) x.operand.lexemes n := by
  unfold Rendering.operand
  split
  · exact h.group_nestsAt .unary
  · exact h.within .unary

theorem negated (h : x.Stands n) : x.negated.Stands (.unary "-" n) :=
  h.operand.negation fun _ hts => not_startsWithFactorial x.operand_starts hts

theorem called (h : x.Stands n) (f : String) : (x.called (.text f)).Stands (.call (.text f) n) :=
  (h.nestsAt (Nat.zero_le _)).call

theorem signedPower (hy : y.Stands b) (z : Binary64) :
    (Rendering.signedPower z y).Stands (.binary "^" (.factorial (.literal (.real z))) b) := by
  have hpower := (hy.within .unary).negatedFactorialPower (x := -z)
  rwa [Binary64.neg_neg] at hpower

end Stands

def Spelled (x : Rendering) : Prop :=
  ∀ l ∈ x.lexemes, l.Spelled

namespace Spelled

theorem grouped (h : x.Spelled) : x.grouped.Spelled := by
  refine List.forall_mem_cons.mpr ⟨Lexeme.spelled_openParen, ?_⟩
  exact List.forall_mem_append.mpr ⟨h, List.forall_mem_singleton.mpr Lexeme.spelled_closeParen⟩

theorem within (h : x.Spelled) (r : Rule) : (x.within r).Spelled := by
  unfold Rendering.within
  split
  · exact h.grouped
  · exact h

theorem operand (h : x.Spelled) : x.operand.Spelled := by
  unfold Rendering.operand
  split
  · exact h.grouped
  · exact h.within .unary

theorem negated (h : x.Spelled) : x.negated.Spelled :=
  List.forall_mem_cons.mpr ⟨Lexeme.spelled_operator (by simp), h.operand⟩

theorem joined {rule left right : Rule} {s : String} (hx : x.Spelled) (hy : y.Spelled)
    (hs : (Lexeme.operator s).Spelled) : (x.joined rule left right s y).Spelled :=
  List.forall_mem_append.mpr
    ⟨hx.within left, List.forall_mem_cons.mpr ⟨hs, hy.within right⟩⟩

theorem called {f : String} (h : x.Spelled) (hf : f ∈ functionNames) :
    (x.called (.text f)).Spelled := by
  refine List.forall_mem_cons.mpr ⟨Lexeme.spelled_function hf, ?_⟩
  exact h.grouped

theorem signedPower {z : Binary64} (hy : y.Spelled) (hfinite : z.isFinite = true)
    (hminus : z.hasMinus = true) : (Rendering.signedPower z y).Spelled := by
  have hz : (Lexeme.number (-z)).Spelled := Lexeme.spelled_neg hfinite hminus
  refine List.forall_mem_cons.mpr ⟨Lexeme.spelled_operator (by simp), ?_⟩
  refine List.forall_mem_cons.mpr ⟨hz, List.forall_mem_cons.mpr ⟨Lexeme.spelled_factorial, ?_⟩⟩
  exact List.forall_mem_cons.mpr ⟨Lexeme.spelled_operator (by simp), hy.within .unary⟩

end Spelled

theorem spelled_factorial {z : Binary64} (hfinite : z.isFinite = true) :
    (factorial z).Spelled := by
  have hmark : ∀ l ∈ [Lexeme.factorial], l.Spelled :=
    List.forall_mem_singleton.mpr Lexeme.spelled_factorial
  unfold factorial
  split
  · rename_i hminus
    refine List.forall_mem_cons.mpr ⟨Lexeme.spelled_operator (by simp), ?_⟩
    exact List.forall_mem_cons.mpr ⟨Lexeme.spelled_neg hfinite hminus, hmark⟩
  · rename_i hminus
    exact List.forall_mem_cons.mpr
      ⟨Lexeme.spelled_number hfinite (Bool.eq_false_of_not_eq_true hminus), hmark⟩

end Rendering

namespace Expression

theorem eq_of_signedFactorial? {a : Expression} {z : Binary64} (h : a.signedFactorial? = some z) :
    a = .factorial (.literal (.real z)) ∧ z.hasMinus = true := by
  unfold signedFactorial? at h
  split at h
  · split at h
    · rename_i hminus
      cases h
      exact ⟨rfl, hminus⟩
    · cases h
  · cases h

theorem stands_factorial (z : Binary64) :
    (Rendering.factorial z).Stands (.factorial (.literal (.real z))) := by
  unfold Rendering.factorial
  split
  · have hfactorial := NestsAt.negatedFactorial (x := -z)
    rwa [Binary64.neg_neg] at hfactorial
  · exact NestsAt.factorial

theorem stands_binary {s : String} {a b : Expression} (hs : s ∈ ["+", "-", "*", "/", "^"])
    (ha : a.rendering.Stands a) (hb : b.rendering.Stands b) :
    (Rendering.binary s a.signedFactorial? a.rendering b.rendering).Stands (.binary s a b) := by
  unfold Rendering.binary
  split
  · rename_i hpower
    subst hpower
    split
    · rename_i z hz
      obtain ⟨rfl, -⟩ := eq_of_signedFactorial? hz
      exact hb.signedPower z
    · exact (ha.within .primary).raised (hb.within .unary)
  · rename_i hpower
    split
    · rename_i htimes
      exact (ha.within .term).product (hb.within .unary) htimes
    · rename_i htimes
      refine (ha.within .expression).sum (hb.within .term) ?_
      simp_all

theorem spelled_binary {s : String} {a b : Expression} (hs : s ∈ ["+", "-", "*", "/", "^"])
    (h : a.Writable) (ha : a.rendering.Spelled) (hb : b.rendering.Spelled) :
    (Rendering.binary s a.signedFactorial? a.rendering b.rendering).Spelled := by
  have hoperator := Lexeme.spelled_operator hs
  unfold Rendering.binary
  split
  · split
    · rename_i z hz
      obtain ⟨rfl, hminus⟩ := eq_of_signedFactorial? hz
      cases h with
      | factorial hfinite => exact hb.signedPower hfinite hminus
    · exact ha.joined hb hoperator
  · split
    · exact ha.joined hb hoperator
    · exact ha.joined hb hoperator

theorem stands_rendering {n : Expression} (h : n.Writable) : n.rendering.Stands n := by
  induction h with
  | literal _ _ => exact NestsAt.literal
  | factorial _ => exact stands_factorial _
  | negation _ ih => exact ih.negated
  | binary hs _ _ iha ihb => exact stands_binary hs iha ihb
  | call _ _ ih => exact ih.called _

theorem spelled_rendering {n : Expression} (h : n.Writable) : n.rendering.Spelled := by
  induction h with
  | literal hfinite hminus =>
    intro l hl
    obtain rfl := List.mem_singleton.mp hl
    exact Lexeme.spelled_number hfinite hminus
  | factorial hfinite => exact Rendering.spelled_factorial hfinite
  | negation _ ih => exact ih.negated
  | binary hs ha _ iha ihb => exact spelled_binary hs ha iha ihb
  | call hf _ ih => exact ih.called hf

theorem parse_rendering {n : Expression} (h : n.Writable) {tokens : List Token} {finish : Token}
    (hts : tokens.map Token.lexeme = n.rendering.lexemes) (hf : finish.kind = .finish) :
    (n.nesting ≤ nestingLimit → parse (tokens ++ [finish]) = .ok n) ∧
      (nestingLimit < n.nesting → ∃ position,
        parse (tokens ++ [finish]) = Parser.malformed position .nestedTooDeeply) := by
  have hnests : NestsAt .expression n.nesting n.rendering.lexemes n :=
    (stands_rendering h).nestsAt (Nat.zero_le _)
  exact ⟨fun hn => hnests.parse_eq hn hts hf, fun hn => hnests.parse_tooDeep hn hts hf⟩

end Expression

end DeskCalculator
