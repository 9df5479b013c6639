import DeskCalculator.Expression.Parse

namespace DeskCalculator

namespace Token

/-- A numeral has a number and a constant a name that is known; the others may have any value. -/
def isLegible (t : Token) : Bool :=
  match t.kind, t.value with
  | .number, .scalar (.real _) => true
  | .number, _ => false
  | .constant, .scalar (.text name) => (constant? name).isSome
  | .constant, _ => false
  | _, _ => true

theorem kind_of_symbol? {t : Token} {s : String} (h : t.lexeme.symbol? = some s) :
    t.kind = .operator := by
  unfold Lexeme.symbol? at h
  split at h
  · assumption
  · cases h

theorem value_of_number {t : Token} (h : t.isLegible = true) (hk : t.kind = .number) :
    ∃ x, t.value = .real x := by
  unfold isLegible at h
  split at h <;> simp_all [Value.real]

theorem value_of_constant {t : Token} (h : t.isLegible = true) (hk : t.kind = .constant) :
    ∃ name x, t.value = .text name ∧ constant? name = some x := by
  unfold isLegible at h
  split at h <;> simp_all [Value.text, Option.isSome_iff_exists]

end Token

structure Legible (ts : List Token) : Prop where
  isLegible : ∀ t ∈ ts, t.isLegible = true
  finish : ∃ t ∈ ts, t.kind = .finish

inductive Rule where
  | expression
  | term
  | unary
  | power
  | primary
  deriving DecidableEq, Repr

def Rule.continuations : Rule → List String
  | .primary => []
  | .power => ["^"]
  | .unary => ["^"]
  | .term => ["^", "*", "/"]
  | .expression => ["^", "*", "/", "+", "-"]

def StartsWithFactorial (ts : List Token) : Prop :=
  ∃ t u rest, ts = t :: u :: rest ∧ t.kind = .number ∧ u.kind = .factorial

theorem StartsWithFactorial.append {ts : List Token} (h : StartsWithFactorial ts)
    (us : List Token) : StartsWithFactorial (ts ++ us) := by
  obtain ⟨t, mark, rest, rfl, hk⟩ := h
  exact ⟨t, mark, rest ++ us, rfl, hk⟩

theorem StartsWithFactorial.of_append {ts rest : List Token} {next : Token}
    (h : StartsWithFactorial (ts ++ next :: rest)) (hne : ts ≠ []) (hk : next.kind ≠ .factorial) :
    StartsWithFactorial ts := by
  obtain ⟨t, mark, us, heq, ht, hmark⟩ := h
  match ts, hne with
  | [_], _ =>
    cases heq
    exact absurd hmark hk
  | v :: w :: vs, _ =>
    cases heq
    exact ⟨_, _, vs, rfl, ht, hmark⟩

/-- Some tokens are what a rule says, and stand for a tree, by a derivation in which at most
`nesting` unaries are nested inside one another. -/
inductive Derives : Rule → (nesting : Nat) → List Token → Expression → Prop where
  | term {k ts n} : Derives .term k ts n → Derives .expression k ts n
  | sum {k ts us op s a b} : Derives .expression k ts a → op.lexeme.symbol? = some s →
      s ∈ ["+", "-"] → Derives .term k us b →
      Derives .expression k (ts ++ op :: us) (.binary s a b)
  | unary {k ts n} : Derives .unary k ts n → Derives .term k ts n
  | product {k ts us op s a b} : Derives .term k ts a → op.lexeme.symbol? = some s →
      s ∈ ["*", "/"] → Derives .unary k us b →
      Derives .term k (ts ++ op :: us) (.binary s a b)
  | negatedFactorial {k minus t mark x} : minus.lexeme.symbol? = some "-" → t.kind = .number →
      t.value = .real x → mark.kind = .factorial →
      Derives .unary (k + 1) [minus, t, mark] (.factorial (.literal (.real (-x))))
  | negatedFactorialPower {k minus t mark x op us b} : minus.lexeme.symbol? = some "-" →
      t.kind = .number → t.value = .real x → mark.kind = .factorial →
      op.lexeme.symbol? = some "^" → Derives .unary k us b →
      Derives .unary (k + 1) (minus :: t :: mark :: op :: us)
        (.binary "^" (.factorial (.literal (.real (-x)))) b)
  | negation {k minus ts n} : minus.lexeme.symbol? = some "-" → ¬StartsWithFactorial ts →
      Derives .unary k ts n → Derives .unary (k + 1) (minus :: ts) (.unary "-" n)
  | power {k ts n} : Derives .power k ts n → Derives .unary (k + 1) ts n
  | primary {k ts n} : Derives .primary k ts n → Derives .power k ts n
  | raised {k ts op us a b} : Derives .primary k ts a → op.lexeme.symbol? = some "^" →
      Derives .unary k us b → Derives .power k (ts ++ op :: us) (.binary "^" a b)
  | number {k t} : t.kind = .number → Derives .primary k [t] (.literal t.value)
  | factorial {k t mark} : t.kind = .number → mark.kind = .factorial →
      Derives .primary k [t, mark] (.factorial (.literal t.value))
  | constant {k t name x} : t.kind = .constant → t.value = .text name → constant? name = some x →
      Derives .primary k [t] (.literal (.real x))
  | call {k f opening ts closing n} : f.kind = .function → opening.kind = .openParen →
      Derives .expression k ts n → closing.kind = .closeParen →
      Derives .primary k (f :: opening :: ts ++ [closing]) (.call f.value n)
  | group {k opening ts closing n} : opening.kind = .openParen → Derives .expression k ts n →
      closing.kind = .closeParen → Derives .primary k (opening :: ts ++ [closing]) n

namespace Derives

variable {r : Rule} {k : Nat} {ts : List Token} {n : Expression}

theorem ne_nil (h : Derives r k ts n) : ts ≠ [] := by
  induction h <;> simp_all

theorem kind_ne_finish (h : Derives r k ts n) : ∀ t ∈ ts, t.kind ≠ .finish := by
  induction h <;> simp_all [Token.kind_of_symbol?] <;> grind [Token.kind_of_symbol?]

end Derives

theorem Legible.rest {r : Rule} {k : Nat} {us rest : List Token} {n : Expression}
    (h : Legible (us ++ rest)) (hd : Derives r k us n) : Legible rest where
  isLegible t ht := h.isLegible t (List.mem_append_right us ht)
  finish := by
    obtain ⟨t, ht, hk⟩ := h.finish
    rcases List.mem_append.mp ht with hu | hr
    · exact absurd hk (hd.kind_ne_finish t hu)
    · exact ⟨t, hr, hk⟩

end DeskCalculator
