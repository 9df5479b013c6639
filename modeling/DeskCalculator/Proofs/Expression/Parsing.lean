import DeskCalculator.Proofs.Expression.Reading

namespace DeskCalculator

namespace Token

structure Ends (r : Rule) (t : Token) : Prop where
  kind : t.kind ≠ .factorial
  symbol : ∀ s ∈ r.continuations, t.lexeme.symbol? ≠ some s

theorem ends_of_kind {r : Rule} {t : Token} (hf : t.kind ≠ .factorial)
    (ho : t.kind ≠ .operator) : t.Ends r :=
  ⟨hf, fun _ _ hs => ho (kind_of_symbol? hs)⟩

theorem ends_of_symbol {r : Rule} {t : Token} {s : String} (hs : t.lexeme.symbol? = some s)
    (hr : s ∉ r.continuations) : t.Ends r where
  kind := by simp [kind_of_symbol? hs]
  symbol s' hs' h := hr (Option.some.inj (hs.symm.trans h) ▸ hs')

theorem Ends.mono {r q : Rule} {t : Token} (h : t.Ends r)
    (hq : q.continuations ⊆ r.continuations) : t.Ends q :=
  ⟨h.kind, fun s hs => h.symbol s (hq hs)⟩

end Token

namespace Parser

variable {symbols : List String} {operand : Parser}

theorem chainRest_stop {t : Token} (h : ∀ s ∈ symbols, t.lexeme.symbol? ≠ some s)
    {fuel : Nat} (hf : 0 < fuel) (left : Expression) (rest : List Token) :
    chainRest symbols operand fuel left (t :: rest) = .ok (left, t :: rest) := by
  obtain ⟨fuel, rfl⟩ := Nat.exists_eq_add_one_of_ne_zero (Nat.ne_of_gt hf)
  unfold chainRest
  cases hs : t.lexeme.symbol? with
  | none => rfl
  | some s =>
    have hn : s ∉ symbols := fun hm => h s hm hs
    simp [hn]

theorem chainRest_step {op : Token} {s : String} {us rest : List Token} {b : Expression}
    (hs : op.lexeme.symbol? = some s) (hm : s ∈ symbols) (ho : operand us = .ok (b, rest))
    (fuel : Nat) (left : Expression) :
    chainRest symbols operand (fuel + 1) left (op :: us) =
      chainRest symbols operand fuel (.binary s left b) rest := by
  rw [chainRest]
  simp [hs, hm, ho]

def ChainReaches (symbols : List String) (operand : Parser) (ts : List Token) (n : Expression)
    (rest : List Token) : Prop :=
  ∃ fuel, rest.length < fuel ∧
    chain symbols operand (ts ++ rest) = chainRest symbols operand fuel n rest

theorem chainReaches_operand {ts rest : List Token} {n : Expression}
    (h : operand (ts ++ rest) = .ok (n, rest)) : ChainReaches symbols operand ts n rest :=
  ⟨rest.length + 1, by omega, by simp [chain, h]⟩

theorem chainReaches_step {ts us rest : List Token} {op : Token} {s : String} {a b : Expression}
    (h : ChainReaches symbols operand ts a (op :: us ++ rest))
    (hs : op.lexeme.symbol? = some s) (hm : s ∈ symbols)
    (ho : operand (us ++ rest) = .ok (b, rest)) :
    ChainReaches symbols operand (ts ++ op :: us) (.binary s a b) rest := by
  obtain ⟨fuel, hf, heq⟩ := h
  simp only [List.cons_append, List.length_cons, List.length_append] at hf
  obtain ⟨fuel, rfl⟩ := Nat.exists_eq_add_one_of_ne_zero (by omega : fuel ≠ 0)
  refine ⟨fuel, by omega, ?_⟩
  rw [List.append_assoc, heq, List.cons_append, chainRest_step hs hm ho]

theorem chain_eq_of_reaches {ts rest : List Token} {t : Token} {n : Expression}
    (h : ChainReaches symbols operand ts n (t :: rest))
    (ht : ∀ s ∈ symbols, t.lexeme.symbol? ≠ some s) :
    chain symbols operand (ts ++ t :: rest) = .ok (n, t :: rest) := by
  obtain ⟨fuel, hf, heq⟩ := h
  rw [heq, chainRest_stop ht (by omega)]

end Parser

namespace Derives

variable {r : Rule} {k : Nat} {ts : List Token} {n : Expression}

theorem head_kind (h : Derives r k ts n) :
    ∃ t us, ts = t :: us ∧ t.kind ≠ .closeParen ∧
      (r = .power ∨ r = .primary → t.kind ≠ .operator) := by
  induction h with
  | term _ ih | unary _ ih | power _ ih =>
    obtain ⟨t, us, rfl, hc, -⟩ := ih
    exact ⟨t, us, rfl, hc, by simp⟩
  | sum _ _ _ _ ih | product _ _ _ _ ih =>
    obtain ⟨t, us, rfl, hc, -⟩ := ih
    exact ⟨t, _, rfl, hc, by simp⟩
  | negatedFactorial hs | negatedFactorialPower hs | negation hs =>
    exact ⟨_, _, rfl, by simp [Token.kind_of_symbol? hs], by simp⟩
  | primary _ ih =>
    obtain ⟨t, us, rfl, hc, ho⟩ := ih
    exact ⟨t, us, rfl, hc, fun _ => ho (.inr rfl)⟩
  | raised _ _ _ ih =>
    obtain ⟨t, us, rfl, hc, ho⟩ := ih
    exact ⟨t, _, rfl, hc, fun _ => ho (.inr rfl)⟩
  | number hk | factorial hk | constant hk | call hk | group hk =>
    exact ⟨_, _, rfl, by simp [hk], by simp [hk]⟩

def Recovered : Rule → Nat → List Token → Expression → Prop
  | .expression, k, ts, n => ∀ t rest, t.Ends .term →
      Parser.ChainReaches ["+", "-"] (Parser.term (Parser.unary k)) ts n (t :: rest)
  | .term, k, ts, n => ∀ t rest, t.Ends .unary →
      Parser.ChainReaches ["*", "/"] (Parser.unary k) ts n (t :: rest)
  | .unary, k, ts, n => ∀ t rest, t.Ends .unary →
      Parser.unary k (ts ++ t :: rest) = .ok (n, t :: rest)
  | .power, k, ts, n => ∀ t rest, t.Ends .power →
      Parser.power (Parser.unary k) (ts ++ t :: rest) = .ok (n, t :: rest)
  | .primary, k, ts, n => ∀ t rest, t.Ends .primary →
      Parser.primary (Parser.unary k) (ts ++ t :: rest) = .ok (n, t :: rest)

theorem term_eq (h : Recovered .term k ts n) {t : Token} (ht : t.Ends .term)
    (rest : List Token) : Parser.term (Parser.unary k) (ts ++ t :: rest) = .ok (n, t :: rest) :=
  Parser.chain_eq_of_reaches (h t rest (ht.mono (by simp [Rule.continuations])))
    fun s hs => ht.symbol s (by simp_all [Rule.continuations])

theorem expression_eq (h : Recovered .expression k ts n) {t : Token} (ht : t.Ends .expression)
    (rest : List Token) :
    Parser.expression (Parser.unary k) (ts ++ t :: rest) = .ok (n, t :: rest) :=
  Parser.chain_eq_of_reaches (h t rest (ht.mono (by simp [Rule.continuations])))
    fun s hs => ht.symbol s (by simp_all [Rule.continuations])

theorem group_eq (hd : Derives .expression k ts n) (h : Recovered .expression k ts n)
    {closing : Token} (hc : closing.kind = .closeParen) (paren : Token) (rest : List Token) :
    Parser.group (Parser.unary k) paren (ts ++ closing :: rest) = .ok (n, rest) := by
  have hend : closing.Ends .expression := Token.ends_of_kind (by simp [hc]) (by simp [hc])
  have heq := expression_eq h hend rest
  obtain ⟨t, us, rfl, ht, -⟩ := hd.head_kind
  rw [List.cons_append] at heq ⊢
  rw [Parser.group]
  simp [ht, heq, hc]

theorem primary_eq {rest : List Token} {t : Token} (ht : t.Ends .primary)
    (h : Parser.atom (Parser.unary k) (ts ++ t :: rest) = .ok (n, t :: rest)) :
    Parser.primary (Parser.unary k) (ts ++ t :: rest) = .ok (n, t :: rest) := by
  simp [Parser.primary, h, ht.kind]

theorem powerTail_stop {t : Token} (ht : t.Ends .power) (u : Parser) (base : Expression)
    (rest : List Token) : Parser.powerTail u base (t :: rest) = .ok (base, t :: rest) := by
  rw [Parser.powerTail]
  simp [ht.symbol "^" (by simp [Rule.continuations])]

theorem powerTail_step {u : Parser} {op : Token} {us rest : List Token} {b : Expression}
    (hs : op.lexeme.symbol? = some "^") (hu : u us = .ok (b, rest)) (base : Expression) :
    Parser.powerTail u base (op :: us) = .ok (.binary "^" base b, rest) := by
  rw [Parser.powerTail]
  simp [hs, hu]

theorem recovered (h : Derives r k ts n) : Recovered r k ts n := by
  -- A sum or product is carried as the point its chain has reached, since its operands lean left.
  induction h with
  | term _ ih => exact fun t rest ht => Parser.chainReaches_operand (term_eq ih ht rest)
  | unary _ ih => exact fun t rest ht => Parser.chainReaches_operand (ih t rest ht)
  | @sum k ts us op s a b _ hs hm _ iha ihb =>
    intro t rest ht
    have hop : op.Ends .term := Token.ends_of_symbol hs (by
      rcases List.mem_cons.mp hm with rfl | hm <;> simp_all [Rule.continuations])
    exact Parser.chainReaches_step (iha op (us ++ t :: rest) hop) hs hm (term_eq ihb ht rest)
  | @product k ts us op s a b _ hs hm _ iha ihb =>
    intro t rest ht
    have hop : op.Ends .unary := Token.ends_of_symbol hs (by
      rcases List.mem_cons.mp hm with rfl | hm <;> simp_all [Rule.continuations])
    exact Parser.chainReaches_step (iha op (us ++ t :: rest) hop) hs hm (ihb t rest ht)
  | @negatedFactorial k minus t mark x hs ht hx hmark =>
    intro next rest hnext
    simp [Parser.unary, hs, Parser.factorialLiteral?, ht, hmark, hx,
      powerTail_stop (hnext.mono (by simp [Rule.continuations]))]
  | @negatedFactorialPower k minus t mark x op us b hs ht hx hmark hop _ ih =>
    intro next rest hnext
    simp [Parser.unary, hs, Parser.factorialLiteral?, ht, hmark, hx,
      powerTail_step hop (ih next rest hnext)]
  | @negation k minus ts n hs hstart hd ih =>
    intro next rest hnext
    have hf : Parser.factorialLiteral? (ts ++ next :: rest) = none := by
      rw [Parser.factorialLiteral?_eq_none]
      exact fun h => hstart (h.of_append hd.ne_nil hnext.kind)
    simp [Parser.unary, hs, hf, ih next rest hnext]
  | @power k ts n hd ih =>
    intro next rest hnext
    have heq := ih next rest (hnext.mono (by simp [Rule.continuations]))
    obtain ⟨t, us, rfl, -, ho⟩ := hd.head_kind
    have hs : t.lexeme.symbol? ≠ some "-" := fun hs => ho (.inl rfl) (Token.kind_of_symbol? hs)
    rw [List.cons_append] at heq ⊢
    rw [Parser.unary]
    simp [hs, heq]
  | primary _ ih =>
    intro next rest hnext
    simp [Parser.power, ih next rest (hnext.mono (by simp [Rule.continuations])),
      powerTail_stop hnext]
  | @raised k ts op us a b _ hs _ iha ihb =>
    intro next rest hnext
    have hop : op.Ends .primary := Token.ends_of_symbol hs (by simp [Rule.continuations])
    have hb := ihb next rest (hnext.mono (by simp [Rule.continuations]))
    simp [Parser.power, iha op (us ++ next :: rest) hop, powerTail_step hs hb]
  | number hk =>
    intro next rest hnext
    exact primary_eq hnext (by simp [Parser.atom, hk, hnext.kind])
  | factorial hk hmark =>
    intro next rest hnext
    exact primary_eq hnext (by simp [Parser.atom, hk, hmark])
  | constant hk hv hx =>
    intro next rest hnext
    exact primary_eq hnext (by simp [Parser.atom, hk, Parser.constant_eq hv hx])
  | call hf ho hd hc ih =>
    intro next rest hnext
    exact primary_eq hnext (by simp [Parser.atom, hf, ho, group_eq hd ih hc])
  | group ho hd hc ih =>
    intro next rest hnext
    exact primary_eq hnext (by simp [Parser.atom, ho, group_eq hd ih hc])

theorem unique {m : Expression} (hm : Derives .expression k ts m)
    (hn : Derives .expression k ts n) : m = n := by
  let finish : Token := ⟨.finish, 0⟩
  have hend : finish.Ends .expression := Token.ends_of_kind (by decide) (by decide)
  have heq := (expression_eq hm.recovered hend []).symm.trans (expression_eq hn.recovered hend [])
  exact congrArg Prod.fst (Except.ok.inj heq)

end Derives

inductive FlatChain : List Token → Prop where
  | operand {t} : t.kind = .number ∨ t.kind = .constant → FlatChain [t]
  | step {ts op s t} : FlatChain ts → op.lexeme.symbol? = some s → s ∈ ["+", "-", "*", "/"] →
      t.kind = .number ∨ t.kind = .constant → FlatChain (ts ++ [op, t])

section Flat

variable {k : Nat} {ts us : List Token} {op t : Token} {s : String} {a b : Expression}

theorem derives_operand (hk : t.kind = .number ∨ t.kind = .constant) (hl : t.isLegible = true) :
    ∃ n, Derives .unary (k + 1) [t] n := by
  rcases hk with hk | hk
  · exact ⟨_, .power (.primary (.number hk))⟩
  · obtain ⟨name, x, hv, hx⟩ := Token.value_of_constant hl hk
    exact ⟨_, .power (.primary (.constant hk hv hx))⟩

theorem derives_times (ha : Derives .expression k ts a) (hs : op.lexeme.symbol? = some s)
    (hm : s ∈ ["*", "/"]) (hb : Derives .unary k us b) :
    ∃ n, Derives .expression k (ts ++ op :: us) n := by
  cases ha with
  | term ha => exact ⟨_, .term (.product ha hs hm hb)⟩
  | sum ha hop hplus hc =>
    rw [List.append_assoc]
    exact ⟨_, .sum ha hop hplus (.product hc hs hm hb)⟩

theorem FlatChain.derives (h : FlatChain ts) (hl : ∀ t ∈ ts, t.isLegible = true) :
    ∃ n, Derives .expression (k + 1) ts n := by
  induction h with
  | operand hk =>
    obtain ⟨n, hn⟩ := derives_operand hk (hl _ (by simp))
    exact ⟨n, .term (.unary hn)⟩
  | @step ts op s t _ hs hm hk ih =>
    obtain ⟨a, ha⟩ := ih fun t ht => hl t (by simp [ht])
    obtain ⟨b, hb⟩ := derives_operand (k := k) hk (hl t (by simp))
    have hcases : s ∈ ["+", "-"] ∨ s ∈ ["*", "/"] := by simpa [or_assoc] using hm
    rcases hcases with hplus | htimes
    · exact ⟨_, .sum ha hs hplus (.unary hb)⟩
    · exact derives_times ha hs htimes hb

end Flat

section Whole

variable {tokens : List Token} {finish : Token}

theorem legible_append_finish (ht : ∀ t ∈ tokens, t.isLegible = true)
    (hf : finish.kind = .finish) : Legible (tokens ++ [finish]) where
  isLegible t h := by
    rcases List.mem_append.mp h with h | h
    · exact ht t h
    · obtain rfl := List.mem_singleton.mp h
      simp [Token.isLegible, hf]
  finish := ⟨finish, by simp, hf⟩

theorem eq_of_append_finish {us rest : List Token} {u : Token}
    (h : us ++ u :: rest = tokens ++ [finish]) (hu : u.kind = .finish)
    (ht : ∀ t ∈ tokens, t.kind ≠ .finish) : us = tokens := by
  rcases List.append_eq_append_iff.mp h with ⟨vs, rfl, hv⟩ | ⟨vs, rfl, hv⟩
  · cases vs with
    | nil => simp
    | cons v vs =>
      cases hv
      exact absurd hu (ht u (by simp))
  · cases vs with
    | nil => simp
    | cons v vs => simp at hv

theorem parse_cases (ht : ∀ t ∈ tokens, t.isLegible = true ∧ t.kind ≠ .finish)
    (hf : finish.kind = .finish) :
    (∃ n, Derives .expression nestingLimit tokens n ∧ parse (tokens ++ [finish]) = .ok n) ∨
      ∃ position reason, parse (tokens ++ [finish]) = Parser.malformed position reason := by
  have hparses := parses_parse (legible_append_finish (fun t h => (ht t h).1) hf)
  generalize parse (tokens ++ [finish]) = result at hparses
  generalize htokens : tokens ++ [finish] = whole at hparses
  cases hparses with
  | accepted hd hu =>
    obtain rfl := eq_of_append_finish htokens.symm hu fun t h => (ht t h).2
    exact .inl ⟨_, hd, rfl⟩
  | rejected => exact .inr ⟨_, _, rfl⟩

theorem parse_of_derives {n : Expression} (hd : Derives .expression nestingLimit tokens n)
    (hf : finish.kind = .finish) : parse (tokens ++ [finish]) = .ok n := by
  have hend : finish.Ends .expression := Token.ends_of_kind (by simp [hf]) (by simp [hf])
  have heq := Derives.expression_eq hd.recovered hend []
  obtain ⟨t, ts, rfl, -⟩ := hd.head_kind
  have hhead := hd.kind_ne_finish t (by simp)
  rw [List.cons_append] at heq ⊢
  rw [parse]
  simp [hhead, heq, hf]

/-- The tree that the grammar derives is the tree that is parsed; tokens that are no expression
are refused as malformed. A list of tokens has at most one tree, and long chains have one. -/
theorem parse_exact (ht : ∀ t ∈ tokens, t.isLegible = true ∧ t.kind ≠ .finish)
    (hf : finish.kind = .finish) :
    (∀ n, parse (tokens ++ [finish]) = .ok n ↔ Derives .expression 100 tokens n) ∧
      ((∀ n, ¬Derives .expression 100 tokens n) → ∃ position reason,
        parse (tokens ++ [finish]) = .error (.fault (.malformed position reason))) ∧
      (∀ k m n, Derives .expression k tokens m → Derives .expression k tokens n → m = n) ∧
      (FlatChain tokens → ∃ n, parse (tokens ++ [finish]) = .ok n) := by
  have hcases := parse_cases ht hf
  refine ⟨fun n => ⟨fun h => ?_, fun h => parse_of_derives h hf⟩, fun h => ?_, ?_, fun h => ?_⟩
  · rcases hcases with ⟨m, hd, heq⟩ | ⟨_, _, heq⟩
    · obtain rfl := Except.ok.inj (heq.symm.trans h)
      exact hd
    · cases heq.symm.trans h
  · rcases hcases with ⟨m, hd, -⟩ | hmalformed
    · exact absurd hd (h m)
    · exact hmalformed
  · exact fun _ _ _ => Derives.unique
  · obtain ⟨n, hn⟩ := h.derives (k := 99) fun t h => (ht t h).1
    exact ⟨n, parse_of_derives hn hf⟩

theorem parse_exact_negated_factorial :
    Derives .expression 100
      [⟨.operator "-", 0⟩, ⟨.number .pi, 1⟩, ⟨.factorial, 2⟩, ⟨.operator "^", 3⟩,
        ⟨.operator "-", 4⟩, ⟨.constant "e", 5⟩]
      (.binary "^" (.factorial (.literal (.real (-.pi)))) (.unary "-" (.literal (.real .e)))) :=
  ((@parse_exact _ ⟨.finish, 6⟩ (by decide) rfl).1 _).mp rfl

end Whole

end DeskCalculator
