import DeskCalculator.Proofs.Expression.Parsing

namespace DeskCalculator

namespace Parser

def Overflows (p : Parser) (ts : List Token) : Prop :=
  ∃ position, p ts = malformed position .nestedTooDeeply

variable {symbols : List String} {operand u : Parser} {ts us rest : List Token} {t op : Token}

theorem overflows_chain (h : Overflows operand ts) : Overflows (chain symbols operand) ts := by
  obtain ⟨position, h⟩ := h
  exact ⟨position, by simp [chain, h, malformed]⟩

theorem overflows_chain_step {s : String} {n : Expression}
    (h : ChainReaches symbols operand ts n (op :: us)) (hs : op.lexeme.symbol? = some s)
    (hm : s ∈ symbols) (ho : Overflows operand us) :
    Overflows (chain symbols operand) (ts ++ op :: us) := by
  obtain ⟨fuel, hf, heq⟩ := h
  obtain ⟨fuel, rfl⟩ := Nat.exists_eq_add_one_of_ne_zero (by omega : fuel ≠ 0)
  obtain ⟨position, ho⟩ := ho
  exact ⟨position, by simp [heq, chainRest, hs, hm, ho, malformed]⟩

theorem overflows_group (h : Overflows (expression u) (t :: ts)) (ht : t.kind ≠ .closeParen)
    (paren : Token) : Overflows (group u paren) (t :: ts) := by
  obtain ⟨position, h⟩ := h
  exact ⟨position, by simp [group, ht, h, malformed]⟩

theorem overflows_primary (h : Overflows (atom u) ts) : Overflows (primary u) ts := by
  obtain ⟨position, h⟩ := h
  exact ⟨position, by simp [primary, h, malformed]⟩

theorem overflows_power (h : Overflows (primary u) ts) : Overflows (power u) ts := by
  obtain ⟨position, h⟩ := h
  exact ⟨position, by simp [power, h, malformed]⟩

theorem overflows_powerTail (h : Overflows u us) (op : Token)
    (hs : op.lexeme.symbol? = some "^") (base : Expression) :
    Overflows (powerTail u base) (op :: us) := by
  obtain ⟨position, h⟩ := h
  exact ⟨position, by simp [powerTail, hs, h, malformed]⟩

theorem overflows_zero : Overflows (unary 0) (t :: ts) :=
  ⟨t.position, by simp [unary]⟩

theorem overflows_unary {k : Nat} (h : Overflows (power (unary k)) (t :: ts))
    (ht : t.kind ≠ .operator) : Overflows (unary (k + 1)) (t :: ts) := by
  obtain ⟨position, h⟩ := h
  have hs : t.lexeme.symbol? ≠ some "-" := fun hs => ht (Token.kind_of_symbol? hs)
  exact ⟨position, by simp [unary, hs, h]⟩

end Parser

namespace Rule

def tightness : Rule → Nat
  | .expression => 0
  | .term => 1
  | .unary => 2
  | .power => 3
  | .primary => 4

def opens (r q : Rule) : Nat :=
  if r.tightness ≤ 2 ∧ 2 < q.tightness then 1 else 0

def parser (k : Nat) : Rule → Parser
  | .expression => Parser.expression (Parser.unary k)
  | .term => Parser.term (Parser.unary k)
  | .unary => Parser.unary k
  | .power => Parser.power (Parser.unary k)
  | .primary => Parser.primary (Parser.unary k)

end Rule

section Widen

variable {r q : Rule} {k : Nat} {ts : List Token} {n : Expression}

theorem Derives.loosen (h : Derives .unary k ts n) (hr : r.tightness ≤ 2) : Derives r k ts n := by
  cases r with
  | expression => exact .term (.unary h)
  | term => exact .unary h
  | unary => exact h
  | power => simp [Rule.tightness] at hr
  | primary => simp [Rule.tightness] at hr

theorem Derives.widen (h : Derives q k ts n) (hr : r.tightness ≤ q.tightness) :
    Derives r (k + r.opens q) ts n := by
  cases q with
  | expression =>
    cases r with
    | expression => exact h
    | _ => simp [Rule.tightness] at hr
  | term =>
    cases r with
    | expression => exact .term h
    | term => exact h
    | _ => simp [Rule.tightness] at hr
  | unary =>
    have hopens : r.opens .unary = 0 := by simp [Rule.opens, Rule.tightness]
    rw [hopens]
    exact h.loosen hr
  | power =>
    cases r with
    | power => exact h
    | primary => simp [Rule.tightness] at hr
    | _ => exact (Derives.power h).loosen (by decide)
  | primary =>
    cases r with
    | primary => exact h
    | power => exact .primary h
    | _ => exact (Derives.power (.primary h)).loosen (by decide)

def TooDeep (r : Rule) (k : Nat) (ts : List Token) : Prop :=
  ∀ t rest, t.kind ≠ .factorial → (r.parser k).Overflows (ts ++ t :: rest)

theorem TooDeep.loosen (h : TooDeep .unary k ts) (hr : r.tightness ≤ 2) : TooDeep r k ts := by
  intro t rest ht
  have hunary := h t rest ht
  cases r with
  | expression => exact Parser.overflows_chain (Parser.overflows_chain hunary)
  | term => exact Parser.overflows_chain hunary
  | unary => exact hunary
  | power => simp [Rule.tightness] at hr
  | primary => simp [Rule.tightness] at hr

theorem TooDeep.power (h : TooDeep .primary k ts) : TooDeep .power k ts :=
  fun t rest ht => Parser.overflows_power (h t rest ht)

theorem TooDeep.unary {t : Token} (h : TooDeep .power k (t :: ts)) (ht : t.kind ≠ .operator) :
    TooDeep .unary (k + 1) (t :: ts) :=
  fun u rest hu => Parser.overflows_unary (h u rest hu) ht

theorem TooDeep.widen {t : Token} (h : TooDeep q k (t :: ts)) (hr : r.tightness ≤ q.tightness)
    (ht : 2 < q.tightness → t.kind ≠ .operator) : TooDeep r (k + r.opens q) (t :: ts) := by
  cases q with
  | expression =>
    cases r with
    | expression => exact h
    | _ => simp [Rule.tightness] at hr
  | term =>
    cases r with
    | expression => exact fun u rest hu => Parser.overflows_chain (h u rest hu)
    | term => exact h
    | _ => simp [Rule.tightness] at hr
  | unary =>
    have hopens : r.opens .unary = 0 := by simp [Rule.opens, Rule.tightness]
    rw [hopens]
    exact h.loosen hr
  | power =>
    cases r with
    | power => exact h
    | primary => simp [Rule.tightness] at hr
    | _ => exact (h.unary (ht (by decide))).loosen (by decide)
  | primary =>
    cases r with
    | primary => exact h
    | power => exact h.power
    | _ => exact (h.power.unary (ht (by decide))).loosen (by decide)

theorem tooDeep_zero (hne : ts ≠ []) : TooDeep .unary 0 ts := by
  intro t rest _
  obtain ⟨u, us, rfl⟩ := List.exists_cons_of_ne_nil hne
  exact Parser.overflows_zero

end Widen

structure NestsAt (r : Rule) (nesting : Nat) (lexemes : List Lexeme) (n : Expression) : Prop where
  derives : ∀ {k ts}, nesting ≤ k → ts.map Token.lexeme = lexemes → Derives r k ts n
  tooDeep : ∀ {k ts}, k < nesting → ts.map Token.lexeme = lexemes → TooDeep r k ts

theorem exists_token {ts : List Token} {l : Lexeme} {ls : List Lexeme}
    (h : ts.map Token.lexeme = l :: ls) :
    ∃ position us, ts = ⟨l, position⟩ :: us ∧ us.map Token.lexeme = ls := by
  obtain ⟨⟨lexeme, position⟩, us, rfl, hl, hus⟩ := List.map_eq_cons_iff.mp h
  obtain rfl : lexeme = l := hl
  exact ⟨position, us, rfl, hus⟩

theorem exists_operator {ts : List Token} {ls ms : List Lexeme} {s : String}
    (h : ts.map Token.lexeme = ls ++ .operator s :: ms) :
    ∃ us position vs, ts = us ++ ⟨.operator s, position⟩ :: vs ∧ us.map Token.lexeme = ls ∧
      vs.map Token.lexeme = ms := by
  obtain ⟨us, ws, rfl, hus, hws⟩ := List.map_eq_append_iff.mp h
  obtain ⟨position, vs, rfl, hvs⟩ := exists_token hws
  exact ⟨us, position, vs, rfl, hus, hvs⟩

theorem exists_parens {ts : List Token} {ls : List Lexeme}
    (h : ts.map Token.lexeme = .openParen :: (ls ++ [.closeParen])) :
    ∃ opening us closing, ts = ⟨.openParen, opening⟩ :: (us ++ [⟨.closeParen, closing⟩]) ∧
      us.map Token.lexeme = ls := by
  obtain ⟨opening, vs, rfl, hvs⟩ := exists_token h
  obtain ⟨us, ws, rfl, hus, hws⟩ := List.map_eq_append_iff.mp hvs
  obtain ⟨closing, zs, rfl, hzs⟩ := exists_token hws
  obtain rfl := List.map_eq_nil_iff.mp hzs
  exact ⟨opening, us, closing, rfl, hus⟩

theorem exists_signed {ts : List Token} {x : Binary64} {ls : List Lexeme}
    (h : ts.map Token.lexeme = .operator "-" :: .number x :: .factorial :: ls) :
    ∃ minus position mark us, ts = ⟨.operator "-", minus⟩ :: ⟨.number x, position⟩ ::
      ⟨.factorial, mark⟩ :: us ∧ us.map Token.lexeme = ls := by
  obtain ⟨minus, vs, rfl, hvs⟩ := exists_token h
  obtain ⟨position, ws, rfl, hws⟩ := exists_token hvs
  obtain ⟨mark, us, rfl, hus⟩ := exists_token hws
  exact ⟨minus, position, mark, us, rfl, hus⟩

namespace NestsAt

variable {r q : Rule} {i j m : Nat} {ls ms : List Lexeme} {a b n : Expression}

theorem exists_head (h : NestsAt q m ls n) {ts : List Token} (hts : ts.map Token.lexeme = ls) :
    ∃ t us, ts = t :: us ∧ t.kind ≠ .closeParen ∧ (2 < q.tightness → t.kind ≠ .operator) := by
  obtain ⟨t, us, rfl, hclose, hop⟩ := (h.derives (Nat.le_refl m) hts).head_kind
  refine ⟨t, us, rfl, hclose, fun hq => ?_⟩
  cases q with
  | power => exact hop (.inl rfl)
  | primary => exact hop (.inr rfl)
  | _ => simp [Rule.tightness] at hq

theorem widen (h : NestsAt q m ls n) (hr : r.tightness ≤ q.tightness) :
    NestsAt r (m + r.opens q) ls n where
  derives {k ts} hk hts := by
    obtain ⟨d, rfl⟩ := Nat.exists_eq_add_of_le hk
    have hd := (h.derives (Nat.le_add_right m d) hts).widen hr
    rwa [show m + d + r.opens q = m + r.opens q + d by omega] at hd
  tooDeep {k ts} hk hts := by
    obtain ⟨t, us, rfl, -, hop⟩ := h.exists_head hts
    by_cases hopens : r.opens q ≤ k
    · obtain ⟨d, rfl⟩ := Nat.exists_eq_add_of_le hopens
      rw [Nat.add_comm (r.opens q)]
      exact (h.tooDeep (by omega) hts).widen hr hop
    · have hunary : r.tightness ≤ 2 ∧ 2 < q.tightness :=
        Decidable.byContradiction fun hclosed => hopens (by simp [Rule.opens, hclosed])
      obtain rfl : k = 0 := by
        rw [Rule.opens, if_pos hunary] at hopens
        omega
      exact (tooDeep_zero (by simp)).loosen hunary.1

theorem literal {x : Binary64} : NestsAt .primary 0 [.number x] (.literal (.real x)) where
  derives {k ts} _ hts := by
    obtain ⟨position, us, rfl, hus⟩ := exists_token hts
    obtain rfl := List.map_eq_nil_iff.mp hus
    exact .number (t := ⟨.number x, position⟩) rfl
  tooDeep hk _ := absurd hk (Nat.not_lt_zero _)

theorem factorial {x : Binary64} :
    NestsAt .primary 0 [.number x, .factorial] (.factorial (.literal (.real x))) where
  derives {k ts} _ hts := by
    obtain ⟨position, us, rfl, hus⟩ := exists_token hts
    obtain ⟨mark, vs, rfl, hvs⟩ := exists_token hus
    obtain rfl := List.map_eq_nil_iff.mp hvs
    exact .factorial (t := ⟨.number x, position⟩) rfl rfl
  tooDeep hk _ := absurd hk (Nat.not_lt_zero _)

theorem negatedFactorial {x : Binary64} :
    NestsAt .unary 1 [.operator "-", .number x, .factorial] (.factorial (.literal (.real (-x))))
    where
  derives {k ts} hk hts := by
    obtain ⟨k, rfl⟩ := Nat.exists_eq_add_of_le' hk
    obtain ⟨minus, position, mark, us, rfl, hus⟩ := exists_signed hts
    obtain rfl := List.map_eq_nil_iff.mp hus
    exact .negatedFactorial rfl rfl rfl rfl
  tooDeep {k ts} hk hts := by
    obtain rfl : k = 0 := by omega
    exact tooDeep_zero (by rintro rfl; cases hts)

theorem negatedFactorialPower {x : Binary64} (hb : NestsAt .unary m ms b) :
    NestsAt .unary (m + 1) (.operator "-" :: .number x :: .factorial :: .operator "^" :: ms)
      (.binary "^" (.factorial (.literal (.real (-x)))) b) where
  derives {k ts} hk hts := by
    obtain ⟨k, rfl⟩ := Nat.exists_eq_add_of_le' (Nat.le_trans (Nat.le_add_left 1 m) hk)
    obtain ⟨minus, position, mark, us, rfl, hus⟩ := exists_signed hts
    obtain ⟨power, vs, rfl, hvs⟩ := exists_token hus
    exact .negatedFactorialPower rfl rfl rfl rfl rfl (hb.derives (by omega) hvs)
  tooDeep {k ts} hk hts := by
    obtain ⟨minus, position, mark, us, rfl, hus⟩ := exists_signed hts
    obtain ⟨power, vs, rfl, hvs⟩ := exists_token hus
    cases k with
    | zero => exact tooDeep_zero (by simp)
    | succ k =>
      intro t rest ht
      obtain ⟨position, hdeep⟩ := Parser.overflows_powerTail
        (hb.tooDeep (Nat.lt_of_succ_lt_succ hk) hvs t rest ht) ⟨.operator "^", power⟩ rfl
        (.factorial (.literal (.real (-x))))
      exact ⟨position, hdeep⟩

theorem negation (h : NestsAt .unary m ls n)
    (hstart : ∀ ts : List Token, ts.map Token.lexeme = ls → ¬StartsWithFactorial ts) :
    NestsAt .unary (m + 1) (.operator "-" :: ls) (.unary "-" n) where
  derives {k ts} hk hts := by
    obtain ⟨k, rfl⟩ := Nat.exists_eq_add_of_le' (Nat.le_trans (Nat.le_add_left 1 m) hk)
    obtain ⟨minus, us, rfl, hus⟩ := exists_token hts
    exact .negation rfl (hstart us hus) (h.derives (by omega) hus)
  tooDeep {k ts} hk hts := by
    obtain ⟨minus, us, rfl, hus⟩ := exists_token hts
    cases k with
    | zero => exact tooDeep_zero (by simp)
    | succ k =>
      intro t rest ht
      obtain ⟨position, hdeep⟩ := h.tooDeep (Nat.lt_of_succ_lt_succ hk) hus t rest ht
      have hne : us ≠ [] := (h.derives (Nat.le_refl m) hus).ne_nil
      have hf : Parser.factorialLiteral? (us ++ t :: rest) = none := by
        rw [Parser.factorialLiteral?_eq_none]
        exact fun hs => hstart us hus (hs.of_append hne ht)
      refine ⟨position, ?_⟩
      change Parser.unary k (us ++ t :: rest) = _ at hdeep
      have hs : (⟨.operator "-", minus⟩ : Token).lexeme.symbol? = some "-" := rfl
      simp [Rule.parser, Parser.unary, hs, hf, hdeep, Parser.malformed]

section Chain

variable {outer inner : Rule} {symbols : List String} {s : String}

theorem chain (ha : NestsAt outer i ls a) (hb : NestsAt inner j ms b)
    (hparser : ∀ k, outer.parser k = Parser.chain symbols (inner.parser k))
    (hderives : ∀ {k ts us op}, Derives outer k ts a → op.lexeme.symbol? = some s →
      Derives inner k us b → Derives outer k (ts ++ op :: us) (.binary s a b))
    (hreaches : ∀ {k ts}, Derives outer k ts a → ∀ t rest, t.Ends inner →
      Parser.ChainReaches symbols (inner.parser k) ts a (t :: rest))
    (hs : s ∈ symbols) (hends : s ∉ inner.continuations) :
    NestsAt outer (max i j) (ls ++ .operator s :: ms) (.binary s a b) where
  derives {k ts} hk hts := by
    obtain ⟨us, position, ws, rfl, hus, hws⟩ := exists_operator hts
    exact hderives (ha.derives (by omega) hus) rfl (hb.derives (by omega) hws)
  tooDeep {k ts} hk hts := by
    obtain ⟨us, position, ws, rfl, hus, hws⟩ := exists_operator hts
    intro t rest ht
    rw [List.append_assoc]
    rcases Nat.lt_or_ge k i with hi | hi
    · exact ha.tooDeep hi hus ⟨.operator s, position⟩ (ws ++ t :: rest) nofun
    · rw [hparser]
      have hleft := hreaches (ha.derives hi hus) ⟨.operator s, position⟩ (ws ++ t :: rest)
        (Token.ends_of_symbol rfl hends)
      exact Parser.overflows_chain_step hleft rfl hs (hb.tooDeep (by omega) hws t rest ht)

theorem sum (ha : NestsAt .expression i ls a) (hb : NestsAt .term j ms b) (hs : s ∈ ["+", "-"]) :
    NestsAt .expression (max i j) (ls ++ .operator s :: ms) (.binary s a b) := by
  refine chain ha hb (fun _ => rfl) (fun hd ho he => .sum hd ho hs he) Derives.recovered hs ?_
  simp only [List.mem_cons, List.not_mem_nil, or_false] at hs
  rcases hs with rfl | rfl <;> simp [Rule.continuations]

theorem product (ha : NestsAt .term i ls a) (hb : NestsAt .unary j ms b) (hs : s ∈ ["*", "/"]) :
    NestsAt .term (max i j) (ls ++ .operator s :: ms) (.binary s a b) := by
  refine chain ha hb (fun _ => rfl) (fun hd ho he => .product hd ho hs he) Derives.recovered hs ?_
  simp only [List.mem_cons, List.not_mem_nil, or_false] at hs
  rcases hs with rfl | rfl <;> simp [Rule.continuations]

end Chain

theorem raised (ha : NestsAt .primary i ls a) (hb : NestsAt .unary j ms b) :
    NestsAt .power (max i j) (ls ++ .operator "^" :: ms) (.binary "^" a b) where
  derives {k ts} hk hts := by
    obtain ⟨us, position, ws, rfl, hus, hws⟩ := exists_operator hts
    exact .raised (ha.derives (by omega) hus) rfl (hb.derives (by omega) hws)
  tooDeep {k ts} hk hts := by
    obtain ⟨us, position, ws, rfl, hus, hws⟩ := exists_operator hts
    intro t rest ht
    rw [List.append_assoc]
    let op : Token := ⟨.operator "^", position⟩
    rcases Nat.lt_or_ge k i with hi | hi
    · exact Parser.overflows_power (ha.tooDeep hi hus op (ws ++ t :: rest) nofun)
    · have hbase := (ha.derives hi hus).recovered op (ws ++ t :: rest)
        (Token.ends_of_symbol (s := "^") rfl (by simp [Rule.continuations]))
      have hexponent := hb.tooDeep (k := k) (by omega) hws t rest ht
      obtain ⟨position, hdeep⟩ := Parser.overflows_powerTail hexponent op rfl a
      refine ⟨position, ?_⟩
      change Parser.power (Parser.unary k) (us ++ op :: (ws ++ t :: rest)) = _
      simp only [Parser.power, hbase, ok_bind]
      exact hdeep

theorem overflows_group (h : NestsAt .expression m ls n) {k : Nat} (hk : k < m) {ts : List Token}
    (hts : ts.map Token.lexeme = ls) (position : Int) (paren : Token) (rest : List Token) :
    (Parser.group (Parser.unary k) paren).Overflows
      (ts ++ ⟨.closeParen, position⟩ :: rest) := by
  have hdeep := h.tooDeep hk hts ⟨.closeParen, position⟩ rest nofun
  obtain ⟨t, us, rfl, hclose, -⟩ := h.exists_head hts
  exact Parser.overflows_group hdeep hclose paren

theorem group (h : NestsAt .expression m ls n) :
    NestsAt .primary m (.openParen :: (ls ++ [.closeParen])) n where
  derives {k ts} hk hts := by
    obtain ⟨opening, us, closing, rfl, hus⟩ := exists_parens hts
    exact .group rfl (h.derives hk hus) rfl
  tooDeep {k ts} hk hts := by
    obtain ⟨opening, us, closing, rfl, hus⟩ := exists_parens hts
    intro t rest _
    refine Parser.overflows_primary ?_
    obtain ⟨position, hdeep⟩ := h.overflows_group hk hus closing ⟨.openParen, opening⟩ (t :: rest)
    refine ⟨position, ?_⟩
    rw [List.cons_append, List.append_assoc]
    exact hdeep

theorem call {f : String} (h : NestsAt .expression m ls n) :
    NestsAt .primary m (.function f :: .openParen :: (ls ++ [.closeParen]))
      (.call (.text f) n) where
  derives {k ts} hk hts := by
    obtain ⟨name, us, rfl, hus⟩ := exists_token hts
    obtain ⟨opening, vs, closing, rfl, hvs⟩ := exists_parens hus
    exact .call (f := ⟨.function f, name⟩) rfl rfl (h.derives hk hvs) rfl
  tooDeep {k ts} hk hts := by
    obtain ⟨name, us, rfl, hus⟩ := exists_token hts
    obtain ⟨opening, vs, closing, rfl, hvs⟩ := exists_parens hus
    intro t rest _
    refine Parser.overflows_primary ?_
    obtain ⟨position, hdeep⟩ := h.overflows_group hk hvs closing ⟨.openParen, opening⟩ (t :: rest)
    refine ⟨position, ?_⟩
    rw [List.cons_append, List.cons_append, List.append_assoc]
    have hkind : (⟨.openParen, opening⟩ : Token).kind = .openParen := rfl
    have hf : (⟨.function f, name⟩ : Token).kind = .function := rfl
    simp only [List.cons_append, List.nil_append, Parser.atom, hf, hkind, if_pos, hdeep]
    rfl

section Whole

variable {tokens : List Token} {finish : Token}

theorem parse_eq (h : NestsAt .expression m ls n) (hm : m ≤ nestingLimit)
    (hts : tokens.map Token.lexeme = ls) (hf : finish.kind = .finish) :
    parse (tokens ++ [finish]) = .ok n :=
  parse_of_derives (h.derives hm hts) hf

theorem parse_tooDeep (h : NestsAt .expression m ls n) (hm : nestingLimit < m)
    (hts : tokens.map Token.lexeme = ls) (hf : finish.kind = .finish) :
    ∃ position, parse (tokens ++ [finish]) = Parser.malformed position .nestedTooDeeply := by
  have hdeep := h.tooDeep hm hts finish [] (by simp [hf])
  have hkind := (h.derives (Nat.le_refl m) hts).kind_ne_finish
  obtain ⟨t, ts, rfl, -, -⟩ := h.exists_head hts
  obtain ⟨position, hdeep⟩ := hdeep
  have hhead : t.kind ≠ .finish := hkind t (by simp)
  refine ⟨position, ?_⟩
  change Parser.expression (Parser.unary nestingLimit) (t :: (ts ++ [finish])) = _ at hdeep
  simp [parse, hhead, hdeep, Parser.malformed]

end Whole

end NestsAt

end DeskCalculator
