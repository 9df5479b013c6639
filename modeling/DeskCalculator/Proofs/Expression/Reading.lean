import DeskCalculator.Proofs.Expression.Refusal
import DeskCalculator.Proofs.Expression.Arithmetic

namespace DeskCalculator

inductive Reads (r : Rule) (k : Nat) :
    List Token → Except Failure (Expression × List Token) → Prop where
  | accepted {us n rest} (hd : Derives r k us n) (hstop : r.StopsBefore rest) :
      Reads r k (us ++ rest) (.ok (n, rest))
  | refused {ts position reason} : Refused ts position reason →
      Reads r k ts (Parser.malformed position reason)

def Parser.Follows (r : Rule) (k : Nat) (p : Parser) : Prop :=
  ∀ ts, Legible ts → Reads r k ts (p ts)

namespace Parser

variable {k : Nat}

theorem legible_ne_nil {ts : List Token} (h : Legible ts) : ∃ t us, ts = t :: us := by
  obtain ⟨t, ht, -⟩ := h.finish
  cases ts with
  | nil => cases ht
  | cons t us => exact ⟨t, us, rfl⟩

theorem legible_tail {t : Token} {ts : List Token} (h : Legible (t :: ts))
    (ht : t.kind ≠ .finish) : Legible ts where
  isLegible u hu := h.isLegible u (List.mem_cons_of_mem t hu)
  finish := by
    obtain ⟨u, hu, hk⟩ := h.finish
    rcases List.mem_cons.mp hu with rfl | hu
    · exact absurd hk ht
    · exact ⟨u, hu, hk⟩

theorem reads_lift {r s : Rule} {j : Nat} {ts : List Token}
    {result : Except Failure (Expression × List Token)} (h : Reads r j ts result)
    (lift : ∀ us n, Derives r j us n → Derives s k us n)
    (hcont : s.continuations ⊆ r.continuations) : Reads s k ts result := by
  cases h with
  | accepted hd hstop => exact .accepted (lift _ _ hd) (hstop.mono hcont)
  | refused h => exact .refused h

section Chain

variable {symbols : List String} {operand : Parser} {inner outer : Rule}

theorem reads_chainRest (ho : operand.Follows inner k)
    (hcont : outer.continuations = inner.continuations ++ symbols)
    (extend : ∀ {ts us op s a b}, Derives outer k ts a → op.lexeme.symbol? = some s →
      s ∈ symbols → Derives inner k us b → Derives outer k (ts ++ op :: us) (.binary s a b)) :
    ∀ (fuel : Nat) (left : Expression) (us ts : List Token), Derives outer k us left →
      Legible ts → inner.StopsBefore ts → ts.length < fuel →
      Reads outer k (us ++ ts) (chainRest symbols operand fuel left ts) := by
  -- What is read is carried as `us`. A turn takes one of the fuel and at least one token.
  intro fuel
  induction fuel with
  | zero => intro left us ts _ _ _ hf; omega
  | succ fuel ih =>
    intro left us ts hd hl hinner hf
    obtain ⟨t, ts, rfl⟩ := legible_ne_nil hl
    have hends (hs : ∀ s ∈ symbols, t.lexeme.symbol? ≠ some s) :
        outer.StopsBefore (t :: ts) := by
      rintro u hu s hmem
      obtain rfl := Option.some.inj hu
      rw [hcont, List.mem_append] at hmem
      exact hmem.elim (hinner t rfl s) (hs s)
    unfold chainRest
    cases hs : t.lexeme.symbol? with
    | none => exact .accepted hd (hends (by simp [hs]))
    | some s =>
      by_cases hc : symbols.contains s
      · have hm : s ∈ symbols := by simpa using hc
        have hkind := Token.kind_of_symbol? hs
        have htail := legible_tail hl (by simp [hkind])
        have hr := ho ts htail
        simp only [hc, if_true]
        generalize operand ts = result at hr
        cases hr with
        | refused h => exact .refused (h.after_operator us hkind)
        | @accepted vs b rest hb hstop =>
          have hlr := htail.rest hb
          have hlen : rest.length < fuel := by
            simp only [List.length_cons, List.length_append] at hf
            omega
          have := ih (.binary s left b) (us ++ t :: vs) rest (extend hd hs hm hb) hlr hstop hlen
          simpa using this
      · simp only [hc]
        refine .accepted hd (hends fun s' hs' heq => hc ?_)
        obtain rfl := Option.some.inj (hs.symm.trans heq)
        simpa using hs'

theorem follows_chain (ho : operand.Follows inner k)
    (hcont : outer.continuations = inner.continuations ++ symbols)
    (lift : ∀ {ts n}, Derives inner k ts n → Derives outer k ts n)
    (extend : ∀ {ts us op s a b}, Derives outer k ts a → op.lexeme.symbol? = some s →
      s ∈ symbols → Derives inner k us b → Derives outer k (ts ++ op :: us) (.binary s a b)) :
    (chain symbols operand).Follows outer k := by
  intro ts hl
  have hr := ho ts hl
  unfold chain
  generalize operand ts = result at hr
  cases hr with
  | refused h => exact .refused h
  | @accepted us n rest hd hstop =>
    exact reads_chainRest ho hcont extend _ n us rest (lift hd) (hl.rest hd) hstop (by omega)

end Chain

section Levels

variable {u : Parser}

theorem follows_term (hu : u.Follows .unary k) : (term u).Follows .term k :=
  follows_chain hu rfl .unary .product

theorem follows_expression (hu : u.Follows .unary k) : (expression u).Follows .expression k :=
  follows_chain (follows_term hu) rfl .term .sum

inductive ReadsGroup (k : Nat) (paren : Token) :
    List Token → Except Failure (Expression × List Token) → Prop where
  | accepted {us closing rest n} : Derives .expression k us n → closing.kind = .closeParen →
      ReadsGroup k paren (us ++ closing :: rest) (.ok (n, rest))
  | refused {ts position reason} : Refused (paren :: ts) position reason →
      ReadsGroup k paren ts (malformed position reason)

theorem reads_group (hu : u.Follows .unary k) {paren : Token} (hparen : paren.kind = .openParen)
    {ts : List Token} (hl : Legible ts) : ReadsGroup k paren ts (group u paren ts) := by
  obtain ⟨t, ts, rfl⟩ := legible_ne_nil hl
  rw [group]
  split
  · rename_i ht
    have hfaults : Faults [paren] t ts .emptyParentheses :=
      .emptyParentheses (List.nil_append [paren]).symm hparen ht
    exact .refused (.fault hfaults)
  · rename_i ht
    have hr := follows_expression hu _ hl
    generalize expression u (t :: ts) = result at hr
    generalize htokens : t :: ts = tokens at hl hr
    cases hr with
    | refused h =>
      subst htokens
      exact .refused (h.after [paren] ht)
    | @accepted us n rest hd hstop =>
      obtain ⟨c, rest, rfl⟩ := legible_ne_nil (hl.rest hd)
      by_cases hc : c.kind = .closeParen
      · simpa [hc] using .accepted hd hc
      · have hfaults : Faults [] paren (us ++ c :: rest) .unmatchedOpen :=
          .unmatchedOpen hparen rfl hd hstop hc
        simpa [hc] using .refused (.fault hfaults)

theorem constant_eq {v : Value} {name : String} {x : Binary64} (hv : v = .text name)
    (hx : constant? name = some x) : constant v = .ok x := by
  rw [hv, constant, Value.lookUp_text, ok_bind, hx]
  rfl

theorem follows_atom (hu : u.Follows .unary k) : (atom u).Follows .primary k := by
  intro ts hl
  obtain ⟨t, ts, rfl⟩ := legible_ne_nil hl
  have hreadable := hl.isLegible t (List.mem_cons_self ..)
  have hfault {reason : ParseReason} (h : Faults [] t ts reason) :
      Reads .primary k (t :: ts) (malformed t.position reason) := .refused (.fault h)
  unfold atom
  dsimp only
  cases hk : t.kind with
  | number =>
    obtain ⟨v, ts, rfl⟩ := legible_ne_nil (legible_tail hl (by simp [hk]))
    by_cases hv : v.kind = .factorial
    · simpa [hv] using Reads.accepted (.factorial hk hv) (Rule.stopsBefore_primary ts)
    · simpa [hv] using Reads.accepted (.number hk) (Rule.stopsBefore_primary (v :: ts))
  | constant =>
    obtain ⟨name, x, hv, hx⟩ := Token.value_of_constant hreadable hk
    simpa [constant_eq hv hx] using
      Reads.accepted (.constant hk hv hx) (Rule.stopsBefore_primary ts)
  | function =>
    have htail := legible_tail hl (by simp [hk])
    obtain ⟨v, ts, rfl⟩ := legible_ne_nil htail
    by_cases hv : v.kind = .openParen
    · have hr := reads_group hu hv (legible_tail htail (by simp [hv]))
      simp only [hv, if_true]
      generalize group u v ts = result at hr
      cases hr with
      | refused h => exact .refused (h.after [t] (by simp [hv]))
      | @accepted us c rest n hd hc =>
        simpa using Reads.accepted (.call hk hv hd hc) (Rule.stopsBefore_primary rest)
    · have hfaults : Faults [t] v ts (.parenExpected t.value) :=
        .parenExpected (List.nil_append [t]).symm hk hv
      simpa [hv] using Reads.refused (.fault hfaults)
  | openParen =>
    have hr := reads_group hu hk (legible_tail hl (by simp [hk]))
    generalize group u t ts = result at hr
    cases hr with
    | refused h => exact .refused h
    | @accepted us c rest n hd hc =>
      simpa using Reads.accepted (.group hk hd hc) (Rule.stopsBefore_primary rest)
  | operator => exact hfault (.operandExpected (.inl hk))
  | closeParen => exact hfault (.unmatchedClose hk .start)
  | factorial => exact hfault (.operandExpected (.inr hk))
  | finish => exact hfault (.unexpectedEnd hk)

theorem follows_primary (hu : u.Follows .unary k) : (primary u).Follows .primary k := by
  intro ts hl
  have hr := follows_atom hu ts hl
  unfold primary
  generalize atom u ts = result at hr
  cases hr with
  | refused h => exact .refused h
  | @accepted us n rest hd hstop =>
    obtain ⟨c, rest, rfl⟩ := legible_ne_nil (hl.rest hd)
    by_cases hc : c.kind = .factorial
    · simpa [hc] using Reads.refused (.fault (.factorialOfNonLiteral hc))
    · simpa [hc] using Reads.accepted hd hstop

theorem reads_powerTail {r : Rule} {j : Nat} {us ts : List Token} {base : Expression}
    (hu : u.Follows .unary k) (plain : Derives r j us base)
    (raised : ∀ {op vs b}, op.lexeme.symbol? = some "^" → Derives .unary k vs b →
      Derives r j (us ++ op :: vs) (.binary "^" base b))
    (hcont : r.continuations = ["^"]) (hl : Legible ts) :
    Reads r j (us ++ ts) (powerTail u base ts) := by
  obtain ⟨t, ts, rfl⟩ := legible_ne_nil hl
  rw [powerTail]
  by_cases hs : t.lexeme.symbol? = some "^"
  · have hkind := Token.kind_of_symbol? hs
    have hr := hu ts (legible_tail hl (by simp [hkind]))
    simp only [hs, if_true]
    generalize u ts = result at hr
    cases hr with
    | refused h => exact .refused (h.after_operator us hkind)
    | @accepted vs b rest hd hstop =>
      have hstop' : r.StopsBefore rest := hstop.mono (by rw [hcont]; exact fun _ hs => hs)
      simpa using Reads.accepted (raised hs hd) hstop'
  · have hstop : r.StopsBefore (t :: ts) := by
      rintro v hv s hmem
      obtain rfl := Option.some.inj hv
      rw [hcont, List.mem_singleton] at hmem
      exact hmem ▸ hs
    simpa [hs] using Reads.accepted plain hstop

theorem follows_power (hu : u.Follows .unary k) : (power u).Follows .power k := by
  intro ts hl
  have hr := follows_primary hu ts hl
  unfold power
  generalize primary u ts = result at hr
  cases hr with
  | refused h => exact .refused h
  | @accepted us n rest hd _ =>
    exact reads_powerTail hu (.primary hd) (fun hs hb => .raised hd hs hb) rfl (hl.rest hd)

end Levels

theorem factorialLiteral?_eq_some {ts rest : List Token} {v : Value}
    (h : factorialLiteral? ts = some (v, rest)) :
    ∃ t mark, ts = t :: mark :: rest ∧ t.kind = .number ∧ t.value = v ∧
      mark.kind = .factorial := by
  unfold factorialLiteral? at h
  split at h
  · rename_i t mark rest'
    split at h
    · rename_i hk
      cases h
      exact ⟨t, mark, rfl, hk.1, rfl, hk.2⟩
    · cases h
  · cases h

theorem factorialLiteral?_eq_none {ts : List Token} :
    factorialLiteral? ts = none ↔ ¬StartsWithFactorial ts := by
  unfold factorialLiteral? StartsWithFactorial
  split
  · rename_i t mark rest
    by_cases hk : t.kind = .number ∧ mark.kind = .factorial
    · simp [hk]
    · simp only [hk, if_false, true_iff]
      rintro ⟨t', mark', rest', heq, hn, hm⟩
      cases heq
      exact hk ⟨hn, hm⟩
  · rename_i hne
    simp only [true_iff]
    rintro ⟨t, mark, rest, rfl, -, -⟩
    exact hne t mark rest rfl

theorem follows_unary : ∀ k, (unary k).Follows .unary k := by
  intro k
  induction k with
  | zero =>
    intro ts hl
    obtain ⟨t, ts, rfl⟩ := legible_ne_nil hl
    have hfaults : Faults [] t ts .nestedTooDeeply := .nestedTooDeeply
    exact .refused (.fault hfaults)
  | succ k ih =>
    intro ts hl
    obtain ⟨t, ts, rfl⟩ := legible_ne_nil hl
    rw [unary]
    by_cases hs : t.lexeme.symbol? = some "-"
    · have hkind := Token.kind_of_symbol? hs
      have htail := legible_tail hl (by simp [hkind])
      simp only [hs, if_true]
      cases hf : factorialLiteral? ts with
      | some literal =>
        obtain ⟨v, rest⟩ := literal
        obtain ⟨number, mark, rfl, hnumber, hvalue, hmark⟩ := factorialLiteral?_eq_some hf
        obtain ⟨x, hx⟩ := Token.value_of_number
          (htail.isLegible number (List.mem_cons_self ..)) hnumber
        have hrest := legible_tail (legible_tail htail (by simp [hnumber])) (by simp [hmark])
        have := reads_powerTail ih (.negatedFactorial hs hnumber hx hmark)
          (fun hop hb => .negatedFactorialPower hs hnumber hx hmark hop hb) rfl hrest
        simpa [← hvalue, hx, Value.negate_real] using this
      | none =>
        have hr := ih ts htail
        generalize unary k ts = result at hr
        cases hr with
        | refused h => exact .refused (h.after_operator [] hkind)
        | @accepted us n rest hd hstop =>
          have hstart : ¬StartsWithFactorial us := fun h =>
            factorialLiteral?_eq_none.mp hf (h.append rest)
          exact .accepted (.negation hs hstart hd) hstop
    · simp only [hs, if_false]
      exact reads_lift (follows_power ih _ hl) (fun _ _ => .power) (by simp [Rule.continuations])

end Parser

inductive Parses : List Token → Except Failure Expression → Prop where
  | accepted {us n finish rest} : Derives .expression nestingLimit us n → finish.kind = .finish →
      Parses (us ++ finish :: rest) (.ok n)
  | rejected {ts position reason} : Rejected ts position reason →
      Parses ts (Parser.malformed position reason)

theorem parses_parse {ts : List Token} (hl : Legible ts) : Parses ts (parse ts) := by
  have hr := Parser.follows_expression (Parser.follows_unary nestingLimit) _ hl
  obtain ⟨t, ts, rfl⟩ := Parser.legible_ne_nil hl
  rw [parse]
  by_cases ht : t.kind = .finish
  · rw [if_pos ht]
    exact .rejected (.empty ht)
  · rw [if_neg ht]
    generalize Parser.expression _ _ = result at hr
    generalize t :: ts = tokens at hr hl
    cases hr with
    | refused h => exact .rejected (.refused h)
    | @accepted us n rest hd hstop =>
      obtain ⟨u, rest, rfl⟩ := Parser.legible_ne_nil (hl.rest hd)
      rw [ok_bind]
      dsimp only
      cases hu : u.kind with
      | finish => exact .accepted hd hu
      | closeParen => exact .rejected (.surplusClose hd hu)
      | _ => exact .rejected (.surplus hd hstop (by simp [hu]) (by simp [hu]))

end DeskCalculator
