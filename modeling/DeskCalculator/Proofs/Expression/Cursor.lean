import DeskCalculator.Proofs.Expression.Descent
import DeskCalculator.Proofs.Expression.Reading

namespace DeskCalculator

namespace Tape

variable {α β : Type} {tokens ts : List Token} {t : Token} {c c' : Cursor}

def Agrees (tokens : List Token) (c : Cursor) (p : Descent α)
    (result : Except Failure (α × List Token)) : Prop :=
  ∃ outcome c', p.run.run c = some (outcome, c') ∧ c.Moves tokens c' ∧
    result = outcome.map fun a => (a, tokens.drop c'.position)

section Steps

variable {p : Descent α} {f : α → Descent β} {result : Except Failure (β × List Token)}

theorem agrees_pure (a : α) (h : tokens.drop c.position = ts) :
    Agrees tokens c (pure a) (.ok (a, ts)) :=
  ⟨.ok a, c, rfl, .refl tokens c, by rw [← h]; rfl⟩

theorem agrees_error (e : Failure) : Agrees (α := α) tokens c (Descent.give (.error e)) (.error e) :=
  ⟨.error e, c, rfl, .refl tokens c, rfl⟩

theorem Agrees.bind {x : Except Failure (α × List Token)}
    {g : α × List Token → Except Failure (β × List Token)} (hp : Agrees tokens c p x)
    (hf : ∀ a c', c.Moves tokens c' → Agrees tokens c' (f a) (g (a, tokens.drop c'.position))) :
    Agrees tokens c (p >>= f) (x >>= g) := by
  obtain ⟨outcome, c', hrun, hmoves, rfl⟩ := hp
  cases outcome with
  | error e => exact ⟨.error e, c', run_bind_error hrun, hmoves, rfl⟩
  | ok a =>
    obtain ⟨outcome, c'', hrun', hmoves', hresult⟩ := hf a c' hmoves
    exact ⟨outcome, c'', (run_bind_ok hrun).trans hrun', hmoves.trans hmoves', hresult⟩

theorem agrees_step {a : α} (hp : p.run.run c = some (.ok a, c')) (hmoves : c.Moves tokens c')
    (hf : Agrees tokens c' (f a) result) : Agrees tokens c (p >>= f) result := by
  obtain ⟨outcome, c'', hrun, hmoves', hresult⟩ := hf
  exact ⟨outcome, c'', (run_bind_ok hp).trans hrun, hmoves.trans hmoves', hresult⟩

theorem agrees_give {x : Except Failure α} {g : α → Except Failure (β × List Token)}
    (hf : ∀ a, x = .ok a → Agrees tokens c (f a) (g a)) :
    Agrees tokens c (Descent.give x >>= f) (x >>= g) := by
  cases x with
  | error e => exact ⟨.error e, c, run_bind_error rfl, .refl tokens c, rfl⟩
  | ok a => exact agrees_step rfl (.refl tokens c) (hf a rfl)

end Steps

section Rules

variable {f : Token → Descent β} {result : Except Failure (β × List Token)}

theorem agrees_current (h : tokens.drop c.position = t :: ts) (hf : Agrees tokens c (f t) result) :
    Agrees tokens c (current tokens >>= f) result :=
  agrees_step (run_current h) (.refl tokens c) hf

theorem agrees_current_nil (h : tokens.drop c.position = []) :
    Agrees tokens c (current tokens >>= f) Parser.exhausted :=
  ⟨Parser.exhausted, c, run_bind_error (run_current_nil h), .refl tokens c, rfl⟩

theorem agrees_advance_nil (h : tokens.drop c.position = []) :
    Agrees tokens c (advance tokens >>= f) Parser.exhausted :=
  ⟨Parser.exhausted, c, run_bind_error (run_bind_error (run_current_nil h)), .refl tokens c, rfl⟩

theorem agrees_advance (h : tokens.drop c.position = t :: ts) (ht : t.kind ≠ .finish)
    (hf : tokens.drop c.next.position = ts → Agrees tokens c.next (f t) result) :
    Agrees tokens c (advance tokens >>= f) result := by
  refine agrees_step (run_advance h ht) (.next h ht) (hf ?_)
  rw [Cursor.next, ← List.drop_drop, h, List.drop_one, List.tail_cons]

end Rules

def AgreesAt (tokens : List Token) (d : Int) (p : Descent Expression) (q : Parser) : Prop :=
  ∀ ⦃c : Cursor⦄ ⦃ts : List Token⦄, c.depth = d → tokens.drop c.position = ts →
    Agrees tokens c p (q ts)

variable {d : Int} {q u : Parser}

theorem agrees_chainRest {level : Precedence}
    (ho : AgreesAt tokens d (operand tokens level) q) :
    ∀ (fuel : Nat) (c : Cursor) (left : Expression), c.depth = d →
      (tokens.drop c.position).length < fuel → Agrees tokens c (chainRest tokens level left)
        (Parser.chainRest level.symbols q fuel left (tokens.drop c.position)) := by
  intro fuel
  induction fuel with
  | zero => intro c left _ hf; omega
  | succ fuel ih =>
    intro c left hd hf
    generalize hts : tokens.drop c.position = ts at hf
    rw [chainRest]
    cases ts with
    | nil => exact agrees_current_nil hts
    | cons t ts =>
      refine agrees_current hts ?_
      rw [Parser.chainRest]
      cases hs : t.lexeme.symbol? with
      | none => exact agrees_pure left hts
      | some s =>
        by_cases hm : level.symbols.contains s
        · have ht : t.kind ≠ .finish := by simp [Token.kind_of_symbol? hs]
          simp only [hm, if_true]
          refine agrees_advance hts ht fun hnext => (ho (c := c.next) hd hnext).bind ?_
          intro right c' hmoves
          have hlength : (tokens.drop c'.position).length < fuel := by
            have hmoved := hmoves.position
            have hlength := congrArg List.length hts
            simp only [Cursor.next, List.length_drop, List.length_cons] at *
            omega
          exact ih c' _ (hmoves.depth.trans hd) hlength
        · simp only [hm]
          exact agrees_pure left hts

theorem agreesAt_chain (level : Precedence)
    (ho : AgreesAt tokens d (operand tokens level) q) :
    AgreesAt tokens d (chain tokens level) (Parser.chain level.symbols q) := by
  intro c ts hd hts
  rw [chain]
  refine (ho hd hts).bind fun left c' hmoves => ?_
  exact agrees_chainRest ho _ c' left (hmoves.depth.trans hd) (Nat.lt_succ_self _)

theorem agreesAt_term (hu : AgreesAt tokens d (unary tokens) u) :
    AgreesAt tokens d (chain tokens .product) (Parser.term u) :=
  agreesAt_chain .product (by rw [operand]; exact hu)

theorem agreesAt_expression (hu : AgreesAt tokens d (unary tokens) u) :
    AgreesAt tokens d (chain tokens .sum) (Parser.expression u) :=
  agreesAt_chain .sum (by rw [operand]; exact agreesAt_term hu)

theorem agreesAt_group (hu : AgreesAt tokens d (unary tokens) u) (paren : Token) :
    AgreesAt tokens d (group tokens paren) (Parser.group u paren) := by
  intro c ts hd hts
  rw [group]
  cases ts with
  | nil => exact agrees_current_nil hts
  | cons t ts =>
    refine agrees_current hts ?_
    rw [Parser.group]
    by_cases ht : t.kind = .closeParen
    · simp only [ht, if_true]
      exact agrees_error _
    · simp only [ht, if_false]
      refine (agreesAt_expression hu hd hts).bind fun node c' hmoves => ?_
      generalize hrest : tokens.drop c'.position = rest
      cases rest with
      | nil => exact agrees_current_nil hrest
      | cons v vs =>
        refine agrees_current hrest ?_
        by_cases hv : v.kind = .closeParen
        · simp only [hv, if_true]
          exact agrees_advance hrest (by simp [hv]) fun hnext => agrees_pure node hnext
        · simp only [hv, if_false]
          exact agrees_error _

theorem agreesAt_atom (hu : AgreesAt tokens d (unary tokens) u) :
    AgreesAt tokens d (atom tokens) (Parser.atom u) := by
  intro c ts hd hts
  rw [atom]
  cases ts with
  | nil => exact agrees_advance_nil hts
  | cons t ts =>
    by_cases ht : t.kind = .finish
    · refine agrees_step (run_advance_finish hts ht) (.refl tokens c) ?_
      simp only [Parser.atom, ht]
      exact agrees_error _
    · refine agrees_advance hts ht fun hnext => ?_
      unfold Parser.atom
      dsimp only
      cases hk : t.kind with
      | number =>
        cases ts with
        | nil => exact agrees_current_nil hnext
        | cons v ts =>
          refine agrees_current hnext ?_
          by_cases hv : v.kind = .factorial
          · simp only [hv, if_true]
            exact agrees_advance hnext (by simp [hv]) fun hrest => agrees_pure _ hrest
          · simp only [hv, if_false]
            exact agrees_pure _ hnext
      | constant => exact agrees_give fun x _ => agrees_pure _ hnext
      | function =>
        cases ts with
        | nil => exact agrees_current_nil hnext
        | cons v ts =>
          refine agrees_current hnext ?_
          by_cases hv : v.kind = .openParen
          · simp only [hv, if_true]
            refine agrees_advance hnext (by simp [hv]) fun hrest => ?_
            refine (agreesAt_group hu v (c := c.next.next) hd hrest).bind ?_
            exact fun argument c' _ => agrees_pure _ rfl
          · simp only [hv, if_false]
            exact agrees_error _
      | openParen => exact agreesAt_group hu t (c := c.next) hd hnext
      | operator => exact agrees_error _
      | closeParen => exact agrees_error _
      | factorial => exact agrees_error _
      | finish => exact absurd hk ht

theorem agreesAt_primary (hu : AgreesAt tokens d (unary tokens) u) :
    AgreesAt tokens d (primary tokens) (Parser.primary u) := by
  intro c ts hd hts
  rw [primary, Parser.primary]
  refine (agreesAt_atom hu hd hts).bind fun node c' hmoves => ?_
  generalize hrest : tokens.drop c'.position = rest
  cases rest with
  | nil => exact agrees_current_nil hrest
  | cons v vs =>
    refine agrees_current hrest ?_
    by_cases hv : v.kind = .factorial
    · simp only [hv, if_true]
      exact agrees_error _
    · simp only [hv, if_false]
      exact agrees_pure node hrest

theorem agreesAt_powerTail (hu : AgreesAt tokens d (unary tokens) u) (base : Expression) :
    AgreesAt tokens d (powerTail tokens base) (Parser.powerTail u base) := by
  intro c ts hd hts
  rw [powerTail]
  cases ts with
  | nil => exact agrees_current_nil hts
  | cons t ts =>
    refine agrees_current hts ?_
    rw [Parser.powerTail]
    by_cases hs : t.lexeme.symbol? = some "^"
    · have ht : t.kind ≠ .finish := by simp [Token.kind_of_symbol? hs]
      simp only [hs, if_true]
      refine agrees_advance hts ht fun hnext => (hu (c := c.next) hd hnext).bind ?_
      exact fun exponent c' _ => agrees_pure _ rfl
    · simp only [hs, if_false]
      exact agrees_pure base hts

theorem agreesAt_power (hu : AgreesAt tokens d (unary tokens) u) :
    AgreesAt tokens d (power tokens) (Parser.power u) := by
  intro c ts hd hts
  rw [power, Parser.power]
  exact (agreesAt_primary hu hd hts).bind fun base c' hmoves =>
    agreesAt_powerTail hu base (hmoves.depth.trans hd) rfl

theorem agreesAt_signed {levels : Nat} (hd : d ≤ nestingLimit)
    (hu : AgreesAt tokens d (unary tokens) (Parser.unary levels)) :
    AgreesAt tokens d (signed tokens) (Parser.unary (levels + 1)) := by
  intro c ts hc hts
  rw [signed]
  refine agrees_step (run_get c) (.refl tokens c) ?_
  rw [if_neg (by omega)]
  cases ts with
  | nil => exact agrees_current_nil hts
  | cons t ts =>
    refine agrees_current hts ?_
    rw [Parser.unary]
    by_cases hs : t.lexeme.symbol? = some "-"
    · have hkind := Token.kind_of_symbol? hs
      have ht : t.kind ≠ .finish := by simp [hkind]
      simp only [hs, if_true]
      refine agrees_step (run_facesFactorial hts (by simp [hkind])) (.refl tokens c) ?_
      cases hf : Parser.factorialLiteral? ts with
      | none =>
        refine agrees_advance hts ht fun hnext => (hu (c := c.next) hc hnext).bind ?_
        exact fun node c' _ => agrees_pure _ rfl
      | some literal =>
        obtain ⟨v, rest⟩ := literal
        obtain ⟨number, mark, rfl, hnumber, rfl, hmark⟩ := Parser.factorialLiteral?_eq_some hf
        refine agrees_advance hts ht fun hnumber' => ?_
        refine agrees_advance hnumber' (by simp [hnumber]) fun hmark' => ?_
        refine agrees_advance hmark' (by simp [hmark]) fun hrest => ?_
        exact agrees_give fun x _ => agreesAt_powerTail hu _ (c := c.next.next.next) hc hrest
    · simp only [hs, if_false]
      exact agreesAt_power hu hc hts

theorem agreesAt_unary (levels : Nat) : ∀ d : Int, (nestingLimit - d).toNat = levels →
    AgreesAt tokens d (unary tokens) (Parser.unary levels) := by
  -- The induction is on the unaries that may still be opened.
  induction levels with
  | zero =>
    intro d hlevels c ts hd hts
    have hdeep : nestingLimit < c.enter.depth := by
      simp only [Cursor.enter]
      omega
    refine ⟨_, _, run_unary (run_signed_of_deep hdeep hts), Cursor.Moves.enter_leave tokens c, ?_⟩
    cases ts <;> rfl
  | succ levels ih =>
    intro d hlevels c ts hd hts
    have hinner : AgreesAt tokens (d + 1) (signed tokens) (Parser.unary (levels + 1)) :=
      agreesAt_signed (by omega) (ih (d + 1) (by omega))
    obtain ⟨outcome, c', hrun, hmoves, hresult⟩ :=
      hinner (c := c.enter) (congrArg (· + 1) hd) hts
    exact ⟨outcome, c'.leave, run_unary hrun, hmoves.leave (by omega), hresult⟩

theorem agreesAt_procedure (p : Procedure) (d : Int) :
    AgreesAt tokens d (p.descent tokens) (p.parser (nestingLimit - d).toNat) := by
  have hu : AgreesAt tokens d (unary tokens) (Parser.unary (nestingLimit - d).toNat) :=
    agreesAt_unary _ d rfl
  cases p with
  | expression => exact agreesAt_expression hu
  | term => exact agreesAt_term hu
  | unary => exact hu
  | power => exact agreesAt_power hu
  | primary => exact agreesAt_primary hu
  | group paren => exact agreesAt_group hu paren

theorem run_whole (tokens : List Token) : ∃ c', Cursor.start.Moves tokens c' ∧
    (whole tokens).run.run .start = some (parse tokens, c') := by
  rw [whole]
  cases htokens : tokens with
  | nil => exact ⟨_, .refl _ _, run_bind_error (run_current_nil rfl)⟩
  | cons t ts =>
    rw [run_bind_ok (run_current rfl), parse]
    by_cases ht : t.kind = .finish
    · simp only [ht, if_true]
      exact ⟨_, .refl _ _, rfl⟩
    · simp only [ht, if_false]
      have hexpression : Agrees (t :: ts) .start (chain (t :: ts) .sum)
          (Parser.expression (Parser.unary nestingLimit) (t :: ts)) :=
        agreesAt_expression (agreesAt_unary nestingLimit 0 rfl) rfl rfl
      obtain ⟨outcome, c', hrun, hmoves, hresult⟩ := hexpression
      refine ⟨c', hmoves, ?_⟩
      rw [hresult]
      cases outcome with
      | error e => exact run_bind_error hrun
      | ok node =>
        rw [run_bind_ok hrun]
        simp only [Except.map, ok_bind]
        generalize hrest : (t :: ts).drop c'.position = rest
        cases rest with
        | nil => exact run_bind_error (run_current_nil hrest)
        | cons u us =>
          rw [run_bind_ok (run_current hrest)]
          dsimp only
          cases u.kind <;> rfl

end Tape

def Progresses (ts : List Token) (result : Except Failure (Expression × List Token)) : Prop :=
  (∃ n rest, result = .ok (n, rest) ∧ rest.length < ts.length) ∨
    ∃ position reason, result = Parser.malformed position reason

section Progress

variable {r : Rule} {k : Nat} {ts : List Token} {result : Except Failure (Expression × List Token)}

theorem Reads.progresses (h : Reads r k ts result) : Progresses ts result := by
  cases h with
  | @accepted us n rest hd _ =>
    have hpos := List.length_pos_iff.mpr hd.ne_nil
    exact .inl ⟨n, rest, rfl, by rw [List.length_append]; omega⟩
  | refused h => exact .inr ⟨_, _, rfl⟩

theorem progresses_group (hl : Legible ts) (paren : Token) :
    Progresses ts (Parser.group (Parser.unary k) paren ts) := by
  have hr : Parser.ReadsGroup k ⟨.openParen, paren.position⟩ ts
      (Parser.group (Parser.unary k) ⟨.openParen, paren.position⟩ ts) :=
    Parser.reads_group (Parser.follows_unary k) rfl hl
  have heq : Parser.group (Parser.unary k) paren ts =
      Parser.group (Parser.unary k) ⟨.openParen, paren.position⟩ ts := by
    cases ts <;> rfl
  rw [heq]
  generalize Parser.group _ _ ts = result at hr
  cases hr with
  | @accepted us closing rest n =>
    exact .inl ⟨n, rest, rfl, by simp only [List.length_append, List.length_cons]; omega⟩
  | refused h => exact .inr ⟨_, _, rfl⟩

theorem progresses_procedure (hl : Legible ts) (p : Procedure) : Progresses ts (p.parser k ts) := by
  have hu := Parser.follows_unary k
  cases p with
  | expression => exact (Parser.follows_expression hu ts hl).progresses
  | term => exact (Parser.follows_term hu ts hl).progresses
  | unary => exact (hu ts hl).progresses
  | power => exact (Parser.follows_power hu ts hl).progresses
  | primary => exact (Parser.follows_primary hu ts hl).progresses
  | group paren => exact progresses_group hl paren

end Progress

theorem legible_drop {tokens : List Token} {i : Nat} (hl : Legible tokens)
    (hi : i ≤ firstFinish tokens) : Legible (tokens.drop i) where
  isLegible t ht := hl.isLegible t (List.mem_of_mem_drop ht)
  finish := by
    obtain ⟨t, ht, hk⟩ := hl.finish
    have hlt : firstFinish tokens < tokens.length :=
      List.findIdx_lt_length_of_exists ⟨t, ht, decide_eq_true hk⟩
    refine ⟨tokens[firstFinish tokens], ?_, of_decide_eq_true (List.findIdx_getElem (w := hlt))⟩
    refine List.mem_of_getElem? (i := firstFinish tokens - i) ?_
    rw [List.getElem?_drop, Nat.add_sub_cancel' hi, List.getElem?_eq_getElem hlt]

section Discipline

variable {tokens : List Token} {c : Cursor}

/-- Whatever procedure is entered before the end of legible tokens, with no more unaries open than
may be, it comes to an end, and it ends as the parser beside it does: it reads one token or more,
or it refuses the tokens as malformed. Either way the cursor has gone neither back nor past the
first end, as many unaries are open as before, and never was more than one too many. -/
theorem descent_disciplined (hl : Legible tokens) (p : Procedure)
    (hposition : c.position ≤ firstFinish tokens) (hdepth : c.depth ≤ 100) :
    ∃ outcome c', p.perform tokens c = some (outcome, c') ∧
      c.position ≤ c'.position ∧ c'.position ≤ firstFinish tokens ∧
      c'.depth = c.depth ∧ c'.deepest ≤ max c.deepest 101 ∧
      p.parser (100 - c.depth).toNat (tokens.drop c.position) =
        outcome.map (fun n => (n, tokens.drop c'.position)) ∧
      ((∃ n, outcome = .ok n ∧ c.position < c'.position) ∨
        ∃ position reason, outcome = .error (.fault (.malformed position reason))) := by
  have hagrees : Tape.Agrees tokens c (p.descent tokens)
      (p.parser (nestingLimit - c.depth).toNat (tokens.drop c.position)) :=
    Tape.agreesAt_procedure p c.depth rfl rfl
  obtain ⟨outcome, c', hrun, hmoves, hresult⟩ := hagrees
  refine ⟨outcome, c', hrun, hmoves.position, hmoves.within hposition, hmoves.depth,
    hmoves.deepest hdepth, hresult, ?_⟩
  have hprogress := progresses_procedure (k := (nestingLimit - c.depth).toNat)
    (legible_drop hl hposition) p
  rw [hresult] at hprogress
  rcases hprogress with ⟨n, rest, hok, hlength⟩ | ⟨position, reason, hmalformed⟩
  · cases outcome with
    | error e => cases hok
    | ok m =>
      obtain ⟨rfl, rfl⟩ := Prod.mk.inj (Except.ok.inj hok)
      simp only [List.length_drop] at hlength
      exact .inl ⟨m, rfl, by omega⟩
  · cases outcome with
    | error e =>
      cases hmalformed
      exact .inr ⟨position, reason, rfl⟩
    | ok m => cases hmalformed

theorem descent_disciplined_signed_factorial :
    let tokens : List Token :=
      [⟨.operator "-", 0⟩, ⟨.number .pi, 1⟩, ⟨.factorial, 2⟩, ⟨.finish, 3⟩]
    let c : Cursor := ⟨0, 99, 99⟩
    Legible tokens ∧ c.position ≤ firstFinish tokens ∧ c.depth ≤ 100 ∧
      ∃ c', Procedure.unary.perform tokens c =
          some (.ok (.factorial (.literal (.real (-.pi)))), c') ∧
        c'.position = 3 ∧ c'.depth = 99 ∧ c'.deepest ≤ 101 := by
  intro tokens c
  have hl : Legible tokens := ⟨by decide, ⟨.finish, 3⟩, by simp [tokens], rfl⟩
  refine ⟨hl, by decide, by decide, ?_⟩
  obtain ⟨outcome, c', hrun, -, -, hdepth, hdeepest, hresult, -⟩ :=
    descent_disciplined hl .unary (c := c) (by decide) (by decide)
  have hread : Procedure.unary.parser (100 - c.depth).toNat (tokens.drop c.position) =
      .ok (.factorial (.literal (.real (-.pi))), [⟨.finish, 3⟩]) := rfl
  rw [hread] at hresult
  cases outcome with
  | error e => cases hresult
  | ok n =>
    obtain ⟨rfl, hrest⟩ := Prod.mk.inj (Except.ok.inj hresult)
    have hlength := congrArg List.length hrest
    simp only [List.length_drop, tokens, List.length_cons, List.length_nil] at hlength
    exact ⟨c', hrun, by omega, hdepth, hdeepest⟩

end Discipline

end DeskCalculator
