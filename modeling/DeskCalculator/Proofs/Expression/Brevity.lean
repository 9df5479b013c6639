import DeskCalculator.Proofs.Expression.Rendering

namespace DeskCalculator

namespace Rendering

variable {x y : Rendering} {r q : Rule}

def size (x : Rendering) : Nat :=
  x.lexemes.length

@[simp] theorem size_grouped : x.grouped.size = x.size + 2 := by
  simp [size, grouped]

theorem within_of_le (h : r.tightness ≤ x.rule.tightness) : x.within r = x :=
  if_neg (Nat.not_lt.mpr h)

@[simp] theorem within_expression : x.within .expression = x :=
  within_of_le (Nat.zero_le _)

theorem size_within_le (x : Rendering) (r : Rule) : (x.within r).size ≤ x.size + 2 := by
  unfold within
  split
  · exact Nat.le_of_eq size_grouped
  · exact Nat.le_add_right _ 2

theorem size_within_mono (x : Rendering) (h : r.tightness ≤ q.tightness) :
    (x.within r).size ≤ (x.within q).size := by
  by_cases hq : x.rule.tightness < q.tightness
  · rw [within, within, if_pos hq, size_grouped]
    exact x.size_within_le r
  · rw [within_of_le (Nat.le_trans h (Nat.le_of_not_lt hq)), within_of_le (Nat.le_of_not_lt hq)]

theorem size_operand_le (x : Rendering) : x.operand.size ≤ x.size + 2 := by
  unfold operand
  split
  · exact Nat.le_of_eq size_grouped
  · exact x.size_within_le .unary

theorem operator_starts (xs ls : List Lexeme) (s : String) :
    startsWithFactorial (xs ++ .operator s :: ls) = startsWithFactorial xs := by
  match xs with
  | [] => cases ls <;> simp [startsWithFactorial, Lexeme.operator]
  | [l] => simp [startsWithFactorial, Lexeme.operator]
  | l :: m :: xs => rfl

theorem operand_of_not_starts (h : 2 ≤ x.rule.tightness)
    (hstart : startsWithFactorial x.lexemes = false) : x.operand = x := by
  rw [operand, if_neg (Bool.eq_false_iff.mp hstart)]
  exact within_of_le h

theorem operand_of_starts (hstart : startsWithFactorial x.lexemes = true) :
    x.operand = x.grouped :=
  if_pos hstart

theorem within_of_starts (h : startsWithFactorial (x.within r).lexemes = true) :
    x.within r = x := by
  unfold within at h ⊢
  split at h
  · cases (openParen_starts _).symm.trans h
  · rename_i hr
    exact if_neg hr

theorem within_joined (x y : Rendering) (rule left right : Rule) (s : String) :
    (x.joined rule left right s y).within rule = x.joined rule left right s y :=
  within_of_le (Nat.le_refl rule.tightness)

theorem size_joined (x y : Rendering) (rule left right : Rule) (s : String) :
    (x.joined rule left right s y).size = (x.within left).size + (y.within right).size + 1 :=
  List.length_append

theorem size_operand_power {m : Nat} (hbase : (x.within .primary).size ≤ m)
    (hoperand : x.operand.size ≤ m) (y : Rendering) (s : String) :
    (x.joined .power .primary .unary s y).operand.size ≤ m + (y.within .unary).size + 1 := by
  have hsize := x.size_joined y .power .primary .unary s
  have hrule : (x.joined .power .primary .unary s y).rule = .power := rfl
  generalize hz : x.joined .power .primary .unary s y = z at hsize hrule ⊢
  -- A power that starts with a factorial has a base that does, whose parentheses allow for its own.
  cases hstart : startsWithFactorial z.lexemes with
  | false =>
    rw [operand_of_not_starts (by rw [hrule]; decide) hstart]
    omega
  | true =>
    rw [← hz] at hstart
    have hbegin := (operator_starts _ _ _).symm.trans hstart
    have hwhole := within_of_starts hbegin
    rw [hwhole] at hbegin hsize
    rw [operand_of_starts hbegin, size_grouped] at hoperand
    rw [operand_of_starts (hz ▸ hstart), size_grouped]
    omega

theorem within_power_signedPower (z : Binary64) (y : Rendering) :
    (signedPower z y).within .power = (signedPower z y).grouped :=
  rfl

theorem operand_signedPower (z : Binary64) (y : Rendering) :
    (signedPower z y).operand = signedPower z y :=
  operand_of_not_starts (Nat.le_refl 2) (operator_starts [] _ _)

theorem size_signedPower (z : Binary64) (y : Rendering) :
    (signedPower z y).size = (y.within .unary).size + 4 :=
  rfl

end Rendering

namespace Expression

open Rendering

variable {s : String} {a b : Expression}

theorem rendering_binary (s : String) (a b : Expression) : (binary s a b).rendering =
    Rendering.binary s a.signedFactorial? a.rendering b.rendering :=
  rfl

theorem rendering_sum (hs : s ∈ ["+", "-"]) : (binary s a b).rendering =
    a.rendering.joined .expression .expression .term s b.rendering := by
  simp only [List.mem_cons, List.not_mem_nil, or_false] at hs
  rcases hs with rfl | rfl <;> simp [rendering, Rendering.binary]

theorem rendering_product (hs : s ∈ ["*", "/"]) : (binary s a b).rendering =
    a.rendering.joined .term .term .unary s b.rendering := by
  simp only [List.mem_cons, List.not_mem_nil, or_false] at hs
  rcases hs with rfl | rfl <;> simp [rendering, Rendering.binary]

theorem signedFactorial?_eq {z : Binary64} (hz : z.hasMinus = true) :
    (factorial (.literal (.real z))).signedFactorial? = some z := by
  simp [signedFactorial?, Value.real, hz]

theorem rendering_signedPower {z : Binary64} (hz : z.hasMinus = true) :
    (binary "^" (.factorial (.literal (.real z))) b).rendering =
      Rendering.signedPower z b.rendering := by
  rw [rendering_binary, signedFactorial?_eq hz]
  rfl

theorem rendering_power (h : a.signedFactorial? = none) : (binary "^" a b).rendering =
    a.rendering.joined .power .primary .unary "^" b.rendering := by
  rw [rendering_binary, h]
  rfl

theorem rendering_signedFactorial {z : Binary64} (hz : z.hasMinus = true) :
    (factorial (.literal (.real z))).rendering =
      ⟨.unary, 1, [.operator "-", .number (-z), .factorial]⟩ :=
  if_pos hz

theorem size_power (a b : Expression) : ((binary "^" a b).rendering.within .power).size =
    (a.rendering.within .primary).size + (b.rendering.within .unary).size + 1 := by
  cases h : a.signedFactorial? with
  | none =>
    rw [rendering_power h, within_joined, size_joined]
  | some z =>
    obtain ⟨rfl, hz⟩ := eq_of_signedFactorial? h
    have hbase : ((factorial (.literal (.real z))).rendering.within .primary).size = 5 := by
      rw [rendering_signedFactorial hz]
      rfl
    rw [rendering_signedPower hz, within_power_signedPower, size_grouped, hbase, size_signedPower]
    omega

end Expression

structure Brief (r : Rule) (us : List Token) (n : Expression) : Prop where
  within : (n.rendering.within r).size ≤ us.length
  operand : 2 ≤ r.tightness → ¬StartsWithFactorial us → n.rendering.operand.size ≤ us.length

namespace Brief

variable {r q : Rule} {us vs : List Token} {a b n : Expression} {t op : Token} {s : String}

theorem loosen (h : Brief q us n) (hr : r.tightness ≤ q.tightness)
    (hq : 2 ≤ r.tightness → 2 ≤ q.tightness) : Brief r us n where
  within := Nat.le_trans (n.rendering.size_within_mono hr) h.within
  operand hunary hstart := h.operand (hq hunary) hstart

theorem sum (ha : Brief .expression us a) (hs : s ∈ ["+", "-"]) (hb : Brief .term vs b) :
    Brief .expression (us ++ op :: vs) (.binary s a b) where
  within := by
    have hleft := ha.within
    have hright := hb.within
    rw [Expression.rendering_sum hs, Rendering.within_joined, Rendering.size_joined,
      List.length_append, List.length_cons]
    omega
  operand h := by simp [Rule.tightness] at h

theorem product (ha : Brief .term us a) (hs : s ∈ ["*", "/"]) (hb : Brief .unary vs b) :
    Brief .term (us ++ op :: vs) (.binary s a b) where
  within := by
    have hleft := ha.within
    have hright := hb.within
    rw [Expression.rendering_product hs, Rendering.within_joined, Rendering.size_joined,
      List.length_append, List.length_cons]
    omega
  operand h := by simp [Rule.tightness] at h

theorem of_rule (hr : n.rendering.rule = r) (hunary : 2 ≤ r.tightness)
    (hsize : n.rendering.size ≤ us.length)
    (hstart : Rendering.startsWithFactorial n.rendering.lexemes = false) : Brief r us n where
  within := by rwa [Rendering.within_of_le (hr ▸ Nat.le_refl _)]
  operand _ _ := by rwa [Rendering.operand_of_not_starts (hr ▸ hunary) hstart]

theorem negation {minus : Token} (h : Brief .unary us n) (hstart : ¬StartsWithFactorial us) :
    Brief .unary (minus :: us) (.unary "-" n) :=
  of_rule rfl (Nat.le_refl 2) (Nat.succ_le_succ (h.operand (Nat.le_refl 2) hstart))
    (Rendering.operator_starts [] _ _)

theorem signedFactorial {z : Binary64} (hz : z.hasMinus = true) (minus mark : Token) :
    Brief .unary [minus, t, mark] (.factorial (.literal (.real z))) := by
  have hr := Expression.rendering_signedFactorial hz
  refine of_rule (by rw [hr]) (Nat.le_refl 2) ?_ ?_
  · rw [hr]
    exact Nat.le_refl 3
  · rw [hr]
    exact Rendering.operator_starts [] _ _

theorem signedPower {z : Binary64} (hz : z.hasMinus = true) (minus mark : Token)
    (hb : Brief .unary vs b) :
    Brief .unary (minus :: t :: mark :: op :: vs)
      (.binary "^" (.factorial (.literal (.real z))) b) := by
  have hr := Expression.rendering_signedPower (b := b) hz
  refine of_rule (by rw [hr]; rfl) (Nat.le_refl 2) ?_ ?_
  · rw [hr, Rendering.size_signedPower]
    exact Nat.add_le_add_right hb.within 4
  · rw [hr]
    exact Rendering.operator_starts [] _ _

theorem raised (ha : Brief .primary us a) (hb : Brief .unary vs b) :
    Brief .power (us ++ op :: vs) (.binary "^" a b) := by
  have hleft := ha.within
  have hright := hb.within
  have hlength : (us ++ op :: vs).length = us.length + (vs.length + 1) := List.length_append
  have hsize := Expression.size_power a b
  constructor
  · omega
  · intro _ hstart
    cases h : a.signedFactorial? with
    | some z =>
      obtain ⟨rfl, hz⟩ := Expression.eq_of_signedFactorial? h
      rw [Expression.rendering_signedPower hz, Rendering.within_power_signedPower,
        Rendering.size_grouped] at hsize
      rw [Expression.rendering_signedPower hz, Rendering.operand_signedPower]
      omega
    | none =>
      have hbehind := ha.operand (by decide) fun hus => hstart (hus.append _)
      have hoperand := Rendering.size_operand_power hleft hbehind b.rendering "^"
      rw [Expression.rendering_power h]
      omega

theorem unsignedFactorial {z : Binary64} (hz : z.hasMinus = false) {mark : Token}
    (ht : t.kind = .number) (hmark : mark.kind = .factorial) :
    Brief .primary [t, mark] (.factorial (.literal (.real z))) where
  within := by
    have hr : (Expression.factorial (.literal (.real z))).rendering =
        ⟨.primary, 0, [.number z, .factorial]⟩ := if_neg (Bool.eq_false_iff.mp hz)
    rw [hr]
    exact Nat.le_refl 2
  operand _ hstart := absurd ⟨t, mark, [], rfl, ht, hmark⟩ hstart

theorem group {opening closing : Token} (h : Brief .expression us n) :
    Brief .primary (opening :: us ++ [closing]) n := by
  have hsize := h.within
  rw [Rendering.within_expression] at hsize
  have hlength : (opening :: us ++ [closing]).length = us.length + 2 := by simp
  constructor
  · have hwithin := n.rendering.size_within_le .primary
    omega
  · intro _ _
    have hoperand := n.rendering.size_operand_le
    omega

theorem call {f opening closing : Token} (h : Brief .expression us n) (v : Value) :
    Brief .primary (f :: opening :: us ++ [closing]) (.call v n) := by
  have hsize := h.within
  rw [Rendering.within_expression] at hsize
  refine of_rule rfl (by decide) ?_ rfl
  simp only [Rendering.size, List.length_append, List.length_cons, List.length_nil] at hsize ⊢
  simp [Expression.rendering, Rendering.called]
  omega

theorem number (v : Value) : Brief .primary [t] (.literal v) :=
  of_rule rfl (by decide) (Nat.le_refl 1) rfl

end Brief

theorem brief_of_derives {r : Rule} {k : Nat} {us : List Token} {n : Expression}
    (h : Derives r k us n) (hus : ∀ t ∈ us, t.lexeme.Spelled) : Brief r us n := by
  induction h with
  | term _ ih => exact (ih hus).loosen (by decide) (by decide)
  | unary _ ih => exact (ih hus).loosen (by decide) (by decide)
  | power _ ih => exact (ih hus).loosen (by decide) (by decide)
  | primary _ ih => exact (ih hus).loosen (by decide) (by decide)
  | sum _ _ hs _ iha ihb =>
    exact (iha fun t ht => hus t (by simp [ht])).sum hs (ihb fun t ht => hus t (by simp [ht]))
  | product _ _ hs _ iha ihb =>
    exact (iha fun t ht => hus t (by simp [ht])).product hs (ihb fun t ht => hus t (by simp [ht]))
  | @negatedFactorial k minus t mark x _ ht hx _ =>
    obtain ⟨y, hy, hfinite, hminus⟩ := (hus t (by simp)).value_of_number ht
    cases hx.symm.trans hy
    exact .signedFactorial (by rw [Binary64.hasMinus_neg hfinite, hminus]; rfl) minus mark
  | @negatedFactorialPower k minus t mark x op vs b _ ht hx _ _ _ ih =>
    obtain ⟨y, hy, hfinite, hminus⟩ := (hus t (by simp)).value_of_number ht
    cases hx.symm.trans hy
    exact .signedPower (by rw [Binary64.hasMinus_neg hfinite, hminus]; rfl) minus mark
      (ih fun t ht => hus t (by simp [ht]))
  | negation _ hstart _ ih => exact (ih fun t ht => hus t (by simp [ht])).negation hstart
  | raised _ _ _ iha ihb =>
    exact (iha fun t ht => hus t (by simp [ht])).raised (ihb fun t ht => hus t (by simp [ht]))
  | number _ => exact .number _
  | @factorial k t mark hk hmark =>
    obtain ⟨x, hx, -, hminus⟩ := (hus t (by simp)).value_of_number hk
    exact hx ▸ .unsignedFactorial hminus hk hmark
  | constant _ _ _ => exact .number _
  | call _ _ _ _ ih => exact (ih fun t ht => hus t (by simp [ht])).call _
  | group _ _ _ ih => exact (ih fun t ht => hus t (by simp [ht])).group

namespace Expression

theorem size_le_of_parse {n : Expression} {tokens : List Token} {finish : Token}
    (hts : ∀ t ∈ tokens, t.lexeme.Spelled) (hf : finish.kind = .finish)
    (h : parse (tokens ++ [finish]) = .ok n) : n.rendering.size ≤ tokens.length := by
  have hcases := parse_cases
    (fun t ht => ⟨(hts t ht).known.isLegible, (hts t ht).known.kind_ne_finish⟩) hf
  rcases hcases with ⟨m, hd, heq⟩ | ⟨_, _, heq⟩
  · obtain rfl := Except.ok.inj (heq.symm.trans h)
    simpa using (brief_of_derives hd hts).within
  · cases heq.symm.trans h

/-- Every tree that a text is parsed to can be written down. Every tree that can be written down is
what its rendering is parsed to, unless unaries are nested too deeply in it; and no lexemes of
texts that are parsed to the tree are fewer than those of the rendering. -/
theorem rendering_exact :
    (∀ text n, parseText text = .ok n → n.Writable) ∧
      (∀ n : Expression, n.Writable → ∀ (tokens : List Token) (finish : Token),
        tokens.map Token.lexeme = n.rendering.lexemes → finish.kind = .finish →
          (n.nesting ≤ 100 → parse (tokens ++ [finish]) = .ok n) ∧
            (100 < n.nesting → ∃ position, parse (tokens ++ [finish]) =
              .error (.fault (.malformed position .nestedTooDeeply)))) ∧
      (∀ n : Expression, n.Writable → ∀ l ∈ n.rendering.lexemes, l.Spelled) ∧
      ∀ (n : Expression) (tokens : List Token) (finish : Token),
        (∀ t ∈ tokens, t.lexeme.Spelled) → finish.kind = .finish →
          parse (tokens ++ [finish]) = .ok n →
            n.rendering.lexemes.length ≤ tokens.length := by
  refine ⟨?_, ?_, ?_, ?_⟩
  · intro text n h
    exact writable_of_parseText h
  · intro n h tokens finish hts hf
    exact parse_rendering h hts hf
  · intro n h
    exact spelled_rendering h
  · intro n tokens finish hts hf h
    exact size_le_of_parse hts hf h

theorem rendering_exact_negated_power :
    parse [⟨.operator "-", 0⟩, ⟨.openParen, 1⟩, ⟨.number .pi, 2⟩, ⟨.factorial, 3⟩,
        ⟨.operator "^", 4⟩, ⟨.number .e, 5⟩, ⟨.closeParen, 6⟩, ⟨.finish, 7⟩] =
      .ok (.unary "-" (.binary "^" (.factorial (.literal (.real .pi)))
        (.literal (.real .e)))) := by
  have hwritable : (unary "-" (.binary "^" (.factorial (.literal (.real .pi)))
      (.literal (.real .e)))).Writable :=
    .negation (.binary (by simp) (.factorial rfl) (.literal rfl rfl))
  exact (rendering_exact.2.1 _ hwritable
    [⟨.operator "-", 0⟩, ⟨.openParen, 1⟩, ⟨.number .pi, 2⟩, ⟨.factorial, 3⟩, ⟨.operator "^", 4⟩,
      ⟨.number .e, 5⟩, ⟨.closeParen, 6⟩] ⟨.finish, 7⟩ rfl rfl).1 (by decide)

end Expression

end DeskCalculator
