import DeskCalculator.Proofs.Expression.Boundary

namespace DeskCalculator

namespace Binary64

def hasMinus : Binary64 → Bool
  | .nan => false
  | .infinite negative => negative
  | .finite negative _ => negative

variable {x : Binary64}

theorem hasMinus_neg (h : x.isFinite = true) : (-x).hasMinus = !x.hasMinus := by
  cases x with
  | finite s m => rfl
  | _ => cases h

theorem hasMinus_ofUnits (negative : Bool) (n d : Nat) :
    (ofUnits negative n d).hasMinus = negative := by
  unfold ofUnits
  split <;> rfl

theorem hasMinus_ofPlain {cs : List Char} (h : cs.head? ≠ some '-') :
    (ofPlain cs).hasMinus = false := by
  unfold ofPlain
  split
  · exact absurd rfl h
  · exact hasMinus_ofUnits _ _ _

end Binary64

theorem hasMinus_constant? {name : String} {x : Binary64} (h : constant? name = some x) :
    x.hasMinus = false := by
  obtain ⟨p, hp, rfl⟩ := Option.map_eq_some_iff.mp h
  have hmem := List.mem_of_find?_eq_some hp
  simp only [constantTable, List.mem_cons, List.not_mem_nil, or_false] at hmem
  rcases hmem with rfl | rfl | rfl <;> rfl

theorem mem_functionNames {name : String} (h : (Function.ofName? name).isSome) :
    name ∈ functionNames := by
  obtain ⟨f, hf⟩ := Option.isSome_iff_exists.mp h
  have hname := List.find?_some hf
  rw [← Function.map_name_all, ← of_decide_eq_true hname]
  exact List.mem_map_of_mem (List.mem_of_find?_eq_some hf)

namespace Lexeme

structure Spelled (lexeme : Lexeme) : Prop where
  known : lexeme.Known
  unsigned : ∀ x, lexeme = .number x → x.hasMinus = false

theorem Spelled.value_of_number {t : Token} (h : t.lexeme.Spelled) (hk : t.kind = .number) :
    ∃ x, t.value = .real x ∧ x.isFinite = true ∧ x.hasMinus = false := by
  obtain ⟨x, hx, hfinite⟩ := h.known.value_of_number hk
  obtain ⟨⟨kind, value⟩, position⟩ := t
  obtain rfl : kind = .number := hk
  obtain rfl : value = .real x := hx
  exact ⟨x, rfl, hfinite, h.unsigned x rfl⟩

end Lexeme

section Scan

variable {position extra : Nat} {x : Binary64}

theorem hasMinus_of_numeralLexeme {run : List Char} (hhead : run.head? ≠ some '-')
    (h : numeralLexeme position run = .ok (.number x)) : x.hasMinus = false := by
  unfold numeralLexeme at h
  split at h
  · cases h
  · split at h
    · cases h
    · dsimp only at h
      split at h
      · cases h
        exact Binary64.hasMinus_ofPlain hhead
      · cases h

theorem hasMinus_of_lexemeAt {c : Char} {cs : List Char}
    (h : lexemeAt position c cs = .ok (some (.number x), extra)) : x.hasMinus = false := by
  unfold lexemeAt at h
  split at h
  · cases h
  split at h
  · rename_i hc
    dsimp only at h
    generalize hn : numeralLexeme position (c :: cs.takeWhile isNumeralChar) = result at h
    cases result with
    | error f => cases h
    | ok lexeme =>
      cases h
      refine hasMinus_of_numeralLexeme ?_ hn
      intro hminus
      cases hminus
      revert hc
      decide
  split at h
  · cases h
  split at h
  · cases h
  split at h
  · cases h
  split at h
  · cases h
  split at h
  · cases h
  split at h
  · rename_i name lexeme hfind
    cases h
    have hmem := List.mem_of_find?_eq_some hfind
    simp [spelledLexemes, functionNames, Lexeme.number, Lexeme.function, Lexeme.constant] at hmem
  · cases h

theorem hasMinus_of_scanFrom {cs : List Char} {tokens : List Token}
    (h : scanFrom position cs = .ok tokens) :
    ∀ t ∈ tokens, ∀ x, t.lexeme = .number x → x.hasMinus = false := by
  fun_induction scanFrom position cs generalizing tokens with
  | case1 position =>
    cases h
    rintro t ht x hx
    obtain rfl := List.mem_singleton.mp ht
    cases hx
  | case2 position c cs ih =>
    obtain ⟨⟨lexeme?, extra⟩, hlexeme, h⟩ := bind_eq_ok h
    obtain ⟨rest, hrest, h⟩ := bind_eq_ok h
    cases lexeme? with
    | none =>
      cases h
      exact ih extra hrest
    | some lexeme =>
      cases h
      rintro t ht x hx
      rcases List.mem_cons.mp ht with rfl | ht
      · obtain rfl : lexeme = .number x := hx
        exact hasMinus_of_lexemeAt hlexeme
      · exact ih extra hrest t ht x hx

theorem spelled_of_scan {text : String} {tokens : List Token} (h : scan text = .ok tokens) :
    ∃ front position, tokens = front ++ [⟨.finish, position⟩] ∧ ∀ t ∈ front, t.lexeme.Spelled := by
  have hscan : Scans Scanned (scan text) := scanFrom_scanned 0 text.toList
  rw [h] at hscan
  obtain ⟨front, position, rfl, hfront⟩ := hscan
  have hfrom : scanFrom 0 text.toList = .ok (front ++ [⟨.finish, position⟩]) := h
  have hunsigned := hasMinus_of_scanFrom hfrom
  exact ⟨front, position, rfl, fun t ht => ⟨hfront t ht, hunsigned t (by simp [ht])⟩⟩

end Scan

namespace Expression

/-- A tree that can be written down: its numbers are finite and have no minus sign, unless they
carry a factorial mark; its symbols and names are those of the grammar. -/
inductive Writable : Expression → Prop where
  | literal {x : Binary64} : x.isFinite = true → x.hasMinus = false →
      Writable (.literal (.real x))
  | factorial {x : Binary64} : x.isFinite = true → Writable (.factorial (.literal (.real x)))
  | negation {a} : Writable a → Writable (.unary "-" a)
  | binary {s a b} : s ∈ ["+", "-", "*", "/", "^"] → Writable a → Writable b →
      Writable (.binary s a b)
  | call {f a} : f ∈ functionNames → Writable a → Writable (.call (.text f) a)

theorem writable_of_derives {r : Rule} {k : Nat} {ts : List Token} {n : Expression}
    (h : Derives r k ts n) (hts : ∀ t ∈ ts, t.lexeme.Spelled) : n.Writable := by
  induction h with
  | term _ ih | unary _ ih | power _ ih | primary _ ih => exact ih hts
  | sum _ _ hm _ iha ihb | product _ _ hm _ iha ihb =>
    refine .binary ?_ (iha fun t ht => hts t (by simp [ht])) (ihb fun t ht => hts t (by simp [ht]))
    simp only [List.mem_cons, List.not_mem_nil, or_false] at hm
    rcases hm with rfl | rfl <;> simp
  | @negatedFactorial k minus t mark x _ ht hx _ =>
    obtain ⟨y, hy, hfinite, -⟩ := (hts t (by simp)).value_of_number ht
    cases hx.symm.trans hy
    exact .factorial (by simpa using hfinite)
  | @negatedFactorialPower k minus t mark x op us b _ ht hx _ _ _ ih =>
    obtain ⟨y, hy, hfinite, -⟩ := (hts t (by simp)).value_of_number ht
    cases hx.symm.trans hy
    exact .binary (by simp) (.factorial (by simpa using hfinite))
      (ih fun t ht => hts t (by simp [ht]))
  | negation _ _ _ ih => exact .negation (ih fun t ht => hts t (by simp [ht]))
  | raised _ _ _ iha ihb =>
    exact .binary (by simp) (iha fun t ht => hts t (by simp [ht]))
      (ihb fun t ht => hts t (by simp [ht]))
  | @number k t hk =>
    obtain ⟨x, hx, hfinite, hminus⟩ := (hts t (by simp)).value_of_number hk
    exact hx ▸ .literal hfinite hminus
  | @factorial k t mark hk _ =>
    obtain ⟨x, hx, hfinite, -⟩ := (hts t (by simp)).value_of_number hk
    exact hx ▸ .factorial hfinite
  | constant _ _ hx => exact .literal (isFinite_constant? hx) (hasMinus_constant? hx)
  | @call k f opening ts closing n hf _ _ _ ih =>
    obtain ⟨name, hname, hknown⟩ := (hts f (by simp)).known.value_of_function hf
    exact hname ▸ .call (mem_functionNames hknown) (ih fun t ht => hts t (by simp [ht]))
  | group _ _ _ ih => exact ih fun t ht => hts t (by simp [ht])

theorem writable_of_parseText {text : String} {n : Expression} (h : parseText text = .ok n) :
    n.Writable := by
  unfold parseText at h
  split at h
  · rename_i tokens hscan
    obtain ⟨front, position, rfl, hfront⟩ := spelled_of_scan hscan
    have hcases := @parse_cases front ⟨.finish, position⟩
      (fun t ht => ⟨(hfront t ht).known.isLegible, (hfront t ht).known.kind_ne_finish⟩) rfl
    rcases hcases with ⟨m, hd, heq⟩ | ⟨_, _, heq⟩
    · obtain rfl := Except.ok.inj (heq.symm.trans h)
      exact writable_of_derives hd hfront
    · cases heq.symm.trans h
  · cases h

end Expression

end DeskCalculator
