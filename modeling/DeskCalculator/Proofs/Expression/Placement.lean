import DeskCalculator.Expression.Evaluation
import DeskCalculator.Proofs.Outcome
import Mathlib.Data.List.Find
import Mathlib.Data.List.Forall2
import Mathlib.Data.List.TakeWhile

namespace DeskCalculator

namespace Text

def AllBlank (cs : List Char) : Prop :=
  ∀ c ∈ cs, isBlank c = true

theorem exists_trim (cs : List Char) :
    ∃ front back, cs = front ++ trim cs ++ back ∧ AllBlank front ∧ AllBlank back := by
  refine ⟨cs.takeWhile isBlank,
    ((cs.dropWhile isBlank).reverse.takeWhile isBlank).reverse, ?_, ?_, ?_⟩
  · rw [trim, trimEnds, List.append_assoc, ← List.reverse_append,
      List.takeWhile_append_dropWhile, List.reverse_reverse, List.takeWhile_append_dropWhile]
  · exact fun c hc => List.mem_takeWhile_imp hc
  · exact fun c hc => List.mem_takeWhile_imp (List.mem_reverse.mp hc)

end Text

inductive Fault.Alike : Fault → Fault → Prop where
  | unexpectedChar (p q : Nat) (c : Char) : Alike (.unexpectedChar p c) (.unexpectedChar q c)
  | malformed (p q : Int) (reason : ParseReason) : Alike (.malformed p reason) (.malformed q reason)
  | numeral (p q length : Nat) :
      Alike (.overflow (.numeral p length)) (.overflow (.numeral q length))
  | same (f : Fault) : Alike f f

theorem Fault.Alike.kind_eq {f g : Fault} (h : f.Alike g) : f.kind = g.kind := by
  cases h <;> rfl

inductive Failure.Alike : Failure → Failure → Prop where
  | fault {f g : Fault} : f.Alike g → Alike (.fault f) (.fault g)
  | same (e : Failure) : Alike e e

inductive Agrees {ε α β : Type} (E : ε → ε → Prop) (R : α → β → Prop) :
    Except ε α → Except ε β → Prop where
  | ok {a b} : R a b → Agrees E R (.ok a) (.ok b)
  | error {e f} : E e f → Agrees E R (.error e) (.error f)

namespace Agrees

variable {ε α β γ δ : Type} {E : ε → ε → Prop} {R : α → β → Prop} {S : γ → δ → Prop}

theorem bind {x : Except ε α} {y : Except ε β} {f : α → Except ε γ} {g : β → Except ε δ}
    (h : Agrees E R x y) (hf : ∀ a b, R a b → Agrees E S (f a) (g b)) :
    Agrees E S (x >>= f) (y >>= g) := by
  cases h with
  | ok hr => exact hf _ _ hr
  | error he => exact .error he

theorem map {x : Except ε α} {y : Except ε β} {f : α → γ} {g : β → δ} (h : Agrees E R x y)
    (hf : ∀ a b, R a b → S (f a) (g b)) : Agrees E S (x.map f) (y.map g) := by
  cases h with
  | ok hr => exact .ok (hf _ _ hr)
  | error he => exact .error he

theorem ite {c : Prop} [Decidable c] {x x' : Except ε α} {y y' : Except ε β}
    (h : c → Agrees E R x y) (h' : ¬c → Agrees E R x' y') :
    Agrees E R (if c then x else x') (if c then y else y') := by
  split
  · exact h ‹c›
  · exact h' ‹¬c›

end Agrees

def Token.Alike (t u : Token) : Prop :=
  u.lexeme = t.lexeme

namespace Token.Alike

variable {t u : Token}

theorem kind (h : t.Alike u) : u.kind = t.kind := congrArg Lexeme.kind h

theorem value (h : t.Alike u) : u.value = t.value := congrArg Lexeme.value h

end Token.Alike

abbrev TokensAlike : List Token → List Token → Prop :=
  List.Forall₂ Token.Alike

namespace Parser

inductive ReadAlike : Expression × List Token → Expression × List Token → Prop where
  | mk {n ts us} : TokensAlike ts us → ReadAlike (n, ts) (n, us)

abbrev Agree (x y : Except Failure (Expression × List Token)) : Prop :=
  Agrees Failure.Alike ReadAlike x y

def Unplaced (p : Parser) : Prop :=
  ∀ {ts us}, TokensAlike ts us → Agree (p ts) (p us)

section Steps

variable {α β : Type} {R : α → β → Prop}

theorem malformed_agrees (i j : Int) (reason : ParseReason) :
    Agrees Failure.Alike R (malformed i reason) (malformed j reason) :=
  .error (.fault (.malformed i j reason))

theorem exhausted_agrees : Agrees Failure.Alike R exhausted exhausted :=
  .error (.same _)

theorem read_agrees (n : Expression) {ts us : List Token} (h : TokensAlike ts us) :
    Agree (.ok (n, ts)) (.ok (n, us)) :=
  .ok (.mk h)

theorem Agree.bind {x y : Except Failure (Expression × List Token)}
    {f g : Expression × List Token → Except Failure α} {S : α → α → Prop} (h : Agree x y)
    (hf : ∀ n ts us, TokensAlike ts us → Agrees Failure.Alike S (f (n, ts)) (g (n, us))) :
    Agrees Failure.Alike S (x >>= f) (y >>= g) := by
  refine Agrees.bind h ?_
  rintro _ _ ⟨hr⟩
  exact hf _ _ _ hr

end Steps

variable {p : Parser}

theorem chainRest_unplaced (hp : p.Unplaced) (symbols : List String) (fuel : Nat)
    (left : Expression) : Unplaced (chainRest symbols p fuel left) := by
  induction fuel generalizing left with
  | zero => exact fun _ => exhausted_agrees
  | succ fuel ih =>
    intro ts us h
    cases h with
    | nil => exact exhausted_agrees
    | @cons t u ts us ht h =>
      rw [chainRest, chainRest, ht]
      split
      · refine .ite (fun _ => ?_) fun _ => read_agrees left (.cons ht h)
        exact (hp h).bind fun right rest rest' hrest => ih _ hrest
      · exact read_agrees left (.cons ht h)

theorem chain_unplaced (hp : p.Unplaced) (symbols : List String) :
    Unplaced (chain symbols p) := by
  intro ts us h
  refine (hp h).bind fun left rest rest' hrest => ?_
  dsimp only
  rw [← hrest.length_eq]
  exact chainRest_unplaced hp symbols _ left hrest

theorem expression_unplaced (hp : p.Unplaced) : Unplaced (expression p) :=
  chain_unplaced (chain_unplaced hp ["*", "/"]) ["+", "-"]

theorem group_unplaced (hp : p.Unplaced) (i j : Token) {ts us : List Token}
    (h : TokensAlike ts us) : Agree (group p i ts) (group p j us) := by
  cases h with
  | nil => exact exhausted_agrees
  | @cons t u ts us ht h =>
    rw [group, group, ht.kind]
    refine .ite (fun _ => malformed_agrees _ _ _) fun _ => ?_
    refine (expression_unplaced hp (.cons ht h)).bind fun n rest rest' hrest => ?_
    cases hrest with
    | nil => exact exhausted_agrees
    | cons hv hrest =>
      dsimp only
      rw [hv.kind]
      exact .ite (fun _ => read_agrees n hrest) fun _ => malformed_agrees _ _ _

theorem atom_unplaced (hp : p.Unplaced) : Unplaced (atom p) := by
  intro ts us h
  cases h with
  | nil => exact exhausted_agrees
  | @cons t u ts us ht h =>
    unfold atom
    dsimp only
    rw [ht.kind, ht.value]
    split
    · cases h with
      | nil => exact exhausted_agrees
      | cons hv h =>
        dsimp only
        rw [hv.kind]
        exact .ite (fun _ => read_agrees _ h) fun _ => read_agrees _ (.cons hv h)
    · cases hx : constant t.value with
      | ok x => exact read_agrees _ h
      | error e => exact .error (.same e)
    · cases h with
      | nil => exact exhausted_agrees
      | cons hv h =>
        dsimp only
        rw [hv.kind]
        refine .ite (fun _ => ?_) fun _ => malformed_agrees _ _ _
        exact (group_unplaced hp _ _ h).bind fun n rest rest' hrest => read_agrees _ hrest
    · exact group_unplaced hp t u h
    all_goals exact malformed_agrees _ _ _

theorem primary_unplaced (hp : p.Unplaced) : Unplaced (primary p) := by
  intro ts us h
  refine (atom_unplaced hp h).bind fun n rest rest' hrest => ?_
  cases hrest with
  | nil => exact exhausted_agrees
  | cons hv hrest =>
    dsimp only
    rw [hv.kind]
    exact .ite (fun _ => malformed_agrees _ _ _) fun _ => read_agrees n (.cons hv hrest)

theorem powerTail_unplaced (hp : p.Unplaced) (base : Expression) : Unplaced (powerTail p base) := by
  intro ts us h
  cases h with
  | nil => exact exhausted_agrees
  | cons ht h =>
    rw [powerTail, powerTail, ht]
    refine .ite (fun _ => ?_) fun _ => read_agrees base (.cons ht h)
    exact (hp h).bind fun n rest rest' hrest => read_agrees _ hrest

theorem power_unplaced (hp : p.Unplaced) : Unplaced (power p) := by
  intro ts us h
  exact (primary_unplaced hp h).bind fun n rest rest' hrest => powerTail_unplaced hp n hrest

theorem factorialLiteral?_alike {ts us : List Token} (h : TokensAlike ts us) :
    (factorialLiteral? ts = none ∧ factorialLiteral? us = none) ∨
      ∃ x rest rest', TokensAlike rest rest' ∧
        factorialLiteral? ts = some (x, rest) ∧ factorialLiteral? us = some (x, rest') := by
  cases h with
  | nil => exact .inl ⟨rfl, rfl⟩
  | @cons t u ts us ht h =>
    cases h with
    | nil => exact .inl ⟨rfl, rfl⟩
    | @cons v w vs ws hv hvs =>
      simp only [factorialLiteral?, ht.kind, ht.value, hv.kind]
      split
      · exact .inr ⟨_, _, _, hvs, rfl, rfl⟩
      · exact .inl ⟨rfl, rfl⟩

theorem unary_unplaced : ∀ levels, Unplaced (unary levels) := by
  intro levels
  induction levels with
  | zero =>
    intro ts us h
    cases h with
    | nil => exact exhausted_agrees
    | cons _ _ => exact malformed_agrees _ _ _
  | succ levels ih =>
    intro ts us h
    cases h with
    | nil => exact exhausted_agrees
    | cons ht h =>
      rw [unary, unary, ht]
      refine .ite (fun _ => ?_) fun _ => power_unplaced ih (.cons ht h)
      rcases factorialLiteral?_alike h with ⟨hx, hy⟩ | ⟨x, rest, rest', hrest, hx, hy⟩
      · rw [hx, hy]
        exact (ih h).bind fun n rest rest' hrest => read_agrees _ hrest
      · rw [hx, hy]
        dsimp only
        cases x.negate with
        | ok y => exact powerTail_unplaced ih _ hrest
        | error e => exact .error (.same e)

end Parser

theorem parse_unplaced {ts us : List Token} (h : TokensAlike ts us) :
    Agrees Failure.Alike Eq (parse ts) (parse us) := by
  cases h with
  | nil => exact Parser.exhausted_agrees
  | cons ht h =>
    rw [parse, parse, ht.kind]
    refine .ite (fun _ => .error (.same _)) fun _ => ?_
    refine (Parser.expression_unplaced (Parser.unary_unplaced nestingLimit)
      (.cons ht h)).bind fun n rest rest' hrest => ?_
    cases hrest with
    | nil => exact Parser.exhausted_agrees
    | cons hv hrest =>
      dsimp only
      rw [hv.kind, hv.value]
      split
      · exact .ok rfl
      · exact Parser.malformed_agrees _ _ _
      · exact Parser.malformed_agrees _ _ _

section Blanks

open Text

variable {bs : List Char}

theorem isNumeralChar_blank {c : Char} (hc : isBlank c = true) : isNumeralChar c = false := by
  by_contra h
  simp only [isNumeralChar, isDigit, Bool.or_eq_true, Bool.not_eq_false, decide_eq_true_eq,
    Bool.and_eq_true] at h
  rcases h with ⟨h0, h9⟩ | rfl
  · have hlow : 48 ≤ c.toNat := h0
    have hhigh : c.toNat ≤ 57 := h9
    simp only [isBlank, Bool.or_eq_true, Bool.and_eq_true, decide_eq_true_eq] at hc
    omega
  · exact absurd hc (by decide)

theorem takeWhile_append_blanks (hb : AllBlank bs) (cs : List Char) :
    (cs ++ bs).takeWhile isNumeralChar = cs.takeWhile isNumeralChar := by
  have hnone : bs.takeWhile isNumeralChar = [] := by
    refine List.takeWhile_eq_nil_iff.mpr fun h => ?_
    simp [isNumeralChar_blank (hb _ (List.getElem_mem h))]
  induction cs with
  | nil => exact hnone
  | cons c cs ih => rw [List.cons_append, List.takeWhile_cons, List.takeWhile_cons, ih]

theorem numeralLexeme_unplaced (p q : Nat) (run : List Char) :
    Agrees Fault.Alike Eq (numeralLexeme p run) (numeralLexeme q run) := by
  unfold numeralLexeme
  split
  · exact .error (.unexpectedChar _ _ _)
  · refine .ite (fun _ => .error (.unexpectedChar _ _ _)) fun _ => ?_
    exact .ite (fun _ => .ok rfl) fun _ => .error (.numeral _ _ _)

theorem isPrefixOf_append_blanks (hb : AllBlank bs) {name : List Char}
    (hname : ∀ c ∈ name, isBlank c = false) (cs : List Char) :
    name.isPrefixOf (cs ++ bs) = name.isPrefixOf cs := by
  induction cs generalizing name with
  | nil =>
    cases name with
    | nil => rfl
    | cons c name =>
      have hc := hname c (by simp)
      cases bs with
      | nil => rfl
      | cons b bs =>
        have hne : c ≠ b := by
          rintro rfl
          exact Bool.false_ne_true (hc.symm.trans (hb c (by simp)))
        simp [List.isPrefixOf, hne]
  | cons d cs ih =>
    cases name with
    | nil => rfl
    | cons c name =>
      have hrest := ih fun c hc => hname c (List.mem_cons_of_mem _ hc)
      simp only [List.cons_append, List.isPrefixOf, hrest]

theorem spelled_not_blank : ∀ p ∈ spelledLexemes, ∀ c ∈ p.1, isBlank c = false := by
  have hall : (spelledLexemes.all fun p => p.1.all fun c => !isBlank c) = true := by decide
  intro p hp c hc
  have hname := List.all_eq_true.mp hall p hp
  simpa using List.all_eq_true.mp hname c hc

theorem find_spelled_append_blanks (hb : AllBlank bs) (cs : List Char) :
    (spelledLexemes.find? fun (name, _) => name.isPrefixOf (cs ++ bs)) =
      spelledLexemes.find? fun (name, _) => name.isPrefixOf cs :=
  List.find?_congr fun x hx => isPrefixOf_append_blanks hb (spelled_not_blank x hx) cs

def Found (cs : List Char) (x y : Option Lexeme × Nat) : Prop :=
  x = y ∧ y.2 ≤ cs.length

theorem lexemeAt_unplaced (hb : AllBlank bs) (p q : Nat) (c : Char) (cs : List Char) :
    Agrees Fault.Alike (Found cs) (lexemeAt p c (cs ++ bs)) (lexemeAt q c cs) := by
  have one (l : Option Lexeme) : Agrees Fault.Alike (Found cs) (.ok (l, 0)) (.ok (l, 0)) :=
    .ok ⟨rfl, Nat.zero_le _⟩
  unfold lexemeAt
  refine .ite (fun _ => one none) fun _ => ?_
  refine .ite (fun _ => ?_) fun _ => ?_
  · dsimp only
    rw [takeWhile_append_blanks hb]
    refine (numeralLexeme_unplaced p q _).map fun _ _ h => ⟨h ▸ rfl, ?_⟩
    simpa using (List.takeWhile_sublist isNumeralChar).length_le
  iterate 5 refine .ite (fun _ => one _) fun _ => ?_
  rw [← List.cons_append, find_spelled_append_blanks hb]
  cases hfound : spelledLexemes.find? fun (name, _) => name.isPrefixOf (c :: cs) with
  | none => exact .error (.unexpectedChar _ _ _)
  | some found =>
    have hfits := List.find?_some hfound
    have hprefix : found.1 <+: c :: cs := List.isPrefixOf_iff_prefix.mp hfits
    refine .ok ⟨rfl, ?_⟩
    have hlength := hprefix.length_le
    rw [List.length_cons] at hlength
    exact Nat.sub_le_of_le_add hlength

theorem scanFrom_cons (p : Nat) (c : Char) (cs : List Char) :
    scanFrom p (c :: cs) = lexemeAt p c cs >>= fun found => do
      let rest ← scanFrom (p + 1 + found.2) (cs.drop found.2)
      match found.1 with
      | some lexeme => return ⟨lexeme, p⟩ :: rest
      | none => return rest :=
  scanFrom.eq_def p (c :: cs)

theorem scanFrom_blanks_append (hb : AllBlank bs) (p : Nat) (cs : List Char) :
    scanFrom p (bs ++ cs) = scanFrom (p + bs.length) cs := by
  induction bs generalizing p with
  | nil => rfl
  | cons b bs ih =>
    have hblank : lexemeAt p b (bs ++ cs) = .ok (none, 0) := if_pos (hb b (by simp))
    have hrest := ih (fun c hc => hb c (List.mem_cons_of_mem _ hc)) (p + 1)
    rw [List.cons_append, scanFrom_cons, hblank, ok_bind]
    dsimp only
    rw [List.drop_zero, Nat.add_zero, hrest, List.length_cons, Nat.add_assoc, Nat.add_comm 1]
    exact bind_pure _

theorem scanFrom_unplaced (hb : AllBlank bs) (p q : Nat) (cs : List Char) :
    Agrees Fault.Alike TokensAlike (scanFrom p (cs ++ bs)) (scanFrom q cs) := by
  fun_induction scanFrom q cs generalizing p with
  | case1 q =>
    have hend := scanFrom_blanks_append hb p []
    rw [List.append_nil] at hend
    rw [List.nil_append, hend, scanFrom.eq_def]
    exact .ok (.cons rfl .nil)
  | case2 q c cs ih =>
    rw [List.cons_append, scanFrom_cons]
    refine (lexemeAt_unplaced hb p q c cs).bind ?_
    rintro _ ⟨lexeme?, extra⟩ ⟨rfl, hextra⟩
    dsimp only
    rw [List.drop_append_of_le_length hextra]
    refine (ih extra _).bind fun ts us h => ?_
    cases lexeme? with
    | none => exact .ok h
    | some lexeme => exact .ok (.cons rfl h)

theorem scan_trim (text : String) :
    Agrees Fault.Alike TokensAlike (scan text) (scan (String.ofList (trim text.toList))) := by
  obtain ⟨front, back, htext, hfront, hback⟩ := exists_trim text.toList
  unfold scan
  rw [String.toList_ofList]
  generalize trim text.toList = core at htext ⊢
  rw [htext, List.append_assoc, scanFrom_blanks_append hfront]
  exact scanFrom_unplaced hback _ _ core

theorem parseText_trim (text : String) : Agrees Failure.Alike Eq (parseText text)
    (parseText (String.ofList (trim text.toList))) := by
  have h := scan_trim text
  unfold parseText
  generalize scan text = x at h ⊢
  generalize scan (String.ofList (trim text.toList)) = y at h ⊢
  cases h with
  | ok h => exact parse_unplaced h
  | error h => exact .error (.fault h)

theorem evaluateText_trim (text : String) : Agrees Failure.Alike Eq (evaluateText text)
    (evaluateText (String.ofList (trim text.toList))) := by
  refine (parseText_trim text).bind ?_
  rintro n _ rfl
  cases n.evaluate with
  | ok v => exact .ok rfl
  | error e => exact .error (.same e)

end Blanks

end DeskCalculator
