import DeskCalculator.Proofs.Expression.Position

namespace DeskCalculator

structure Matching where
  waiting : List Int
  pairs : List (Int × Int)

def Matching.step (m : Matching) (t : Token) : Matching :=
  match t.kind, m.waiting with
  | .openParen, waiting => ⟨t.position :: waiting, m.pairs⟩
  | .closeParen, opening :: waiting => ⟨waiting, (opening, t.position) :: m.pairs⟩
  | _, _ => m

def Matching.run (m : Matching) (tokens : List Token) : Matching :=
  tokens.foldl Matching.step m

def Matching.start : Matching :=
  ⟨[], []⟩

def HasPartner (tokens : List Token) (position : Int) : Prop :=
  ∃ pair ∈ (Matching.start.run tokens).pairs, pair.1 = position ∨ pair.2 = position

def Balanced (tokens : List Token) : Prop :=
  ∀ t ∈ tokens, t.kind = .openParen ∨ t.kind = .closeParen → HasPartner tokens t.position

instance (tokens : List Token) (position : Int) : Decidable (HasPartner tokens position) :=
  inferInstanceAs (Decidable (∃ pair ∈ _, _))

instance (tokens : List Token) : Decidable (Balanced tokens) :=
  inferInstanceAs (Decidable (∀ t ∈ tokens, _))

def PairsOf (us : List Token) (pairs : List (Int × Int)) : Prop :=
  ∀ pair ∈ pairs, pair.1 ∈ us.map Token.position ∧ pair.2 ∈ us.map Token.position

def Closed (us : List Token) : Prop :=
  ∃ pairs, PairsOf us pairs ∧ ∀ m : Matching, m.run us = ⟨m.waiting, pairs ++ m.pairs⟩

namespace PairsOf

variable {us vs : List Token} {pairs later : List (Int × Int)}

theorem mono (h : PairsOf us pairs) (hsub : us ⊆ vs) : PairsOf vs pairs := fun pair hp =>
  ⟨List.map_subset _ hsub (h pair hp).1, List.map_subset _ hsub (h pair hp).2⟩

theorem nil : PairsOf us [] := nofun

theorem append (h : PairsOf us pairs) (hlater : PairsOf us later) : PairsOf us (pairs ++ later) :=
  fun pair hp => (List.mem_append.mp hp).elim (h pair) (hlater pair)

end PairsOf

theorem not_hasPartner {tokens us : List Token} {position : Int}
    (h : PairsOf us (Matching.start.run tokens).pairs)
    (hne : ∀ u ∈ us, u.position ≠ position) : ¬HasPartner tokens position := by
  have hnone : position ∉ us.map Token.position := fun hmem => by
    obtain ⟨u, hu, heq⟩ := List.mem_map.mp hmem
    exact hne u hu heq
  rintro ⟨pair, hp, rfl | rfl⟩
  · exact hnone (h pair hp).1
  · exact hnone (h pair hp).2

namespace Matching

variable {m : Matching} {t : Token} {us vs : List Token}

theorem run_cons (m : Matching) (t : Token) (us : List Token) :
    m.run (t :: us) = (m.step t).run us :=
  rfl

theorem run_append (m : Matching) (us vs : List Token) :
    m.run (us ++ vs) = (m.run us).run vs :=
  List.foldl_append

theorem step_open (ht : t.kind = .openParen) :
    m.step t = ⟨t.position :: m.waiting, m.pairs⟩ := by
  unfold step
  rw [ht]

theorem step_close {opening : Int} {waiting : List Int} (ht : t.kind = .closeParen)
    (hm : m.waiting = opening :: waiting) :
    m.step t = ⟨waiting, (opening, t.position) :: m.pairs⟩ := by
  unfold step
  rw [ht, hm]

theorem step_close_nil (ht : t.kind = .closeParen) (hm : m.waiting = []) : m.step t = m := by
  unfold step
  rw [ht, hm]

theorem step_plain (ht : t.kind ∉ [.openParen, .closeParen]) : m.step t = m := by
  unfold step
  split <;> simp_all

theorem of_mem_run {pair : Int × Int} (h : pair ∈ (m.run us).pairs) :
    pair ∈ m.pairs ∨ (pair.1 ∈ m.waiting ∨ pair.1 ∈ us.map Token.position) ∧
      pair.2 ∈ us.map Token.position := by
  induction us generalizing m with
  | nil => exact .inl h
  | cons t us ih =>
    have hlater := ih (m := m.step t) h
    by_cases ho : t.kind = .openParen
    · rw [step_open ho] at hlater
      grind
    by_cases hc : t.kind = .closeParen
    · cases hm : m.waiting with
      | nil =>
        rw [step_close_nil hc hm] at hlater
        grind
      | cons opening waiting =>
        rw [step_close hc hm] at hlater
        grind
    · rw [step_plain (by simp [ho, hc])] at hlater
      grind

theorem pairsOf_run (vs : List Token) (hm : m.waiting = []) (hpairs : PairsOf vs m.pairs) :
    PairsOf (vs ++ us) (m.run us).pairs := by
  intro pair hp
  rw [List.map_append]
  rcases of_mem_run hp with hp | ⟨hopening | hopening, hclosing⟩
  · exact ⟨List.mem_append_left _ (hpairs pair hp).1, List.mem_append_left _ (hpairs pair hp).2⟩
  · rw [hm] at hopening
    cases hopening
  · exact ⟨List.mem_append_right _ hopening, List.mem_append_right _ hclosing⟩

end Matching

namespace Closed

variable {us vs : List Token} {t mark opening closing : Token}

theorem nil : Closed [] :=
  ⟨[], .nil, fun _ => rfl⟩

theorem plain (ht : t.kind ∉ [.openParen, .closeParen]) : Closed [t] :=
  ⟨[], .nil, fun _ => Matching.step_plain ht⟩

theorem append (hu : Closed us) (hv : Closed vs) : Closed (us ++ vs) := by
  obtain ⟨pairs, hpairs, hrun⟩ := hu
  obtain ⟨later, hlater, hrunlater⟩ := hv
  refine ⟨later ++ pairs, (hlater.mono ?_).append (hpairs.mono ?_), fun m => ?_⟩
  · exact List.subset_append_right us vs
  · exact List.subset_append_left us vs
  · rw [Matching.run_append, hrun, hrunlater, List.append_assoc]

theorem group (ho : opening.kind = .openParen) (h : Closed us) (hc : closing.kind = .closeParen) :
    Closed (opening :: us ++ [closing]) := by
  obtain ⟨pairs, hpairs, hrun⟩ := h
  have houter : PairsOf (opening :: us ++ [closing]) [(opening.position, closing.position)] := by
    simp [PairsOf]
  refine ⟨(opening.position, closing.position) :: pairs, houter.append (hpairs.mono ?_),
    fun m => ?_⟩
  · intro t ht
    simp [ht]
  · rw [Matching.run_append, Matching.run_cons m, Matching.step_open ho, hrun]
    exact Matching.step_close hc rfl

theorem operator {s : String} (hu : Closed us) (hs : t.lexeme.symbol? = some s)
    (hv : Closed vs) : Closed (us ++ t :: vs) :=
  hu.append ((plain (by simp [Token.kind_of_symbol? hs])).append hv)

theorem factorial (ht : t.kind = .number) (hmark : mark.kind = .factorial) :
    Closed [t, mark] :=
  (plain (by simp [ht])).append (plain (by simp [hmark]))

theorem of_derives {r : Rule} {k : Nat} {n : Expression} (h : Derives r k us n) : Closed us := by
  induction h with
  | term _ ih | unary _ ih | power _ ih | primary _ ih => exact ih
  | sum _ hs _ _ iha ihb | product _ hs _ _ iha ihb | raised _ hs _ iha ihb =>
    exact iha.operator hs ihb
  | negatedFactorial hs ht _ hmark => exact nil.operator hs (factorial ht hmark)
  | negatedFactorialPower hs ht _ hmark hop _ ih =>
    exact nil.operator hs ((factorial ht hmark).operator hop ih)
  | negation hs _ _ ih => exact nil.operator hs ih
  | number ht | constant ht => exact plain (by simp [ht])
  | factorial ht hmark => exact factorial ht hmark
  | call hf ho _ hc ih => exact (plain (by simp [hf])).append (ih.group ho hc)
  | group ho _ hc ih => exact ih.group ho hc

end Closed

section Alone

variable {front us rest : List Token} {t next : Token}

theorem not_hasPartner_close (hu : Closed us) (ht : t.kind = .closeParen)
    (hne : ∀ u ∈ us ++ rest, u.position ≠ t.position) :
    ¬HasPartner (us ++ t :: rest) t.position := by
  obtain ⟨pairs, hpairs, hrun⟩ := hu
  refine not_hasPartner ?_ hne
  rw [Matching.run_append, hrun, Matching.run_cons, Matching.step_close_nil ht rfl]
  exact Matching.pairsOf_run us rfl (hpairs.append .nil)

theorem not_hasPartner_open (hu : Closed us) (ht : t.kind = .openParen)
    (hnext : next.kind = .finish) (hne : ∀ u ∈ front ++ us, u.position ≠ t.position) :
    ¬HasPartner (front ++ t :: (us ++ [next])) t.position := by
  obtain ⟨pairs, hpairs, hrun⟩ := hu
  have hfront : PairsOf front (Matching.start.run front).pairs :=
    Matching.pairsOf_run [] rfl .nil
  refine not_hasPartner ?_ hne
  rw [Matching.run_append, Matching.run_cons, Matching.step_open ht, Matching.run_append, hrun,
    Matching.run_cons, Matching.step_plain (by simp [hnext])]
  exact (hpairs.mono (List.subset_append_right front us)).append
    (hfront.mono (List.subset_append_left front us))

end Alone

theorem mem_continuations {s : String} (h : (Operation.ofSymbol? s).isSome) :
    s ∈ Rule.expression.continuations := by
  obtain ⟨op, hop⟩ := Option.isSome_iff_exists.mp h
  have hsymbol : op.symbol = s := by simpa using List.find?_some hop
  rw [← hsymbol]
  cases op <;> decide

section Reported

variable {text : String} {tokens : List Token}

theorem kind_ne_operator (hscan : scan text = .ok tokens) {next : Token} {rest : List Token}
    (hnext : next ∈ tokens) (hstop : Rule.expression.StopsBefore (next :: rest)) :
    next.kind ≠ .operator := by
  obtain ⟨ps, -, rfl, hknown⟩ := exists_pieces hscan
  rcases List.mem_append.mp hnext with hmem | hmem
  · have hlexeme := hknown next hmem
    have hgoes := hstop next rfl
    obtain ⟨lexeme, position⟩ := next
    cases hlexeme with
    | operator hs => exact absurd rfl (hgoes _ (mem_continuations hs))
    | _ => nofun
  · obtain rfl := List.mem_singleton.mp hmem
    nofun

theorem not_hasPartner_of_scan {front us rest : List Token} {t next : Token}
    (hscan : scan text = .ok (front ++ t :: (us ++ next :: rest))) (hu : Closed us)
    (ht : t.kind = .openParen) (hnext : next.kind = .finish) :
    ¬HasPartner (front ++ t :: (us ++ next :: rest)) t.position := by
  have hne := position_ne hscan
  have hsplit : front ++ t :: (us ++ next :: rest) = (front ++ t :: us) ++ next :: rest := by
    rw [List.append_assoc, List.cons_append]
  rw [hsplit] at hscan
  obtain ⟨-, rfl⟩ := eq_finish _ hscan hnext
  refine not_hasPartner_open hu ht hnext fun u hu => hne u ?_
  rw [← List.append_assoc]
  exact List.mem_append_left _ hu

/-- A parenthesis that is reported as left open is one after which an expression is followed by no
closing one: by the end, and then it has no partner, or by what cannot follow an expression. One
that is reported as closing nothing has no partner, unless it stands where an operator has no
operand. -/
theorem unmatched_parenthesis (hscan : scan text = .ok tokens) (position : Int) :
    (parseText text = .error (.fault (.malformed position .unmatchedOpen)) →
      ∃ front t us next rest, tokens = front ++ t :: (us ++ next :: rest) ∧
        t.kind = .openParen ∧ t.position = position ∧ (∃ k n, Derives .expression k us n) ∧
        (next.kind = .finish ∧ ¬HasPartner tokens position ∨
          next.kind ∈ [.number, .constant, .function, .openParen, .factorial])) ∧
    (parseText text = .error (.fault (.malformed position .unmatchedClose)) →
      ∃ front t back, tokens = front ++ t :: back ∧ t.kind = .closeParen ∧
        t.position = position ∧
        (¬HasPartner tokens position ∨ ∃ start op, front = start ++ [op] ∧
          op.kind = .operator)) := by
  have hrejected {reason : ParseReason}
      (h : parseText text = .error (.fault (.malformed position reason))) :
      Rejected tokens position reason := by
    obtain ⟨others, hothers, hrejected⟩ := rejected_of_parseText h
    rwa [Except.ok.inj (hscan.symm.trans hothers)]
  refine ⟨fun h => ?_, fun h => ?_⟩
  · cases hrejected h with
    | refused hrefused =>
      obtain ⟨hfaults⟩ := hrefused
      cases hfaults with
      | @unmatchedOpen k us n next rest ht hback hd hstop hclose =>
        subst hback
        refine ⟨_, _, us, next, rest, rfl, ht, rfl, ⟨k, n, hd⟩, ?_⟩
        have hop := kind_ne_operator hscan (by simp) hstop
        by_cases hfinish : next.kind = .finish
        · exact .inl ⟨hfinish, not_hasPartner_of_scan hscan (.of_derives hd) ht hfinish⟩
        · refine .inr ?_
          cases hk : next.kind <;> simp_all
  · cases hrejected h with
    | refused hrefused =>
      obtain ⟨hfaults⟩ := hrefused
      cases hfaults with
      | unmatchedClose ht hdue =>
        refine ⟨_, _, _, rfl, ht, rfl, ?_⟩
        cases hdue with
        | start => exact .inl (not_hasPartner_close .nil ht (position_ne hscan))
        | operator us hop => exact .inr ⟨us, _, rfl, hop⟩
    | surplusClose hd ht =>
      exact ⟨_, _, _, rfl, ht, rfl,
        .inl (not_hasPartner_close (.of_derives hd) ht (position_ne hscan))⟩

end Reported

theorem unmatched_parenthesis_open_group : ∃ tokens, scan "(e" = .ok tokens ∧
    parseText "(e" = .error (.fault (.malformed 0 .unmatchedOpen)) ∧
    ∃ front t us next rest, tokens = front ++ t :: (us ++ next :: rest) ∧
      t.kind = .openParen ∧ t.position = 0 ∧ (∃ k n, Derives .expression k us n) ∧
      (next.kind = .finish ∧ ¬HasPartner tokens 0 ∨
        next.kind ∈ [.number, .constant, .function, .openParen, .factorial]) := by
  have hscan : scan "(e" = .ok [⟨.openParen, 0⟩, ⟨.constant "e", 1⟩, ⟨.finish, 2⟩] := by
    have hdivides : Divides [⟨['('], _, .openParen⟩,
        ⟨"e".toList, some (.constant "e"), .constant (by simp)⟩] ['(', 'e'] := by
      refine .cons (fun h => ?_) (.cons (fun h => ?_) .nil) <;> cases h
    exact scan_of_divides "(e" hdivides
  have hrefused : parseText "(e" = .error (.fault (.malformed 0 .unmatchedOpen)) := by
    rw [parseText, hscan]
    rfl
  exact ⟨_, hscan, hrefused, (unmatched_parenthesis hscan 0).1 hrefused⟩

theorem unmatched_parenthesis_balanced :
    (∃ tokens, scan "(e e)" = .ok tokens ∧
      parseText "(e e)" = .error (.fault (.malformed 0 .unmatchedOpen)) ∧
      HasPartner tokens 0 ∧ Balanced tokens) ∧
    ∃ tokens, scan "(e+)" = .ok tokens ∧
      parseText "(e+)" = .error (.fault (.malformed 3 .unmatchedClose)) ∧
      HasPartner tokens 3 ∧ Balanced tokens := by
  have hspaced : scan "(e e)" = .ok [⟨.openParen, 0⟩, ⟨.constant "e", 1⟩, ⟨.constant "e", 3⟩,
      ⟨.closeParen, 4⟩, ⟨.finish, 5⟩] := by
    have hdivides : Divides [⟨['('], _, .openParen⟩,
        ⟨"e".toList, some (.constant "e"), .constant (by simp)⟩, ⟨[' '], _, .blank (by decide)⟩,
        ⟨"e".toList, some (.constant "e"), .constant (by simp)⟩, ⟨[')'], _, .closeParen⟩]
        ['(', 'e', ' ', 'e', ')'] := by
      refine .cons (fun h => ?_) (.cons (fun h => ?_) (.cons (fun h => ?_) (.cons (fun h => ?_)
        (.cons (fun h => ?_) .nil)))) <;> cases h
    exact scan_of_divides "(e e)" hdivides
  have hdangling : scan "(e+)" = .ok [⟨.openParen, 0⟩, ⟨.constant "e", 1⟩, ⟨.operator "+", 2⟩,
      ⟨.closeParen, 3⟩, ⟨.finish, 4⟩] := by
    have hdivides : Divides [⟨['('], _, .openParen⟩,
        ⟨"e".toList, some (.constant "e"), .constant (by simp)⟩,
        ⟨['+'], _, .operator (by decide)⟩, ⟨[')'], _, .closeParen⟩] ['(', 'e', '+', ')'] := by
      refine .cons (fun h => ?_) (.cons (fun h => ?_) (.cons (fun h => ?_)
        (.cons (fun h => ?_) .nil))) <;> cases h
    exact scan_of_divides "(e+)" hdivides
  refine ⟨⟨_, hspaced, ?_, by decide, by decide⟩, _, hdangling, ?_, by decide, by decide⟩
  · rw [parseText, hspaced]
    rfl
  · rw [parseText, hdangling]
    rfl

end DeskCalculator
