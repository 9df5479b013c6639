import DeskCalculator.Proofs.Expression.Boundary
import DeskCalculator.Proofs.Expression.Lexing

namespace DeskCalculator

def LexemeKind.mark? : LexemeKind → Option Char
  | .openParen => some '('
  | .closeParen => some ')'
  | .factorial => some '!'
  | _ => none

structure Token.StandsAt (text : String) (t : Token) (place : Nat) : Prop where
  position : t.position = place
  mark : ∀ c, t.kind.mark? = some c → text.toList[place]? = some c
  finish : t.kind = .finish → place = text.length

def ParseReason.IsAbout (text : String) (front : List Token) (t : Token) (place : Nat) :
    ParseReason → Prop
  | .emptyExpression => False
  | .nestedTooDeeply => True
  | .unexpected v => t.value = v
  | .operandExpected v => t.value = v
  | .parenExpected f => ∃ start position, front = start ++ [⟨⟨.function, f⟩, position⟩]
  | .factorialOfNonLiteral => text.toList[place]? = some '!'
  | .emptyParentheses => text.toList[place]? = some ')'
  | .unmatchedOpen => text.toList[place]? = some '('
  | .unmatchedClose => text.toList[place]? = some ')'
  | .unexpectedEnd => place = text.length

section Scanned

variable {text : String} {tokens : List Token} {t : Token}

theorem Spells.eq_mark {cs : List Char} {lexeme : Lexeme} (h : Spells cs (some lexeme)) {c : Char}
    (hc : lexeme.kind.mark? = some c) : cs = [c] := by
  cases h with
  | number | function | constant | greekPi | operator => cases hc
  | openParen | closeParen | factorial =>
    obtain rfl := Option.some.inj hc
    rfl

theorem exists_piece {ps : List Piece} {position : Nat} (ht : t ∈ tokensAt position ps) :
    ∃ front p back, ps = front ++ p :: back ∧ p.lexeme? = some t.lexeme ∧
      t.position = (position + (spelling front).length : Nat) := by
  induction ps generalizing position with
  | nil => cases ht
  | cons p ps ih =>
    rw [tokensAt, List.mem_append, Option.mem_toList] at ht
    rcases ht with ht | ht
    · obtain ⟨lexeme, hlexeme, rfl⟩ := Option.map_eq_some_iff.mp ht
      exact ⟨[], p, ps, rfl, hlexeme, rfl⟩
    · obtain ⟨front, q, back, rfl, hlexeme, hposition⟩ := ih ht
      refine ⟨p :: front, q, back, rfl, hlexeme, ?_⟩
      have hlength : (spelling (p :: front)).length = p.chars.length + (spelling front).length :=
        List.length_append
      rw [hposition, hlength, Nat.add_assoc]

theorem scan_of_divides (text : String) {ps : List Piece} (h : Divides ps text.toList) :
    scan text = .ok (tokensAt 0 ps ++ [⟨.finish, text.length⟩]) := by
  have hscan := scanFrom_of_divides h 0
  rwa [Nat.zero_add, String.length_toList] at hscan

theorem exists_pieces (h : scan text = .ok tokens) :
    ∃ ps, Divides ps text.toList ∧ tokens = tokensAt 0 ps ++ [⟨.finish, text.length⟩] ∧
      ∀ t ∈ tokensAt 0 ps, t.lexeme.Known := by
  have hcomes : Tokenizes [] text.toList (scan text) := tokenizes_scanFrom [] text.toList
  have hscanned : Scans Scanned (scan text) := scanFrom_scanned 0 text.toList
  rw [h] at hcomes hscanned
  cases hcomes with
  | @pieces ps _ hdivides =>
    have htokens := Except.ok.inj (h.symm.trans (scan_of_divides text hdivides))
    obtain ⟨front, position, hfront, hknown⟩ := hscanned
    obtain ⟨heq, -⟩ := List.append_inj' (htokens.symm.trans hfront) rfl
    exact ⟨ps, hdivides, htokens, heq ▸ hknown⟩

theorem legible_of_scan (h : scan text = .ok tokens) : Legible tokens := by
  obtain ⟨ps, -, rfl, hknown⟩ := exists_pieces h
  exact legible_append_finish (fun t ht => (hknown t ht).isLegible) rfl

theorem eq_finish (front : List Token) {back : List Token}
    (h : scan text = .ok (front ++ t :: back)) (ht : t.kind = .finish) :
    t = ⟨.finish, text.length⟩ ∧ back = [] := by
  obtain ⟨ps, -, heq, hknown⟩ := exists_pieces h
  obtain rfl := eq_of_append_finish heq ht fun u hu => (hknown u hu).kind_ne_finish
  simpa using heq

theorem ordered_of_scan (h : scan text = .ok tokens) :
    tokens.Pairwise fun t u => t.position < u.position := by
  obtain ⟨ps, hdivides, rfl, -⟩ := exists_pieces h
  rw [List.pairwise_append]
  refine ⟨ordered_tokensAt ps 0, List.pairwise_singleton _ _, fun t ht u hu => ?_⟩
  have hlast := (position_of_mem_tokensAt ht).2
  rw [hdivides.spelling_eq, Nat.zero_add, String.length_toList] at hlast
  rwa [List.mem_singleton.mp hu]

theorem position_ne {front back : List Token} (h : scan text = .ok (front ++ t :: back)) :
    ∀ u ∈ front ++ back, u.position ≠ t.position := by
  have hordered := List.pairwise_append.mp (ordered_of_scan h)
  intro u hu
  rcases List.mem_append.mp hu with hu | hu
  · exact Int.ne_of_lt (hordered.2.2 u hu t (List.mem_cons_self ..))
  · exact Int.ne_of_gt ((List.pairwise_cons.mp hordered.2.1).1 u hu)

theorem exists_standsAt (h : scan text = .ok tokens) (ht : t ∈ tokens) :
    ∃ place, t.StandsAt text place := by
  obtain ⟨ps, hdivides, rfl, hknown⟩ := exists_pieces h
  rcases List.mem_append.mp ht with ht | ht
  · obtain ⟨front, p, back, rfl, hlexeme, hposition⟩ := exists_piece ht
    refine ⟨(spelling front).length, ?_, fun c hc => ?_, fun hk => ?_⟩
    · rw [hposition, Nat.zero_add]
    · have hchars : p.chars = [c] := Spells.eq_mark (hlexeme ▸ p.spells) hc
      rw [← hdivides.spelling_eq, spelling_append, List.getElem?_append_right (Nat.le_refl _),
        Nat.sub_self, spelling, List.flatMap_cons, hchars]
      rfl
    · exact absurd hk (hknown t ht).kind_ne_finish
  · obtain rfl := List.mem_singleton.mp ht
    refine ⟨text.length, rfl, fun c hc => ?_, fun _ => rfl⟩
    cases hc

end Scanned

section Refused

variable {text : String}

theorem Faults.isAbout {front back : List Token} {t : Token} {reason : ParseReason} {place : Nat}
    (h : Faults front t back reason) (ht : t.StandsAt text place) :
    reason.IsAbout text front t place := by
  cases h with
  | nestedTooDeeply => trivial
  | operandExpected => rfl
  | @parenExpected start f hfront hf _ =>
    obtain ⟨⟨kind, value⟩, position⟩ := f
    obtain rfl : kind = .function := hf
    exact ⟨start, position, hfront⟩
  | factorialOfNonLiteral hk => exact ht.mark '!' (by rw [hk]; rfl)
  | emptyParentheses _ _ hk => exact ht.mark ')' (by rw [hk]; rfl)
  | unmatchedOpen hk => exact ht.mark '(' (by rw [hk]; rfl)
  | unmatchedClose hk => exact ht.mark ')' (by rw [hk]; rfl)
  | unexpectedEnd hk => exact ht.finish hk

theorem Rejected.isAbout {tokens : List Token} {position : Int} {reason : ParseReason}
    (h : Rejected tokens position reason) (text : String) :
    (∃ t rest, tokens = t :: rest ∧ t.kind = .finish ∧ position = 0 ∧
        reason = .emptyExpression) ∨
      ∃ front t back, tokens = front ++ t :: back ∧ t.position = position ∧
        ∀ place, t.StandsAt text place → reason.IsAbout text front t place := by
  cases h with
  | empty ht => exact .inl ⟨_, _, rfl, ht, rfl, rfl⟩
  | refused h =>
    obtain ⟨hfaults⟩ := h
    exact .inr ⟨_, _, _, rfl, rfl, fun _ hplace => hfaults.isAbout hplace⟩
  | surplusClose _ ht =>
    exact .inr ⟨_, _, _, rfl, rfl, fun _ hplace => hplace.mark ')' (by rw [ht]; rfl)⟩
  | surplus _ _ _ _ => exact .inr ⟨_, _, _, rfl, rfl, fun _ _ => rfl⟩

theorem fault_of_parseText {f : Fault} (h : parseText text = .error (.fault f)) :
    f.LocatedIn text.toList ∨ ∃ tokens position reason, scan text = .ok tokens ∧
      f = .malformed position reason ∧ Rejected tokens position reason := by
  unfold parseText at h
  split at h
  · rename_i tokens hscan
    have hparses := parses_parse (legible_of_scan hscan)
    rw [h] at hparses
    cases hparses with
    | rejected hrejected => exact .inr ⟨tokens, _, _, hscan, rfl, hrejected⟩
  · rename_i g hscan
    have hcomes : Tokenizes [] text.toList (scan text) := tokenizes_scanFrom [] text.toList
    rw [hscan] at hcomes
    cases h
    cases hcomes with
    | fault hlocated => exact .inl hlocated

theorem located_of_parseText {position : Nat} {c : Char}
    (h : parseText text = .error (.fault (.unexpectedChar position c))) :
    text.toList[position]? = some c := by
  rcases fault_of_parseText h with hlocated | ⟨_, _, _, _, heq, _⟩
  · cases hlocated with
    | unexpectedChar hc => exact hc
  · cases heq

theorem rejected_of_parseText {position : Int} {reason : ParseReason}
    (h : parseText text = .error (.fault (.malformed position reason))) :
    ∃ tokens, scan text = .ok tokens ∧ Rejected tokens position reason := by
  rcases fault_of_parseText h with hlocated | ⟨tokens, _, _, hscan, heq, hrejected⟩
  · cases hlocated
  · cases heq
    exact ⟨tokens, hscan, hrejected⟩

theorem outcome_of_parseText {f : Fault} (h : parseText text = .error (.fault f)) :
    (evaluationReport text).outcome = .ok (.error f) := by
  refine outcome_fault ?_
  rw [evaluateText, h, error_bind]

end Refused

/-- A fault points at what it is about. The character of an unexpected character stands at its
position. Tokens that are not parsed are either none but the end, or are refused at one of them,
and what stands there is what the reason says. -/
theorem fault_position (text : String) :
    (∀ position c,
      (evaluationReport text).outcome = .ok (.error (.unexpectedChar position c)) →
      text.toList[position]? = some c) ∧
    ∀ position reason,
      (evaluationReport text).outcome = .ok (.error (.malformed position reason)) →
      ∃ tokens, scan text = .ok tokens ∧
        ((tokens = [⟨.finish, text.length⟩] ∧ position = 0 ∧ reason = .emptyExpression) ∨
          ∃ front t back place, tokens = front ++ t :: back ∧ t.position = position ∧
            position = (place : Nat) ∧ (t.kind = .finish → place = text.length) ∧
            reason.IsAbout text front t place) := by
  refine ⟨fun position c h => ?_, fun position reason h => ?_⟩
  · have hparse := parseText_of_evaluateText (evaluateText_of_outcome h)
    exact located_of_parseText (hparse.resolve_right (by simp [Fault.ofArithmetic, Fault.kind]))
  · have hparse := parseText_of_evaluateText (evaluateText_of_outcome h)
    obtain ⟨tokens, hscan, hrejected⟩ :=
      rejected_of_parseText (hparse.resolve_right (by simp [Fault.ofArithmetic, Fault.kind]))
    refine ⟨tokens, hscan, ?_⟩
    rcases hrejected.isAbout text with
      ⟨t, rest, rfl, ht, hempty⟩ | ⟨front, t, back, rfl, rfl, habout⟩
    · obtain ⟨rfl, rfl⟩ := eq_finish [] hscan ht
      exact .inl ⟨rfl, hempty⟩
    · obtain ⟨place, hplace⟩ := exists_standsAt (t := t) hscan (by simp)
      exact .inr ⟨front, t, back, place, rfl, rfl, hplace.position, hplace.finish,
        habout place hplace⟩

theorem fault_position_open_group :
    (evaluationReport "e#").outcome = .ok (.error (.unexpectedChar 1 '#')) ∧
      "e#".toList[1]? = some '#' ∧
      (evaluationReport "(e").outcome = .ok (.error (.malformed 0 .unmatchedOpen)) ∧
      "(e".toList[0]? = some '(' := by
  have hletter : lexemeAt 0 'e' ['#'] = .ok (some (.constant "e"), 0) := rfl
  have hmark : lexemeAt 1 '#' [] = .error (.unexpectedChar 1 '#') := rfl
  have hchar : parseText "e#" = .error (.fault (.unexpectedChar 1 '#')) := by
    have hscan : scan "e#" = .error (.unexpectedChar 1 '#') := by
      change scanFrom 0 ['e', '#'] = _
      rw [scanFrom_cons, hletter, ok_bind]
      change scanFrom 1 ['#'] >>= _ = _
      rw [scanFrom_cons, hmark]
      rfl
    rw [parseText, hscan]
  have hopen : parseText "(e" = .error (.fault (.malformed 0 .unmatchedOpen)) := by
    have hdivides : Divides [⟨['('], _, .openParen⟩,
        ⟨"e".toList, some (.constant "e"), .constant (by simp)⟩] ['(', 'e'] := by
      refine .cons (fun h => ?_) (.cons (fun h => ?_) .nil) <;> cases h
    rw [parseText, scan_of_divides "(e" hdivides]
    rfl
  refine ⟨outcome_of_parseText hchar, (fault_position "e#").1 1 '#' (outcome_of_parseText hchar),
    outcome_of_parseText hopen, ?_⟩
  obtain ⟨tokens, -, ⟨-, -, hempty⟩ | ⟨front, t, back, place, -, -, hplace, -, habout⟩⟩ :=
    (fault_position "(e").2 0 .unmatchedOpen (outcome_of_parseText hopen)
  · cases hempty
  · obtain rfl : place = 0 := by omega
    exact habout

end DeskCalculator
