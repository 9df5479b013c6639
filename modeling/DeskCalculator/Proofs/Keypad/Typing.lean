import DeskCalculator.Proofs.Keypad.Entry

namespace DeskCalculator

open Text Decimal

def withoutZeros (ds : List Char) : List Char :=
  if ds.dropWhile (· == '0') = [] then ['0'] else ds.dropWhile (· == '0')

def typedForm (w : List Char) : List Char :=
  withoutZeros (w.takeWhile (· != '.')) ++
    if '.' ∈ w then '.' :: (w.dropWhile (· != '.')).filter (· != '.') else []

section Form

variable {v w : List Char} {c : Char}

theorem takeWhile_ne_point (h : '.' ∉ w) : w.takeWhile (· != '.') = w :=
  List.takeWhile_eq_self_iff.mpr fun c hc => by
    simpa using fun heq : c = '.' => h (heq ▸ hc)

theorem typedForm_whole (h : '.' ∉ w) : typedForm w = withoutZeros w := by
  rw [typedForm, takeWhile_ne_point h, if_neg h, List.append_nil]

theorem typedForm_point (h : '.' ∉ v) (w : List Char) :
    typedForm (v ++ '.' :: w) = withoutZeros v ++ '.' :: w.filter (· != '.') := by
  have hall : ∀ c ∈ v, (c != '.') = true := List.takeWhile_eq_self_iff.mp (takeWhile_ne_point h)
  rw [typedForm, List.takeWhile_append_of_pos hall, List.dropWhile_append_of_pos hall,
    List.takeWhile_cons_of_neg (by decide), List.dropWhile_cons_of_neg (by decide),
    List.append_nil, if_pos (by simp), List.filter_cons_of_neg (by decide)]

example : typedForm "007.5.0".toList = "7.50".toList := by decide

theorem withoutZeros_concat (v : List Char) (c : Char) :
    withoutZeros (v ++ [c]) = if withoutZeros v = ['0'] then [c] else withoutZeros v ++ [c] := by
  have hfirst := List.head?_dropWhile_not (· == '0') v
  unfold withoutZeros
  rw [List.dropWhile_append]
  cases hds : v.dropWhile (· == '0') with
  | nil => by_cases hc : c = '0' <;> simp [hc]
  | cons d ds =>
    have hd : d ≠ '0' := by simpa [hds] using hfirst
    simp [hd]

theorem typedForm_concat_point (w : List Char) :
    typedForm (w ++ ['.']) = if '.' ∈ w then typedForm w else typedForm w ++ ['.'] := by
  by_cases h : '.' ∈ w
  · obtain ⟨v, u, rfl, hv⟩ := List.eq_append_cons_of_mem h
    rw [if_pos h, List.append_assoc, List.cons_append, typedForm_point hv, typedForm_point hv,
      List.filter_append, List.filter_cons_of_neg (by decide), List.filter_nil, List.append_nil]
  · rw [if_neg h, typedForm_point h, typedForm_whole h, List.filter_nil]

theorem typedForm_concat_digit (w : List Char) (hc : c ≠ '.') :
    typedForm (w ++ [c]) = if typedForm w = ['0'] then [c] else typedForm w ++ [c] := by
  by_cases h : '.' ∈ w
  · obtain ⟨v, u, rfl, hv⟩ := List.eq_append_cons_of_mem h
    have hne : withoutZeros v ++ '.' :: u.filter (· != '.') ≠ ['0'] := fun heq => by
      have hmem : '.' ∈ ['0'] := heq ▸ List.mem_append_right _ List.mem_cons_self
      exact absurd hmem (by decide)
    have hkept : [c].filter (· != '.') = [c] := by simp [hc]
    rw [List.append_assoc, List.cons_append, typedForm_point hv, typedForm_point hv, if_neg hne,
      List.filter_append, hkept, List.append_assoc, List.cons_append]
  · have hconcat : '.' ∉ w ++ [c] := by
      simpa using ⟨h, hc.symm⟩
    rw [typedForm_whole hconcat, typedForm_whole h, withoutZeros_concat]

end Form

def Keys (w : List Char) : Prop :=
  ∀ c ∈ w, c = '.' ∨ isDigit c = true

namespace Keys

variable {v w : List Char} {c : Char}

theorem append (hv : Keys v) (hw : Keys w) : Keys (v ++ w) := fun c hc =>
  (List.mem_append.mp hc).elim (hv c) (hw c)

theorem singleton (h : c = '.' ∨ isDigit c = true) : Keys [c] := by
  intro d hd
  rwa [List.mem_singleton.mp hd]

theorem whole_withoutZeros (h : AllDigits w) : Whole (withoutZeros w) := by
  have hdigits : AllDigits (w.dropWhile (· == '0')) := h.of_suffix (List.dropWhile_suffix _)
  have hfirst := List.head?_dropWhile_not (· == '0') w
  unfold withoutZeros
  cases hds : w.dropWhile (· == '0') with
  | nil => exact .zero
  | cons d ds =>
    rw [hds] at hdigits hfirst
    exact .digits (by simpa using hfirst) hdigits

theorem unsigned_typedForm (h : Keys w) : Unsigned (typedForm w) := by
  have hdigit {c : Char} (hc : c ∈ w) (hne : c ≠ '.') : isDigit c = true :=
    (h c hc).resolve_left hne
  by_cases hpoint : '.' ∈ w
  · obtain ⟨v, u, rfl, hv⟩ := List.eq_append_cons_of_mem hpoint
    rw [typedForm_point hv]
    refine .point (whole_withoutZeros fun c hc => ?_) fun c hc => ?_
    · exact hdigit (List.mem_append_left _ hc) fun heq => hv (heq ▸ hc)
    · obtain ⟨hmem, hne⟩ := List.mem_filter.mp hc
      exact hdigit (List.mem_append_right _ (List.mem_cons_of_mem _ hmem)) (by simpa using hne)
  · rw [typedForm_whole hpoint]
    exact .whole (whole_withoutZeros fun c hc => hdigit hc fun heq => hpoint (heq ▸ hc))

def operand (h : Keys w) : Operand :=
  h.unsigned_typedForm.operand

theorem operand_congr (h : Keys v) (h' : Keys w) (heq : typedForm v = typedForm w) :
    h.operand = h'.operand :=
  h.unsigned_typedForm.operand_congr h'.unsigned_typedForm heq

theorem hasPoint_operand (h : Keys w) (hpoint : '.' ∈ w) : h.operand.hasPoint = true := by
  obtain ⟨v, u, rfl, hv⟩ := List.eq_append_cons_of_mem hpoint
  change (typedForm (v ++ '.' :: u)).contains '.' = true
  rw [typedForm_point hv]
  simp

theorem hasPoint_operand_whole (h : Keys w) (hpoint : '.' ∉ w) : h.operand.hasPoint = false := by
  have hdigits : AllDigits (typedForm w) := by
    rw [typedForm_whole hpoint]
    exact (whole_withoutZeros fun c hc =>
      (h c hc).resolve_left fun heq => hpoint (heq ▸ hc)).allDigits
  change (typedForm w).contains '.' = false
  simpa using fun hmem => hdigits.ne_point _ hmem rfl

end Keys

section Typing

variable {v w : List Char} {c : Char} (decimals : Int) (s : State)

theorem transition_typed_key (h : Keys w) (hc : c = '.' ∨ isDigit c = true) :
    (Session.typed c).transition decimals (s.typing h.operand) =
      .ok (s.typing (h.append (.singleton hc)).operand) := by
  by_cases hpoint : c = '.'
  · subst hpoint
    by_cases hmem : '.' ∈ w
    · have hkept : (h.append (.singleton hc)).operand = h.operand :=
        Keys.operand_congr _ h ((typedForm_concat_point w).trans (if_pos hmem))
      rw [hkept]
      exact State.transition_of_takes (s := s.typing h.operand)
        (.noPoint rfl (h.hasPoint_operand hmem))
    · exact State.transition_of_takes (s := s.typing h.operand)
        (.nextPoint rfl (h.hasPoint_operand_whole hmem)
          ((typedForm_concat_point w).trans (if_neg hmem)))
  · have hdigit := hc.resolve_left hpoint
    have hform := typedForm_concat_digit w hpoint
    rw [typed_of_ne_point hpoint]
    by_cases hzero : typedForm w = ['0']
    · exact State.transition_of_takes (s := s.typing h.operand)
        (.digit hdigit (.inr hzero) (hform.trans (if_pos hzero)))
    · exact State.transition_of_takes (s := s.typing h.operand)
        (.nextDigit hdigit rfl hzero (hform.trans (if_neg hzero)))

theorem transition_typed_reset (hs : s.resetOnNextDigit = true)
    (hc : c = '.' ∨ isDigit c = true) :
    (Session.typed c).transition decimals s = .ok (s.typing (Keys.singleton hc).operand) := by
  by_cases hpoint : c = '.'
  · subst hpoint
    exact State.transition_of_takes (.point hs rfl)
  · have hform : typedForm [c] = [c] := typedForm_concat_digit [] hpoint
    rw [typed_of_ne_point hpoint]
    exact State.transition_of_takes (.digit (hc.resolve_left hpoint) (.inl hs) hform)

theorem afterAll_typing (hv : Keys v) (hw : Keys w) :
    (s.typing hv.operand).afterAll decimals (w.map Session.typed) =
      .ok (s.typing (hv.append hw).operand) := by
  induction w generalizing v with
  | nil =>
    rw [(hv.append hw).operand_congr hv (by rw [List.append_nil])]
    rfl
  | cons c w ih =>
    have hc := hw c List.mem_cons_self
    have hrest : Keys w := fun d hd => hw d (List.mem_cons_of_mem c hd)
    have hsame : typedForm (v ++ [c] ++ w) = typedForm (v ++ c :: w) := by
      rw [List.append_assoc, List.singleton_append]
    rw [List.map_cons, State.afterAll_cons (transition_typed_key decimals s hv hc),
      ih (hv.append (.singleton hc)) hrest, Keys.operand_congr _ (hv.append hw) hsame]

theorem afterAll_keys_typed {s : State} (hs : s = .initial ∨ s.resetOnNextDigit = true)
    (hne : w ≠ []) (hw : Keys w) :
    s.afterAll decimals (w.map Session.typed) = .ok (s.typing hw.operand) := by
  rcases hs with rfl | hreset
  · have hnone : Keys [] := nofun
    have hstart : State.initial = State.initial.typing hnone.operand := rfl
    rw [hstart, afterAll_typing decimals .initial hnone hw]
    rfl
  · obtain ⟨c, w, rfl⟩ := List.exists_cons_of_ne_nil hne
    have hc := hw c List.mem_cons_self
    have hrest : Keys w := fun d hd => hw d (List.mem_cons_of_mem c hd)
    rw [List.map_cons, State.afterAll_cons (transition_typed_reset decimals s hreset hc),
      afterAll_typing decimals s (.singleton hc) hrest]

end Typing

namespace State

variable {s : State} {decimals : Int}

theorem Coherent.typing_current (h : s.Coherent) (hr : s.resetOnNextDigit = false) :
    s.typing s.current = s := by
  have hecho : s.echo = "" := by
    by_contra hne
    exact Bool.false_ne_true (hr.symm.trans (h.of_echo hne).2.2)
  rw [State.typing, State.showing, ← hr, ← hecho]

theorem Coherent.backspace_typing (h : s.Coherent) (hr : s.resetOnNextDigit = false) {o : Operand}
    {c : Char} (ho : o.chars = s.current.chars ++ [c]) :
    Action.backspace.transition decimals (s.typing o) = .ok s := by
  have hunsigned := h.unsigned hr
  have hkept : ¬(o.chars.dropLast = [] ∨ o.chars.dropLast = ['-']) := by
    rw [ho, List.dropLast_concat]
    rintro (hnil | hminus)
    · exact hunsigned.plain.ne_nil hnil
    · exact hunsigned.not_mem_minus (hminus ▸ List.mem_cons_self)
  have htaken : s.current.chars = if o.chars.dropLast = [] ∨ o.chars.dropLast = ['-'] then ['0']
      else o.chars.dropLast := by
    rw [if_neg hkept, ho, List.dropLast_concat]
  rw [transition_of_takes (s := s.typing o) (.backspace htaken)]
  exact congrArg Except.ok (h.typing_current hr)

theorem Coherent.backspace_digit (h : s.Coherent) (hr : s.resetOnNextDigit = false) {d : Char}
    (hd : isDigit d = true) :
    ∃ t, (Action.digit (String.singleton d)).transition decimals s = .ok t ∧
      Action.backspace.transition decimals t = .ok s := by
  by_cases hzero : s.current.chars = ['0']
  · -- The digit takes the place of the zero, which comes back when nothing else is left.
    have hform : typedForm [d] = [d] := typedForm_concat_digit [] (by rintro rfl; cases hd)
    have hkeys : Keys [d] := .singleton (.inr hd)
    refine ⟨s.typing hkeys.operand, transition_of_takes (.digit hd (.inr hzero) hform), ?_⟩
    have htaken : s.current.chars = if hkeys.operand.chars.dropLast = [] ∨
        hkeys.operand.chars.dropLast = ['-'] then ['0'] else hkeys.operand.chars.dropLast := by
      rw [show hkeys.operand.chars = [d] from hform, hzero]
      rfl
    rw [transition_of_takes (s := s.typing hkeys.operand) (.backspace htaken)]
    exact congrArg Except.ok (h.typing_current hr)
  · have hnext := (h.unsigned hr).append_digits hzero (allDigits_cons.mpr ⟨hd, allDigits_nil⟩)
    exact ⟨s.typing hnext.operand, transition_of_takes (.nextDigit hd hr hzero rfl),
      h.backspace_typing hr rfl⟩

theorem Coherent.backspace_point (h : s.Coherent) (hr : s.resetOnNextDigit = false)
    (hpoint : s.current.hasPoint = false) :
    ∃ t, Action.point.transition decimals s = .ok t ∧ t.current.hasPoint = true ∧
      Action.backspace.transition decimals t = .ok s := by
  have hmem : '.' ∉ s.current.chars := by simpa [Operand.hasPoint] using hpoint
  have hnext := (h.unsigned hr).append_point hmem
  refine ⟨s.typing hnext.operand, transition_of_takes (.nextPoint hr hpoint rfl), ?_,
    h.backspace_typing hr rfl⟩
  change (s.current.chars ++ ['.']).contains '.' = true
  simp

end State

/-- Digits and points, typed in any order over a result or at the start, are never refused and show
their form; what waits is kept. While a number is being typed, taking a character away undoes a
digit and a point, unless the point was ignored. -/
theorem typing_exact (decimals : Int) :
    (∀ (s : State) (w : List Char), s = .initial ∨ s.resetOnNextDigit = true → w ≠ [] → Keys w →
      ∃ t, s.afterAll decimals (w.map Session.typed) = .ok t ∧
        t.display = String.ofList (typedForm w) ∧ t.resetOnNextDigit = false ∧ t.echo = "" ∧
        t.previous = s.previous ∧ t.pending = s.pending) ∧
    ∀ actions : List Action, let s := ((Session.start decimals).run actions).state
      s.resetOnNextDigit = false →
        (∀ d, isDigit d = true → ∃ t,
          (Action.digit (String.singleton d)).transition decimals s = .ok t ∧
            Action.backspace.transition decimals t = .ok s) ∧
        (s.current.hasPoint = true → Action.point.transition decimals s = .ok s) ∧
        (s.current.hasPoint = false → ∃ t, Action.point.transition decimals s = .ok t ∧
          t.current.hasPoint = true ∧ Action.backspace.transition decimals t = .ok s) := by
  refine ⟨fun s w hs hne hw => ?_, fun actions => ?_⟩
  · exact ⟨_, afterAll_keys_typed decimals hs hne hw, rfl, rfl, rfl, rfl, rfl⟩
  · intro s hr
    have hcoherent : s.Coherent := Session.coherent_run (s := .start decimals) .initial actions
    exact ⟨fun d hd => hcoherent.backspace_digit hr hd,
      fun hpoint => State.transition_of_takes (.noPoint hr hpoint),
      fun hpoint => hcoherent.backspace_point hr hpoint⟩

theorem typing_exact_after_result :
    (∃ t, (State.resolved .zero "1-1 =").afterAll 8 ("00.5.0".toList.map Session.typed) = .ok t ∧
      t.display = "0.50" ∧ t.echo = "") ∧
    ∃ t, (Action.digit "7").transition 8 ((Session.start 8).run [.digit "0"]).state = .ok t ∧
      Action.backspace.transition 8 t = .ok ((Session.start 8).run [.digit "0"]).state := by
  have hall : "00.5.0".toList.all (fun c => c = '.' || isDigit c) = true := by decide
  have hkeys : Keys "00.5.0".toList := fun c hc => by
    simpa using List.all_eq_true.mp hall c hc
  obtain ⟨t, ht, hdisplay, -, hecho, -⟩ :=
    (typing_exact 8).1 (.resolved .zero "1-1 =") "00.5.0".toList (.inr rfl) (by decide) hkeys
  refine ⟨⟨t, ht, hdisplay.trans (by decide), hecho⟩, ?_⟩
  exact ((typing_exact 8).2 [.digit "0"] (by decide)).1 '7' (by decide)

end DeskCalculator
