import DeskCalculator.Proofs.Keypad.Invariant

namespace DeskCalculator

open Text Decimal

namespace Unsigned

variable {cs ds : List Char} {c : Char}

theorem isDigit (h : Unsigned cs) (hc : c ∈ cs) (hne : c ≠ '.') : isDigit c = true := by
  cases h with
  | whole hw => exact hw.allDigits c hc
  | point hw hf =>
    rcases List.mem_append.mp hc with hwhole | htail
    · exact hw.allDigits c hwhole
    · rcases List.mem_cons.mp htail with hpoint | hfraction
      · exact absurd hpoint hne
      · exact hf c hfraction

theorem count_point_le (h : Unsigned cs) : cs.count '.' ≤ 1 := by
  have hnone {ds : List Char} (hd : AllDigits ds) : ds.count '.' = 0 :=
    List.count_eq_zero.mpr fun hmem => hd.ne_point _ hmem rfl
  cases h with
  | whole hw => simp [hnone hw.allDigits]
  | point hw hf => simp [hnone hw.allDigits, hnone hf]

theorem not_mem_point (h : Unsigned (cs ++ ['.'])) : '.' ∉ cs := by
  intro hmem
  have hpos : 0 < cs.count '.' := List.count_pos_iff.mpr hmem
  have hcount := h.count_point_le
  rw [List.count_append, List.count_singleton_self] at hcount
  omega

theorem ne_point (h : Unsigned cs) : cs ≠ ['.'] := by
  rintro rfl
  have hoperand : isUnsignedOperand ['.'] = true := isUnsignedOperand_iff.mpr h
  exact absurd hoperand (by decide)

theorem ne_zero (h : Unsigned (cs ++ [c])) (hc : c ≠ '.') : cs ≠ ['0'] := by
  rintro rfl
  have hdigit : Text.isDigit c = true := h.isDigit (by simp) hc
  have hzero : Text.isDigit '0' = true := rfl
  have hoperand : isUnsignedOperand ['0', c] = true := isUnsignedOperand_iff.mpr h
  simp [isUnsignedOperand, isWholePart, hdigit, hzero] at hoperand

def operand (h : Unsigned cs) : Operand :=
  ⟨cs, isOperand_iff.mpr ⟨false, cs, h, rfl⟩⟩

theorem operand_congr (h : Unsigned cs) (h' : Unsigned ds) (heq : cs = ds) :
    h.operand = h'.operand := by
  subst heq
  rfl

end Unsigned

namespace State

def afterAll (s : State) (decimals : Int) (actions : List Action) : Except Failure State :=
  actions.foldlM (fun s action => action.transition decimals s) s

variable {s t : State} {decimals : Int}

theorem afterAll_append {actions : List Action} (h : s.afterAll decimals actions = .ok t)
    (others : List Action) :
    s.afterAll decimals (actions ++ others) = t.afterAll decimals others := by
  unfold afterAll at h ⊢
  rw [List.foldlM_append, h, ok_bind]

theorem afterAll_cons {action : Action} (h : action.transition decimals s = .ok t)
    (actions : List Action) :
    s.afterAll decimals (action :: actions) = t.afterAll decimals actions := by
  unfold afterAll
  rw [List.foldlM_cons, h, ok_bind]

end State

section Typing

variable {s : State} {cs ds : List Char} {c : Char} (decimals : Int)

theorem typed_of_ne_point (hc : c ≠ '.') : Session.typed c = .digit (String.singleton c) :=
  if_neg hc

theorem transition_typed_first (hs : s.resetOnNextDigit = true ∨ s.current = .zero)
    (h : Unsigned [c]) : (Session.typed c).transition decimals s = .ok (s.typing h.operand) := by
  have hc : c ≠ '.' := fun hpoint => h.ne_point (congrArg ([·]) hpoint)
  have hdigit : isDigit c = true := h.isDigit (by simp) hc
  have hreplaces : s.resetOnNextDigit = true ∨ s.current.chars = ['0'] :=
    hs.imp_right (congrArg Operand.chars)
  rw [typed_of_ne_point hc]
  exact State.transition_of_takes (.digit hdigit hreplaces rfl)

theorem transition_typed_next (h : Unsigned cs) (h' : Unsigned (cs ++ [c])) :
    (Session.typed c).transition decimals (s.typing h.operand) =
      .ok (s.typing h'.operand) := by
  by_cases hc : c = '.'
  · subst hc
    have hpoint : h.operand.hasPoint = false := by
      change cs.contains '.' = false
      simpa using h'.not_mem_point
    exact State.transition_of_takes (s := s.typing h.operand) (.nextPoint rfl hpoint rfl)
  · have hdigit : isDigit c = true := h'.isDigit (by simp) hc
    rw [typed_of_ne_point hc]
    exact State.transition_of_takes (s := s.typing h.operand)
      (.nextDigit hdigit rfl (h'.ne_zero hc) rfl)

theorem afterAll_typed (s : State) (h : Unsigned cs) (h' : Unsigned (cs ++ ds)) :
    (s.typing h.operand).afterAll decimals (ds.map Session.typed) =
      .ok (s.typing h'.operand) := by
  -- What is typed grows by a character, and is always the start of one operand.
  induction ds generalizing cs with
  | nil =>
    rw [h.operand_congr h' (List.append_nil cs).symm]
    rfl
  | cons c ds ih =>
    have hassoc : cs ++ c :: ds = cs ++ [c] ++ ds := by simp
    have hnext : Unsigned (cs ++ [c]) :=
      h'.of_prefix (by rw [hassoc]; exact List.prefix_append _ _) (by simp)
    have hrest : Unsigned (cs ++ [c] ++ ds) := hassoc ▸ h'
    rw [List.map_cons, State.afterAll_cons (transition_typed_next decimals h hnext),
      ih hnext hrest, hrest.operand_congr h' hassoc.symm]

end Typing

namespace Session

def Quiet (s : Session) (actions : List Action) : Prop :=
  ∀ before action after, actions = before ++ action :: after →
    ∃ u, ((s.run before).perform action).update = .ok u ∧ u.fault = none

theorem run_of_afterAll {s : Session} {t : State} {actions : List Action}
    (h : s.state.afterAll s.decimals actions = .ok t) : s.run actions = { s with state := t } := by
  induction actions generalizing s with
  | nil =>
    rw [← Except.ok.inj h]
    rfl
  | cons action actions ih =>
    obtain ⟨next, hnext, hrest⟩ := bind_eq_ok h
    change (s.perform action).session.run actions = _
    rw [perform_ok hnext]
    exact ih hrest

theorem quiet_of_afterAll {s : Session} {t : State} {actions : List Action}
    (h : s.state.afterAll s.decimals actions = .ok t) : s.Quiet actions := by
  rintro before action after rfl
  unfold State.afterAll at h
  rw [List.foldlM_append] at h
  obtain ⟨middle, hmiddle, hrest⟩ := bind_eq_ok h
  obtain ⟨next, hnext, -⟩ := bind_eq_ok hrest
  rw [run_of_afterAll hmiddle, perform_ok hnext]
  exact ⟨_, rfl, rfl⟩

end Session

structure Entry where
  text : String
  isUnsignedOperand_text : isUnsignedOperand text.toList = true

namespace Entry

variable (e : Entry)

def keys : List Action :=
  e.text.toList.map Session.typed

theorem unsigned : Unsigned e.text.toList :=
  isUnsignedOperand_iff.mp e.isUnsignedOperand_text

def operand : Operand :=
  e.unsigned.operand

theorem ofText_text : Binary64.ofText e.text = .ok e.operand.value := by
  have htext : e.operand.text = e.text := String.ofList_toList
  rw [← htext, Operand.ofText_text]

theorem afterAll_keys (decimals : Int) {s : State}
    (hs : s.resetOnNextDigit = true ∨ s.current = .zero) :
    s.afterAll decimals e.keys = .ok (s.typing e.operand) := by
  obtain ⟨c, cs, hcs⟩ := List.exists_cons_of_ne_nil e.unsigned.plain.ne_nil
  have hall : Unsigned ([c] ++ cs) := by
    rw [List.singleton_append, ← hcs]
    exact e.unsigned
  have hfirst : Unsigned [c] := hall.of_prefix (List.prefix_append _ _) (by simp)
  have hoperand : hall.operand = e.operand := hall.operand_congr e.unsigned hcs.symm
  rw [keys, hcs, List.map_cons, State.afterAll_cons (transition_typed_first decimals hs hfirst),
    afterAll_typed decimals s hfirst hall, hoperand]

end Entry

end DeskCalculator
