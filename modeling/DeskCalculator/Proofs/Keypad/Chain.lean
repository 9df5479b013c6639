import DeskCalculator.Proofs.Keypad.Entry
import DeskCalculator.Proofs.Keypad.Run

namespace DeskCalculator

structure Link where
  op : Operator
  entry : Entry

namespace Link

def result (decimals : Int) (a : Binary64) (link : Link) : Except Failure Binary64 := do
  let x ← Binary64.ofText link.entry.text
  let value ← link.op.apply (.real a) (.real x)
  let rounded ← value.quantity.roundHalfUp (.int decimals)
  let shown ← rounded.display
  Binary64.ofText (String.ofList shown)

def keys (link : Link) : List Action :=
  .operator link.op.name :: link.entry.keys

def pending (o : Operand) (link : Link) : State :=
  ⟨link.entry.operand, some o, some link.op, false, ""⟩

def resolving : (after : List Link) → Action
  | [] => .equals
  | next :: _ => .operator next.op.name

end Link

namespace Chain

def keys (first : Entry) (links : List Link) : List Action :=
  first.keys ++ links.flatMap Link.keys

def result (decimals : Int) (first : Entry) (links : List Link) : Except Failure Binary64 := do
  let a ← Binary64.ofText first.text
  links.foldlM (Link.result decimals) a

variable {decimals : Int} {first : Entry} {links before : List Link} {link : Link}

theorem result_nil : result decimals first [] = .ok first.operand.value := by
  rw [result, first.ofText_text]
  rfl

theorem result_append (before after : List Link) : result decimals first (before ++ after) =
    result decimals first before >>= fun a => after.foldlM (Link.result decimals) a := by
  simp only [result, List.foldlM_append, bind_assoc]

theorem result_concat : result decimals first (before ++ [link]) =
    result decimals first before >>= fun a => link.result decimals a := by
  simp only [result_append, List.foldlM_cons, List.foldlM_nil, bind_pure]

theorem keys_concat : keys first (before ++ [link]) = keys first before ++ link.keys := by
  simp [keys]

theorem keys_split (before : List Link) (link : Link) (after : List Link) :
    ∃ rest, keys first (before ++ link :: after) ++ [.equals] =
      keys first (before ++ [link]) ++ Link.resolving after :: rest := by
  cases after with
  | nil => exact ⟨[], rfl⟩
  | cons next after =>
    exact ⟨next.entry.keys ++ after.flatMap Link.keys ++ [.equals],
      by simp [keys, Link.keys, Link.resolving]⟩

end Chain

section Resolving

variable {decimals : Int} {o : Operand} {link : Link} {r : State}

theorem Link.result_eq (link : Link) (o : Operand) (decimals : Int) :
    link.result decimals o.value =
      (link.pending o).evaluate decimals >>= fun r => .ok r.current.value := by
  have hevaluate : (link.pending o).evaluate decimals = _ := State.evaluate_pending rfl rfl
  rw [hevaluate, Link.result, link.entry.ofText_text]
  simp only [Operator.compute, bind_assoc, ok_bind, Operand.read_display]
  rfl

theorem Link.evaluate_pending (h : (link.pending o).evaluate decimals = .ok r) :
    r = ⟨r.current, none, none, true, ""⟩ ∧ r.current.value.display = .ok r.current.chars := by
  have hevaluate : (link.pending o).evaluate decimals = _ := State.evaluate_pending rfl rfl
  rw [hevaluate] at h
  obtain ⟨c, hc, hr⟩ := bind_eq_ok h
  obtain ⟨rounded, hvalue⟩ := Operator.ofValue_of_compute hc
  rw [← Except.ok.inj hr]
  exact ⟨rfl, Operand.display_of_ofValue hvalue⟩

theorem transition_operator {s : State} (h : s.evaluate decimals = .ok r) (op : Operator) :
    (Action.operator op.name).transition decimals s = .ok (.awaiting r.current op) :=
  State.transition_of_takes (.operator op.ofName_name h)

theorem afterAll_link {s : State} (h : s.evaluate decimals = .ok r) (link : Link) :
    s.afterAll decimals link.keys = .ok (link.pending r.current) := by
  rw [Link.keys, State.afterAll_cons (transition_operator h link.op),
    link.entry.afterAll_keys decimals (.inl rfl)]
  rfl

theorem transition_resolving {s : State} {failure : Failure}
    (h : s.evaluate decimals = .error failure) (after : List Link) :
    (Link.resolving after).transition decimals s = .error failure := by
  cases after with
  | nil => exact h
  | cons next after =>
    change Operator.ofName next.op.name >>= _ = _
    rw [Operator.ofName_name, ok_bind, State.chooseOperator, h, error_bind]

end Resolving

namespace Chain

variable {decimals : Int} {first : Entry} {links before : List Link} {a b : Binary64}

structure Leads (decimals : Int) (first : Entry) (links : List Link) (a : Binary64)
    (s r : State) : Prop where
  afterAll_keys : State.initial.afterAll decimals (keys first links) = .ok s
  evaluate : s.evaluate decimals = .ok r
  value : r.current.value = a
  shown : links ≠ [] → r = ⟨r.current, none, none, true, ""⟩ ∧ a.display = .ok r.current.chars

namespace Leads

variable {s r : State}

theorem nil : Leads decimals first [] first.operand.value
    (State.initial.typing first.operand) (State.initial.typing first.operand) where
  afterAll_keys := by
    rw [keys, List.flatMap_nil, List.append_nil]
    exact first.afterAll_keys decimals (.inr rfl)
  evaluate := State.evaluate_of_not_pending rfl
  value := rfl
  shown h := absurd rfl h

theorem afterAll_concat (h : Leads decimals first before a s r) (link : Link) :
    State.initial.afterAll decimals (keys first (before ++ [link])) =
      .ok (link.pending r.current) := by
  rw [keys_concat, State.afterAll_append h.afterAll_keys, afterAll_link h.evaluate]

theorem afterAll_equals (h : Leads decimals first links a s r) :
    State.initial.afterAll decimals (keys first links ++ [.equals]) = .ok r := by
  have hequals : Action.equals.transition decimals s = .ok r := h.evaluate
  rw [State.afterAll_append h.afterAll_keys, State.afterAll_cons hequals]
  rfl

theorem concat {link : Link} (h : Leads decimals first before a s r)
    (hb : link.result decimals a = .ok b) :
    ∃ t, Leads decimals first (before ++ [link]) b (link.pending r.current) t := by
  rw [← h.value, Link.result_eq] at hb
  obtain ⟨t, ht, hvalue⟩ := bind_eq_ok hb
  obtain ⟨hshape, hdisplay⟩ := Link.evaluate_pending ht
  exact ⟨t, h.afterAll_concat link, ht, Except.ok.inj hvalue,
    fun _ => ⟨hshape, Except.ok.inj hvalue ▸ hdisplay⟩⟩

end Leads

theorem exists_leads (h : result decimals first links = .ok a) :
    ∃ s r, Leads decimals first links a s r := by
  -- The last link waits beside the result of the links before it.
  induction links using List.reverseRecOn generalizing a with
  | nil =>
    rw [result_nil] at h
    rw [← Except.ok.inj h]
    exact ⟨_, _, .nil⟩
  | append_singleton before link ih =>
    rw [result_concat] at h
    obtain ⟨b, hb, hlink⟩ := bind_eq_ok h
    obtain ⟨s, r, hleads⟩ := ih hb
    exact ⟨_, hleads.concat hlink⟩

end Chain

namespace Session

variable {decimals : Int} {s : Session} {action : Action}

theorem fault_of_perform {fault : Fault}
    (h : action.transition s.decimals s.state = .error (.fault fault)) :
    ∃ u, (s.perform action).update = .ok u ∧ u.fault = some fault := by
  cases hc : clears action fault with
  | true =>
    rw [perform_clears h hc]
    exact ⟨_, rfl, rfl⟩
  | false =>
    rw [perform_keeps h hc]
    exact ⟨_, rfl, rfl⟩

/-- Chained entry is a left fold. As long as every step has a result, no action is answered by a
fault, every operator shows the result before it, and the equals key shows the last one. The first
step without a result is reported by the action that resolves it. -/
theorem chain_answers (h0 : 0 ≤ decimals) (h15 : decimals ≤ 15) (first : Entry)
    {links : List Link} (hne : links ≠ []) :
    (∀ a, Chain.result decimals first links = .ok a →
      (start decimals).Quiet (Chain.keys first links ++ [.equals]) ∧
      (∀ before link after, links = before ++ link :: after → before ≠ [] →
        ∃ b shown, Chain.result decimals first before = .ok b ∧ b.display = .ok shown ∧
          (((start decimals).run (Chain.keys first before)).perform
              (.operator link.op.name)).update =
            .ok ⟨String.ofList shown, String.ofList shown ++ " " ++ link.op.symbol, none⟩) ∧
      ∃ shown, a.display = .ok shown ∧
        let t := ((start decimals).run (Chain.keys first links ++ [.equals])).state
        t.display = String.ofList shown ∧ t.previous = none ∧ t.pending = none ∧
          t.resetOnNextDigit = true) ∧
    ∀ before link after a failure, links = before ++ link :: after →
      Chain.result decimals first before = .ok a → link.result decimals a = .error failure →
      (∃ rest, Chain.keys first links ++ [.equals] =
        Chain.keys first (before ++ [link]) ++ Link.resolving after :: rest) ∧
      (start decimals).Quiet (Chain.keys first (before ++ [link])) ∧
      ∃ fault u, failure = .fault fault ∧
        (((start decimals).run (Chain.keys first (before ++ [link]))).perform
          (Link.resolving after)).update = .ok u ∧ u.fault = some fault := by
  refine ⟨fun a ha => ?_, ?_⟩
  · obtain ⟨s, r, hleads⟩ := Chain.exists_leads ha
    have hall := hleads.afterAll_equals
    obtain ⟨hshape, hdisplay⟩ := hleads.shown hne
    refine ⟨quiet_of_afterAll (s := start decimals) hall, ?_, _, hdisplay, ?_⟩
    · rintro before link after rfl hbefore
      rw [Chain.result_append] at ha
      obtain ⟨b, hb, -⟩ := bind_eq_ok ha
      obtain ⟨t, u, hu⟩ := Chain.exists_leads hb
      refine ⟨b, _, hb, (hu.shown hbefore).2, ?_⟩
      rw [run_of_afterAll (s := start decimals) hu.afterAll_keys,
        perform_ok (transition_operator hu.evaluate link.op)]
      rfl
    · rw [run_of_afterAll (s := start decimals) hall]
      exact ⟨rfl, by rw [hshape], by rw [hshape], by rw [hshape]⟩
  · rintro before link after a failure rfl ha hfailure
    obtain ⟨s, r, hleads⟩ := Chain.exists_leads ha
    have hall := hleads.afterAll_concat link
    have hevaluate : (link.pending r.current).evaluate decimals = .error failure := by
      rw [← hleads.value, Link.result_eq] at hfailure
      exact eq_error_of_bind_ok hfailure
    refine ⟨Chain.keys_split before link after, quiet_of_afterAll (s := start decimals) hall, ?_⟩
    rcases (settles_evaluate (link.pending r.current) h0 h15).cases with
      ⟨t, -, ht⟩ | ⟨fault, -, hfault⟩
    · cases hevaluate.symm.trans ht
    · have hcause : failure = .fault fault := Except.error.inj (hevaluate.symm.trans hfault)
      rw [run_of_afterAll (s := start decimals) hall]
      obtain ⟨u, hu, hshown⟩ := fault_of_perform
        (s := ⟨link.pending r.current, decimals⟩) (transition_resolving hfault after)
      exact ⟨fault, u, hcause, hu, hshown⟩

theorem chain_answers_sum_times :
    ((start 8).run (Chain.keys ⟨"1", rfl⟩
      [⟨.add, ⟨"2.5", rfl⟩⟩, ⟨.multiply, ⟨"2.5", rfl⟩⟩] ++ [.equals])).state.display = "8.75" ∧
    ∃ u, (((start 8).run (Chain.keys ⟨"1", rfl⟩ [⟨.divide, ⟨"0", rfl⟩⟩])).perform
      (.operator "add")).update = .ok u ∧
        u.fault = some (.divisionByZero (.quotient (.real (.ofPlain ['1'])))) := by
  constructor
  · have hresult : Chain.result 8 ⟨"1", rfl⟩
        [⟨.add, ⟨"2.5", rfl⟩⟩, ⟨.multiply, ⟨"2.5", rfl⟩⟩] = .ok (.ofPlain ['8', '.', '7', '5']) :=
      eq_ok_of_toOption (by decide +kernel)
    have hshown : (Binary64.ofPlain ['8', '.', '7', '5']).display = .ok ['8', '.', '7', '5'] :=
      eq_ok_of_toOption (by decide +kernel)
    obtain ⟨-, -, shown, hdisplay, hstate, -⟩ :=
      (chain_answers (by decide) (by decide) ⟨"1", rfl⟩ (by simp)).1 _ hresult
    rw [hstate, ← Except.ok.inj (hshown.symm.trans hdisplay)]
  · have hfirst : Chain.result 8 ⟨"1", rfl⟩ [] = .ok (.ofPlain ['1']) :=
      eq_ok_of_toOption (by decide +kernel)
    have hzero : (Entry.operand ⟨"0", rfl⟩).value.isZero = true := by decide +kernel
    have hfailure : Link.result 8 (.ofPlain ['1']) ⟨.divide, ⟨"0", rfl⟩⟩ =
        .error (.fault (.divisionByZero (.quotient (.real (.ofPlain ['1']))))) := by
      rw [Link.result, Entry.ofText_text, ok_bind]
      change (Operation.over.apply _ _ >>= _) = _
      rw [Operation.apply_over_zero _ hzero, error_bind]
    obtain ⟨-, -, fault, u, hfault, hu, hshown⟩ :=
      (chain_answers (by decide) (by decide) ⟨"1", rfl⟩ (by simp)).2
        [] ⟨.divide, ⟨"0", rfl⟩⟩ [⟨.add, ⟨"2", rfl⟩⟩] _ _ rfl hfirst hfailure
    cases hfault
    exact ⟨u, hu, hshown⟩

end Session

end DeskCalculator
