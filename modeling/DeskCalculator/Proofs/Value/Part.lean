import DeskCalculator.Value.Part
import DeskCalculator.Proofs.Outcome

namespace DeskCalculator

theorem Scalar.same_text {a : Scalar} {name : String} :
    a.same (.text name) = true ↔ a = .text name := by
  have htext : (Scalar.text name).amount? = none := rfl
  unfold same
  rw [htext]
  cases h : a.amount? with
  | none =>
    constructor
    · intro hsame
      exact of_decide_eq_true (Bool.and_eq_true_iff.mp hsame).1
    · rintro rfl
      simp
  | some m =>
    constructor
    · intro hsame
      cases hsame
    · rintro rfl
      cases h

namespace Entries

theorem exists_mem_of_get? {entries : Entries} {name : String} {x : Value}
    (h : entries.get? (.text name) = some x) : (.text name, x) ∈ entries := by
  obtain ⟨⟨key, y⟩, hfind, rfl⟩ := Option.map_eq_some_iff.mp h
  have hsame := List.find?_some hfind
  obtain rfl : key = .text name := Scalar.same_text.mp hsame
  exact List.mem_of_find?_eq_some hfind

end Entries

namespace Value

variable {v x : Value} {name : String}

theorem field_dict {entries : Entries} :
    (Value.dict entries).field name = .ok x ↔ entries.get? (.text name) = some x := by
  cases h : entries.get? (.text name) <;> simp [field, h]

theorem field_singleton (name : String) (x : Value) :
    (Value.dict [(.text name, x)]).field name = .ok x := by
  have hsame : (Scalar.text name).same (.text name) = true := Scalar.same_text.mpr rfl
  simp [field_dict, Entries.get?, hsame]

theorem eq_dict_of_field (h : v.field name = .ok x) : ∃ entries, v = .dict entries := by
  cases v with
  | dict entries => exact ⟨entries, rfl⟩
  | scalar s => cases h
  | list xs => cases h
  | tuple xs => cases h

theorem mentions_of_field (h : v.field name = .ok x) : v.mentions name = .ok true := by
  obtain ⟨entries, rfl⟩ := eq_dict_of_field h
  simp [mentions, field_dict.mp h]

theorem kind_eq_dict : v.kind = .dict ↔ ∃ entries, v = .dict entries := by
  cases v with
  | dict entries => simp [kind]
  | scalar s => cases s <;> simp [kind, Scalar.kind]
  | list xs => simp [kind]
  | tuple xs => simp [kind]

theorem exists_mentions (h : v.kind = .dict) (name : String) : ∃ b, v.mentions name = .ok b := by
  obtain ⟨entries, rfl⟩ := kind_eq_dict.mp h
  exact ⟨_, rfl⟩

theorem exists_field (h : v.kind = .dict) (hm : v.mentions name = .ok true) :
    ∃ x, v.field name = .ok x := by
  obtain ⟨entries, rfl⟩ := kind_eq_dict.mp h
  obtain ⟨x, hx⟩ := Option.isSome_iff_exists.mp (Except.ok.inj hm)
  exact ⟨x, field_dict.mpr hx⟩

theorem isText_iff : v.isText name = true ↔ v = .text name := by
  cases v with
  | scalar s => cases s <;> simp [isText, Value.text]
  | list xs => simp [isText, Value.text]
  | tuple xs => simp [isText, Value.text]
  | dict entries => simp [isText, Value.text]

theorem pair?_eq_some {y : Value} :
    v.pair? = some (x, y) ↔ v = .list [x, y] ∨ v = .tuple [x, y] := by
  constructor
  · intro h
    unfold pair? at h
    split at h
    · cases h
      exact .inl rfl
    · cases h
      exact .inr rfl
    · cases h
  · rintro (rfl | rfl) <;> rfl

/-- A value that can be looked up: a scalar, or a tuple of such values. -/
inductive IsHashable : Value → Prop where
  | scalar (s : Scalar) : IsHashable (.scalar s)
  | tuple {xs : List Value} : (∀ x ∈ xs, x.IsHashable) → IsHashable (.tuple xs)

mutual

theorem unhashable?_eq_none : (v : Value) → (v.unhashable? = none ↔ v.IsHashable)
  | .scalar s => by
    rw [unhashable?]
    exact iff_of_true rfl (.scalar s)
  | .list xs => by
    rw [unhashable?]
    exact iff_of_false nofun nofun
  | .tuple xs => by
    rw [unhashable?, firstUnhashable?_eq_none xs]
    exact ⟨.tuple, fun h => by cases h with | tuple hxs => exact hxs⟩
  | .dict entries => by
    rw [unhashable?]
    exact iff_of_false nofun nofun

theorem firstUnhashable?_eq_none :
    (xs : List Value) → (firstUnhashable? xs = none ↔ ∀ x ∈ xs, x.IsHashable)
  | [] => by simp [firstUnhashable?]
  | x :: xs => by
    rw [firstUnhashable?, List.forall_mem_cons, ← unhashable?_eq_none x,
      ← firstUnhashable?_eq_none xs]
    cases x.unhashable? <;> simp

end

end Value

def Fits {α : Type} (x : Except Failure α) : Prop :=
  ∀ e, x = .error e → ∃ m, e = .misuse m

namespace Fits

variable {α β : Type}

theorem ok (a : α) : Fits (.ok a : Except Failure α) := by
  intro e h
  cases h

theorem misuse (m : Misuse) : Fits (.error (.misuse m) : Except Failure α) := by
  intro e h
  cases h
  exact ⟨m, rfl⟩

theorem bind {x : Except Failure α} {f : α → Except Failure β} (hx : Fits x)
    (hf : ∀ a, Fits (f a)) : Fits (x >>= f) := by
  cases x with
  | ok a => exact hf a
  | error e =>
    obtain ⟨m, rfl⟩ := hx e rfl
    exact misuse m

theorem mapM {f : α → Except Failure β} (hf : ∀ a, Fits (f a)) (as : List α) :
    Fits (as.mapM f) := by
  induction as with
  | nil => exact ok []
  | cons a as ih =>
    rw [List.mapM_cons]
    exact (hf a).bind fun b => ih.bind fun bs => ok _

theorem cases {x : Except Failure α} (h : Fits x) :
    (∃ a, x = .ok a) ∨ ∃ m, x = .error (.misuse m) := by
  cases x with
  | ok a => exact .inl ⟨a, rfl⟩
  | error e =>
    obtain ⟨m, rfl⟩ := h e rfl
    exact .inr ⟨m, rfl⟩

end Fits

namespace Value

theorem fits_field (v : Value) (name : String) : Fits (v.field name) := by
  cases v with
  | dict entries =>
    cases h : Entries.get? entries (.text name) with
    | none =>
      simp only [field, h]
      exact .misuse _
    | some x =>
      simp only [field, h]
      exact .ok x
  | scalar s => exact .misuse _
  | list xs => exact .misuse _
  | tuple xs => exact .misuse _

theorem fits_mentions (v : Value) (name : String) : Fits (v.mentions name) := by
  cases v with
  | dict entries => exact .ok _
  | list xs => exact .ok _
  | tuple xs => exact .ok _
  | scalar s => cases s <;> first | exact .ok _ | exact .misuse _

theorem fits_entries (v : Value) : Fits v.entries := by
  cases v with
  | dict entries => exact .ok entries
  | scalar s => exact .misuse _
  | list xs => exact .misuse _
  | tuple xs => exact .misuse _

theorem fits_item (v : Value) (i : Nat) : Fits (v.item i) := by
  unfold item
  split
  · split
    · exact .ok _
    · exact .misuse _
  · split
    · exact .ok _
    · exact .misuse _
  · split
    · exact .ok _
    · exact .misuse _
  · split
    · exact .ok _
    · exact .misuse _
  · exact .misuse _

theorem lookUp_cases {α : Type} (v : Value) (table : String → Option α) :
    (v.IsHashable ∧ ∃ found, v.lookUp table = .ok found ∧
        ∀ a, found = some a ↔ ∃ s, v = .text s ∧ table s = some a) ∨
      (¬v.IsHashable ∧ ∃ m, v.lookUp table = .error (.misuse m)) := by
  unfold lookUp
  split
  · rename_i s
    exact .inl ⟨.scalar _, _, rfl, fun a => by simp [text]⟩
  · rename_i hv
    rw [← v.unhashable?_eq_none]
    cases v.unhashable? with
    | none =>
      refine .inl ⟨rfl, none, rfl, fun a => iff_of_false nofun ?_⟩
      rintro ⟨s, hs, -⟩
      exact hv s hs
    | some k => exact .inr ⟨nofun, _, rfl⟩

end Value

end DeskCalculator
