import DeskCalculator.Proofs.Desk.Start
import DeskCalculator.Proofs.Value.Part

namespace DeskCalculator

namespace Scalar

variable {a b c : Scalar}

theorem same_comm (a b : Scalar) : a.same b = b.same a := by
  unfold same
  cases a.amount? with
  | none =>
    cases b.amount? with
    | none =>
      by_cases h : a = b
      · rw [h]
      · simp [h, Ne.symm h]
    | some n => rfl
  | some m =>
    cases b.amount? with
    | none => rfl
    | some n => simp [eq_comm]

theorem same_trans (hab : a.same b = true) (hbc : b.same c = true) : a.same c = true := by
  unfold same at *
  cases ha : a.amount? with
  | none =>
    cases hb : b.amount? with
    | none =>
      simp only [ha, hb, Bool.and_eq_true, decide_eq_true_eq] at hab
      obtain ⟨rfl, -⟩ := hab
      simpa only [ha] using hbc
    | some n => simp [ha, hb] at hab
  | some m =>
    cases hb : b.amount? with
    | none => simp [ha, hb] at hab
    | some n =>
      simp only [ha, hb, decide_eq_true_eq] at hab
      subst hab
      cases hc : c.amount? with
      | none => simp [hb, hc] at hbc
      | some l => simpa [hb, hc] using hbc

theorem same_congr (h : a.same b = true) (c : Scalar) : c.same a = c.same b := by
  have h' : b.same a = true := (same_comm b a).trans h
  exact Bool.eq_iff_iff.mpr ⟨fun hc => same_trans hc h, fun hc => same_trans hc h'⟩

end Scalar

namespace Entries

variable {entries base : Entries} {j k : Scalar} {v : Value}

def keys (entries : Entries) : List Scalar :=
  entries.map (·.1)

def KeysDiffer (entries : Entries) : Prop :=
  entries.Pairwise fun d e => d.1.same e.1 = false

theorem get?_cons (k : Scalar) (v : Value) (rest : Entries) (j : Scalar) :
    get? ((k, v) :: rest) j = if k.same j then some v else get? rest j := by
  by_cases h : k.same j = true <;> simp [get?, h]

theorem get?_congr (h : j.same k = true) (entries : Entries) : entries.get? j = entries.get? k := by
  have hsame : (fun e : Scalar × Value => e.1.same j) = fun e => e.1.same k :=
    funext fun e => Scalar.same_congr h e.1
  rw [get?, hsame, get?]

theorem get?_set (entries : Entries) (k : Scalar) (v : Value) (j : Scalar) :
    (entries.set k v).get? j = if k.same j then some v else entries.get? j := by
  induction entries with
  | nil => exact get?_cons k v [] j
  | cons e rest ih =>
    obtain ⟨k', u⟩ := e
    by_cases hk : k'.same k = true
    · have hj : k'.same j = k.same j := by
        rw [Scalar.same_comm k', Scalar.same_comm k, Scalar.same_congr hk]
      rw [set, if_pos hk, get?_cons, get?_cons, hj]
      split <;> rfl
    · rw [set, if_neg hk, get?_cons, get?_cons, ih]
      by_cases hj : k.same j = true
      · have hj' : ¬k'.same j = true := by rwa [← Scalar.same_congr hj]
        rw [if_neg hj', if_pos hj, if_pos hj]
      · rw [if_neg hj, if_neg hj]

theorem keys_set (entries : Entries) (k : Scalar) (v : Value) :
    (entries.set k v).keys =
      if (entries.get? k).isSome then entries.keys else entries.keys ++ [k] := by
  induction entries with
  | nil => rfl
  | cons e rest ih =>
    obtain ⟨k', u⟩ := e
    by_cases hk : k'.same k = true
    · rw [set, if_pos hk, get?_cons, if_pos hk]
      rfl
    · rw [set, if_neg hk, get?_cons, if_neg hk]
      change k' :: keys (set rest k v) = _
      rw [ih]
      split <;> rfl

theorem KeysDiffer.get?_tail {rest : Entries} (h : KeysDiffer ((k, v) :: rest))
    (hj : k.same j = true) : rest.get? j = none := by
  have hrest := (List.pairwise_cons.mp h).1
  rw [get?, Option.map_eq_none_iff, List.find?_eq_none]
  intro e he hsame
  have hke : k.same e.1 = true := Scalar.same_trans hj ((Scalar.same_comm j e.1).trans hsame)
  exact Bool.false_ne_true ((hrest e he).symm.trans hke)

theorem get?_overlay (h : entries.KeysDiffer) (base : Entries) (j : Scalar) :
    get? (overlay base entries) j =
      match entries.get? j with
      | some v => some (replace (base.get? j) v)
      | none => base.get? j := by
  induction entries generalizing base with
  | nil => rw [overlay]; rfl
  | cons e rest ih =>
    obtain ⟨k, v⟩ := e
    rw [overlay, ih (List.pairwise_cons.mp h).2, get?_set, get?_cons]
    by_cases hj : k.same j = true
    · rw [h.get?_tail hj, if_pos hj, if_pos hj, get?_congr hj]
    · rw [if_neg hj, if_neg hj]

theorem keys_overlay (h : entries.KeysDiffer) (base : Entries) :
    keys (overlay base entries) =
      base.keys ++ entries.keys.filter fun k => (base.get? k).isNone := by
  induction entries generalizing base with
  | nil => rw [overlay]; exact (List.append_nil _).symm
  | cons e rest ih =>
    obtain ⟨k, v⟩ := e
    have hrest :
        (keys rest).filter (fun j => ((base.set k (replace (base.get? k) v)).get? j).isNone) =
          (keys rest).filter fun j => (base.get? j).isNone := by
      refine List.filter_congr fun j hj => ?_
      obtain ⟨d, hd, rfl⟩ := List.mem_map.mp hj
      rw [get?_set, if_neg (by simpa using (List.pairwise_cons.mp h).1 d hd)]
    rw [overlay, ih (List.pairwise_cons.mp h).2, hrest, keys_set]
    change _ = base.keys ++ (k :: keys rest).filter _
    cases hk : base.get? k <;> simp [hk]

end Entries

namespace Value

variable {u v w : Value} {p q : List Scalar}

def at? : Value → List Scalar → Option Value
  | v, [] => some v
  | .dict entries, k :: path => (Entries.get? entries k).bind fun v => at? v path
  | _, _ :: _ => none

def KeysDiffer (v : Value) : Prop :=
  ∀ path entries, v.at? path = some (.dict entries) → Entries.KeysDiffer entries

def Blocks (v : Value) (path : List Scalar) : Prop :=
  ∃ front rest w, path = front ++ rest ∧ rest ≠ [] ∧ v.at? front = some w ∧ w.kind ≠ .dict

def Lacks (v : Value) (path : List Scalar) : Prop :=
  ∃ front k rest entries, path = front ++ k :: rest ∧ v.at? front = some (.dict entries) ∧
    Entries.get? entries k = none

theorem at?_of_kind (h : v.kind ≠ .dict) (hp : p ≠ []) : v.at? p = none := by
  obtain ⟨k, p, rfl⟩ := List.exists_cons_of_ne_nil hp
  cases v with
  | dict entries => exact absurd rfl h
  | scalar s => rfl
  | list xs => rfl
  | tuple xs => rfl

theorem at?_append (v : Value) (p q : List Scalar) :
    v.at? (p ++ q) = (v.at? p).bind fun w => w.at? q := by
  induction p generalizing v with
  | nil => rw [List.nil_append, at?, Option.bind_some]
  | cons k p ih =>
    cases v with
    | dict entries =>
      rw [List.cons_append, at?, at?, Option.bind_assoc]
      exact congrArg _ (funext ih)
    | scalar s => rfl
    | list xs => rfl
    | tuple xs => rfl

theorem Blocks.at?_eq_none (h : v.Blocks p) : v.at? p = none := by
  obtain ⟨front, rest, w, rfl, hrest, hfront, hw⟩ := h
  rw [at?_append, hfront, Option.bind_some, at?_of_kind hw hrest]

theorem Lacks.at?_eq_none (h : v.Lacks p) : v.at? p = none := by
  obtain ⟨front, k, rest, entries, rfl, hfront, hk⟩ := h
  rw [at?_append, hfront, Option.bind_some, at?, hk, Option.bind_none]

theorem at?_eq_none_iff : v.at? p = none ↔ v.Blocks p ∨ v.Lacks p := by
  refine ⟨fun h => ?_, fun h => h.elim Blocks.at?_eq_none Lacks.at?_eq_none⟩
  induction p generalizing v with
  | nil => exact absurd h (by simp [at?])
  | cons k p ih =>
    by_cases hv : v.kind = .dict
    · obtain ⟨entries, rfl⟩ := kind_eq_dict.mp hv
      cases hk : Entries.get? entries k with
      | none => exact .inr ⟨[], k, p, entries, rfl, rfl, hk⟩
      | some w =>
        have below (front : List Scalar) : (Value.dict entries).at? (k :: front) = w.at? front := by
          rw [at?, hk, Option.bind_some]
        rw [below] at h
        rcases ih h with ⟨front, rest, u, rfl, hrest, hfront, hu⟩ |
          ⟨front, j, rest, e, rfl, hfront, hj⟩
        · exact .inl ⟨k :: front, rest, u, rfl, hrest, (below front).trans hfront, hu⟩
        · exact .inr ⟨k :: front, j, rest, e, rfl, (below front).trans hfront, hj⟩
    · exact .inl ⟨[], k :: p, v, rfl, List.cons_ne_nil k p, rfl, hv⟩

theorem keysDiffer_of_kind (h : v.kind ≠ .dict) : v.KeysDiffer := by
  intro path entries hpath
  by_cases hnil : path = []
  · rw [hnil, at?, Option.some_inj] at hpath
    exact absurd (kind_eq_dict.mpr ⟨entries, hpath⟩) h
  · rw [at?_of_kind h hnil] at hpath
    cases hpath

theorem keysDiffer_dict {entries : Entries} (h : entries.KeysDiffer)
    (hparts : ∀ e ∈ entries, e.2.KeysDiffer) : (Value.dict entries).KeysDiffer := by
  intro path d hpath
  cases path with
  | nil => cases hpath; exact h
  | cons k path =>
    rw [at?] at hpath
    obtain ⟨w, hw, hbelow⟩ := Option.bind_eq_some_iff.mp hpath
    obtain ⟨e, he, rfl⟩ := Option.map_eq_some_iff.mp hw
    exact hparts e (List.mem_of_find?_eq_some he) path d hbelow

theorem KeysDiffer.get? {entries : Entries} (h : (Value.dict entries).KeysDiffer) {k : Scalar}
    (hk : entries.get? k = some v) : v.KeysDiffer := by
  intro path d hpath
  refine h (k :: path) d ?_
  rw [at?, hk, Option.bind_some, hpath]

theorem replace_of_kind {o : Option Value} (h : ∀ d, o ≠ some (.dict d)) :
    Entries.replace o v = v := by
  unfold Entries.replace
  split
  · exact absurd rfl (h _)
  · rfl

theorem replace_none : Entries.replace none v = v :=
  replace_of_kind fun _ h => by cases h

theorem replace_plain (o : Option Value) (h : v.kind ≠ .dict) : Entries.replace o v = v := by
  unfold Entries.replace
  split
  · exact absurd rfl h
  · rfl

theorem at?_replace (h : v.KeysDiffer) (u : Value) (hw : v.at? p = some w) :
    (Entries.replace (some u) v).at? p = some (Entries.replace (u.at? p) w) := by
  induction p generalizing u v with
  | nil =>
    obtain rfl := Option.some.inj hw
    rfl
  | cons k p ih =>
    by_cases hv : v.kind = .dict
    · obtain ⟨entries, rfl⟩ := kind_eq_dict.mp hv
      rw [at?] at hw
      obtain ⟨v', hv', hbelow⟩ := Option.bind_eq_some_iff.mp hw
      by_cases hu : u.kind = .dict
      · obtain ⟨base, rfl⟩ := kind_eq_dict.mp hu
        have hlayer : Entries.KeysDiffer entries := h [] entries rfl
        rw [Entries.replace, at?, Entries.get?_overlay hlayer, hv', Option.bind_some, at?]
        cases hbase : Entries.get? base k with
        | none => rw [Option.bind_none, replace_none, replace_none, hbelow]
        | some u' => exact ih (h.get? hv') u' hbelow
      · have hnone : ∀ d, some u ≠ some (Value.dict d) := fun d hd =>
          hu (kind_eq_dict.mpr ⟨d, Option.some.inj hd⟩)
        rw [at?_of_kind hu (List.cons_ne_nil k p), replace_of_kind hnone, replace_none, at?,
          hv', Option.bind_some, hbelow]
    · rw [at?_of_kind hv (List.cons_ne_nil k p)] at hw
      cases hw

end Value

namespace Entries

variable {a b : Entries} {p : List Scalar} {w : Value}

def at? (entries : Entries) (path : List Scalar) : Option Value :=
  (Value.dict entries).at? path

theorem at?_overlay (h : (Value.dict b).KeysDiffer) (a : Entries) (hw : b.at? p = some w) :
    at? (overlay a b) p = some (replace (a.at? p) w) := by
  have hlaid := Value.at?_replace h (.dict a) hw
  rwa [replace] at hlaid

theorem at?_overlay_of_blocks (h : (Value.dict b).KeysDiffer) (a : Entries)
    (hp : (Value.dict b).Blocks p) : at? (overlay a b) p = none := by
  obtain ⟨front, rest, w, rfl, hrest, hfront, hw⟩ := hp
  have hlaid := at?_overlay h a hfront
  rw [Value.replace_plain _ hw] at hlaid
  exact Value.Blocks.at?_eq_none ⟨front, rest, w, rfl, hrest, hlaid, hw⟩

theorem at?_overlay_of_lacks (h : (Value.dict b).KeysDiffer) (a : Entries)
    (hp : (Value.dict b).Lacks p) : at? (overlay a b) p = a.at? p := by
  obtain ⟨front, k, rest, entries, rfl, hfront, hk⟩ := hp
  have hlaid := at?_overlay h a hfront
  have hlayer := h front entries hfront
  by_cases hbase : ∃ d, a.at? front = some (.dict d)
  · -- Two dictionaries meet, and what holds the key can only be the lower one.
    obtain ⟨d, hd⟩ := hbase
    rw [hd, replace] at hlaid
    unfold at? at *
    rw [Value.at?_append, Value.at?_append, hlaid, hd, Option.bind_some, Option.bind_some,
      Value.at?, Value.at?, get?_overlay hlayer, hk]
  · have hnone : ∀ d, a.at? front ≠ some (.dict d) := fun d hd => hbase ⟨d, hd⟩
    rw [Value.replace_of_kind hnone] at hlaid
    have hmissing : at? (overlay a b) (front ++ k :: rest) = none :=
      Value.Lacks.at?_eq_none ⟨front, k, rest, entries, rfl, hlaid, hk⟩
    rw [hmissing]
    unfold at? at *
    rw [Value.at?_append]
    cases hfront' : (Value.dict a).at? front with
    | none => rfl
    | some u =>
      have hu : u.kind ≠ .dict := fun hu => by
        obtain ⟨d, rfl⟩ := Value.kind_eq_dict.mp hu
        exact hnone d hfront'
      rw [Option.bind_some, Value.at?_of_kind hu (List.cons_ne_nil k rest)]

structure MergesByPath (a b m : Entries) : Prop where
  plain : ∀ path v, b.at? path = some v → v.kind ≠ .dict → m.at? path = some v
  replaced : ∀ path entries, b.at? path = some (.dict entries) →
    (∀ d, a.at? path ≠ some (.dict d)) → m.at? path = some (.dict entries)
  joined : ∀ path d e, a.at? path = some (.dict d) → b.at? path = some (.dict e) →
    m.at? path = some (.dict (overlay d e)) ∧
      keys (overlay d e) = keys d ++ (keys e).filter fun k => (get? d k).isNone
  blocked : ∀ path, (Value.dict b).Blocks path → m.at? path = none
  kept : ∀ path, (Value.dict b).Lacks path → m.at? path = a.at? path

end Entries

namespace Settings

open Entries

/-- Settings are merged path by path: where the upper ones hold something that is no dictionary it
counts, dictionaries that meet are merged and keep the lower one's keys in front, a path that the
upper ones end early leads nowhere, and one that they lack a key of leads where it led before. So
are those of a file merged into the standard ones, and those of a session into both. -/
theorem merge_by_path :
    (∀ a b, (Value.dict b).KeysDiffer → MergesByPath a b (overlay a b)) ∧
    (∀ (v : Value) (path : List Scalar), v.at? path = none ↔ v.Blocks path ∨ v.Lacks path) ∧
    ∀ (file session : Value) (f g : Entries), Layer file f → Layer session g →
      merge file session = .ok (overlay (overlay standard.entries f) g) := by
  refine ⟨fun a b hb => ⟨?plain, ?replaced, fun path d e hd he => ⟨?joined, ?keys⟩,
    fun path => at?_overlay_of_blocks hb a, fun path => at?_overlay_of_lacks hb a⟩,
    fun _ _ => Value.at?_eq_none_iff, fun file session f g => merge_eq⟩
  case plain =>
    intro path v hv hplain
    rw [at?_overlay hb a hv, Value.replace_plain _ hplain]
  case replaced =>
    intro path entries he hnone
    rw [at?_overlay hb a he, Value.replace_of_kind hnone]
  case joined => rw [at?_overlay hb a he, hd, replace]
  case keys => exact keys_overlay (hb path e he) d

theorem merge_by_path_mixed :
    let b : Entries := [(.text "precision", .dict [(.text "result_decimals", .int 3)]),
      (.text "logging", .int 5)]
    let m : Entries := overlay standard.entries b
    m.at? [.text "precision", .text "result_decimals"] = some (.int 3) ∧
      m.at? [.text "precision", .text "conversion_decimals"] = some (.int 6) ∧
      m.at? [.text "logging", .text "level"] = none ∧
      merge (.dict b) (.dict []) = .ok (overlay m []) := by
  intro b m
  have hnumber (n : Int) : (Value.int n).KeysDiffer :=
    Value.keysDiffer_of_kind (by simp [Value.int, Value.kind, Scalar.kind])
  have hb : (Value.dict b).KeysDiffer := by
    refine Value.keysDiffer_dict ?_ ?_
    · simp only [Entries.KeysDiffer, b, List.pairwise_pair]
      decide
    simp only [b, List.mem_cons, List.not_mem_nil, or_false, forall_eq_or_imp, forall_eq]
    refine ⟨Value.keysDiffer_dict (List.pairwise_singleton _ _) ?_, hnumber 5⟩
    simpa using hnumber 3
  have hpath : MergesByPath standard.entries b m := merge_by_path.1 standard.entries b hb
  refine ⟨hpath.plain _ (.int 3) rfl (by decide), ?_, ?_, ?_⟩
  · exact hpath.kept _ ⟨[.text "precision"], .text "conversion_decimals", [], _, rfl, rfl, rfl⟩
  · exact hpath.blocked _ ⟨[.text "logging"], [.text "level"], .int 5, rfl, by simp, rfl, by decide⟩
  · exact merge_by_path.2.2 _ _ b [] (.dict b) (.dict [])

end Settings

end DeskCalculator
