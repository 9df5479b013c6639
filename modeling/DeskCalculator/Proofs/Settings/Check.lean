import DeskCalculator.Proofs.Converter.Selection

namespace DeskCalculator

namespace Settings

def IsDecimals (v : Value) : Prop :=
  ∃ n : Int, v = .int n ∧ 0 ≤ n ∧ n ≤ 15

def IsCategoryName (v : Value) : Prop :=
  ∃ c : Category, v = .text c.name

def IsLevelName (v : Value) : Prop :=
  ∃ s, v = .text s ∧ Text.capitals s ∈ ["DEBUG", "INFO", "WARNING", "ERROR", "CRITICAL"]

def IsTruth (v : Value) : Prop :=
  ∃ b, v = .bool b

structure Slot where
  part : String
  name : String
  takes : Value → Prop

def slots : List Slot :=
  [⟨"precision", "result_decimals", IsDecimals⟩,
    ⟨"precision", "conversion_decimals", IsDecimals⟩,
    ⟨"converter", "default_category", IsCategoryName⟩,
    ⟨"converter", "default_units", Value.MapsToUnits⟩,
    ⟨"logging", "level", IsLevelName⟩,
    ⟨"logging", "format_json", IsTruth⟩,
    ⟨"logging", "include_caller", IsTruth⟩]

def setting? (merged : Entries) (part name : String) : Option Value :=
  match merged.get? (.text part) with
  | some (.dict entries) => Entries.get? entries (.text name)
  | _ => none

theorem setting?_eq_some {merged : Entries} {part name : String} {x : Value} :
    setting? merged part name = some x ↔
      ∃ v, merged.get? (.text part) = some v ∧ v.field name = .ok x := by
  unfold setting?
  split
  · rename_i entries h
    simp [h, Value.field_dict]
  · rename_i hdict
    constructor
    · intro h
      cases h
    · rintro ⟨v, hv, hx⟩
      obtain ⟨entries, rfl⟩ := Value.eq_dict_of_field hx
      exact absurd hv (hdict entries)

def Complete (merged : Entries) : Prop :=
  ∀ slot ∈ slots, ∃ v, setting? merged slot.part slot.name = some v

def Faultless (merged : Entries) : Prop :=
  ∀ slot ∈ slots, ∀ v, setting? merged slot.part slot.name = some v → slot.takes v

def Accepted (merged : Entries) : Prop :=
  ∀ slot ∈ slots, ∃ v, setting? merged slot.part slot.name = some v ∧ slot.takes v

theorem accepted_iff {merged : Entries} : Accepted merged ↔ Complete merged ∧ Faultless merged := by
  constructor
  · intro h
    constructor
    · intro slot hslot
      obtain ⟨v, hv, -⟩ := h slot hslot
      exact ⟨v, hv⟩
    · intro slot hslot w hw
      obtain ⟨v, hv, htakes⟩ := h slot hslot
      cases hv.symm.trans hw
      exact htakes
  · rintro ⟨hcomplete, hfaultless⟩ slot hslot
    obtain ⟨v, hv⟩ := hcomplete slot hslot
    exact ⟨v, hv, hfaultless slot hslot v hv⟩

section Values

variable (v : Value)

theorem isDecimals_iff : isDecimals v = true ↔ IsDecimals v := by
  have hmax : maxDecimals = 15 := rfl
  cases v with
  | scalar s => cases s <;> simp [isDecimals, IsDecimals, Value.int, ← hmax]
  | list xs => simp [isDecimals, IsDecimals, Value.int]
  | tuple xs => simp [isDecimals, IsDecimals, Value.int]
  | dict entries => simp [isDecimals, IsDecimals, Value.int]

theorem levelNames_eq : levelNames = ["DEBUG", "INFO", "WARNING", "ERROR", "CRITICAL"] := by
  decide

theorem isLevel_iff : isLevel v = true ↔ IsLevelName v := by
  cases v with
  | scalar s => cases s <;> simp [isLevel, IsLevelName, Value.text, levelNames_eq]
  | list xs => simp [isLevel, IsLevelName, Value.text]
  | tuple xs => simp [isLevel, IsLevelName, Value.text]
  | dict entries => simp [isLevel, IsLevelName, Value.text]

theorem isBool_iff : isBool v = true ↔ IsTruth v := by
  cases v with
  | scalar s => cases s <;> simp [isBool, IsTruth, Value.bool]
  | list xs => simp [isBool, IsTruth, Value.bool]
  | tuple xs => simp [isBool, IsTruth, Value.bool]
  | dict entries => simp [isBool, IsTruth, Value.bool]

end Values

theorem checkPair_eq_nil {key : Scalar} {pair : Value} :
    checkPair key pair = [] ↔ ∃ (c : Category) (source target : Value),
      key = .text c.name ∧ (pair = .list [source, target] ∨ pair = .tuple [source, target]) ∧
        c.IsUnit source ∧ c.IsUnit target := by
  cases key with
  | text s =>
    unfold checkPair
    dsimp only
    cases hc : Category.ofName? s with
    | none =>
      simp only [List.cons_ne_nil, false_iff]
      rintro ⟨c, source, target, hname, -⟩
      cases hname
      cases hc.symm.trans (Category.ofName?_name c)
    | some c =>
      obtain rfl := Category.ofName?_eq_some.mp hc
      dsimp only
      cases hpair : pair.pair? with
      | none =>
        simp only [List.cons_ne_nil, false_iff]
        rintro ⟨d, source, target, -, htwo, -⟩
        cases hpair.symm.trans (Value.pair?_eq_some.mpr htwo)
      | some two =>
        obtain ⟨source, target⟩ := two
        simp only [List.map_eq_nil_iff, List.filter_eq_nil_iff, List.forall_mem_cons,
          Bool.not_eq_true', Bool.not_eq_false, Category.isUnitOf_iff]
        constructor
        · rintro ⟨hsource, htarget, -⟩
          exact ⟨c, source, target, rfl, Value.pair?_eq_some.mp hpair, hsource, htarget⟩
        · rintro ⟨d, source', target', hname, htwo, hsource, htarget⟩
          obtain rfl := Category.eq_of_name_eq (Scalar.text.inj hname)
          cases hpair.symm.trans (Value.pair?_eq_some.mpr htwo)
          exact ⟨hsource, htarget, by simp⟩
  | _ => simp [checkPair]

def Checks (able clear : Prop) : Except Failure (List Complaint) → Prop
  | .ok complaints => able ∧ (complaints = [] ↔ clear)
  | .error e => ¬able ∧ ∃ m, e = .misuse m

namespace Checks

variable {a b p q : Prop} {x y : Except Failure (List Complaint)}

theorem congr (h : Checks a p x) (ha : a ↔ b) (hp : p ↔ q) : Checks b q x := by
  cases x with
  | ok complaints => exact ⟨ha.mp h.1, h.2.trans hp⟩
  | error e => exact ⟨fun hb => h.1 (ha.mpr hb), h.2⟩

theorem append (hx : Checks a p x) (hy : Checks b q y) :
    Checks (a ∧ b) (p ∧ q) (do return (← x) ++ (← y)) := by
  cases x with
  | error e => exact ⟨fun h => hx.1 h.1, hx.2⟩
  | ok cs =>
    cases y with
    | error e => exact ⟨fun h => hy.1 h.2, hy.2⟩
    | ok ds =>
      refine ⟨⟨hx.1, hy.1⟩, ?_⟩
      rw [List.append_eq_nil_iff, hx.2, hy.2]

end Checks

def Searchable (v : Value) (name : String) : Prop :=
  v.kind = .dict ∨ v.mentions name = .ok false

def Decides (able good : Value → Prop) (accepts : Value → Except Failure Bool) : Prop :=
  ∀ x, (able x ∧ ∃ b, accepts x = .ok b ∧ (b = true ↔ good x)) ∨
    (¬able x ∧ ∃ m, accepts x = .error (.misuse m))

theorem decides_pure {good : Value → Prop} {f : Value → Bool} (h : ∀ x, f x = true ↔ good x) :
    Decides (fun _ => True) good (pure ∘ f) := by
  intro x
  exact .inl ⟨trivial, f x, rfl, h x⟩

theorem decides_isCategory : Decides Value.IsHashable IsCategoryName isCategory := by
  intro x
  unfold isCategory
  rcases x.lookUp_cases Category.ofName? with ⟨hable, found, hfound, hiff⟩ | ⟨hable, m, hm⟩
  · refine .inl ⟨hable, found.isSome, by rw [hfound, ok_bind]; rfl, ?_⟩
    simp [Option.isSome_iff_exists, hiff, Category.ofName?_eq_some, IsCategoryName]
  · exact .inr ⟨hable, m, by rw [hm, error_bind]⟩

section Fields

variable {able good : Value → Prop} {accepts : Value → Except Failure Bool}

theorem checks_field (h : Decides able good accepts) (v : Value) (name : String)
    (reason : Complaint.Reason) :
    Checks (Searchable v name ∧ ∀ x, v.field name = .ok x → able x)
      (∀ x, v.field name = .ok x → good x) (checkField v name reason accepts) := by
  unfold checkField
  cases hmentions : v.mentions name with
  | error e =>
    refine ⟨?_, Value.fits_mentions v name e hmentions⟩
    rintro ⟨hdict | hlacks, -⟩
    · obtain ⟨b, hb⟩ := Value.exists_mentions hdict name
      cases hmentions.symm.trans hb
    · cases hmentions.symm.trans hlacks
  | ok found =>
    cases found with
    | false =>
      have hnone : ∀ x, v.field name ≠ .ok x := by
        intro x hx
        cases hmentions.symm.trans (Value.mentions_of_field hx)
      refine ⟨⟨.inr hmentions, ?_⟩, iff_of_true rfl ?_⟩
      · intro x hx
        exact absurd hx (hnone x)
      · intro x hx
        exact absurd hx (hnone x)
    | true =>
      simp only [ok_bind, if_true]
      cases hfield : v.field name with
      | error e =>
        refine ⟨?_, Value.fits_field v name e hfield⟩
        rintro ⟨hdict | hlacks, -⟩
        · obtain ⟨x, hx⟩ := Value.exists_field hdict hmentions
          cases hfield.symm.trans hx
        · cases hmentions.symm.trans hlacks
      | ok x =>
        have hdict : v.kind = .dict := Value.kind_eq_dict.mpr (Value.eq_dict_of_field hfield)
        simp only [ok_bind, Except.ok.injEq, forall_eq']
        rcases h x with ⟨hable, b, hb, hgood⟩ | ⟨hable, m, hm⟩
        · rw [hb]
          cases b with
          | true => exact ⟨⟨.inl hdict, hable⟩, by simpa using hgood⟩
          | false => exact ⟨⟨.inl hdict, hable⟩, by simpa using hgood⟩
        · rw [hm]
          exact ⟨fun h => hable h.2, m, rfl⟩

theorem checks_searched (h : Decides (fun _ => True) good accepts) (v : Value) (name : String)
    (reason : Complaint.Reason) :
    Checks (Searchable v name) (∀ x, v.field name = .ok x → good x)
      (checkField v name reason accepts) :=
  (checks_field h v name reason).congr (by simp) .rfl

end Fields

theorem checks_precision (v : Value) :
    Checks (Searchable v "result_decimals" ∧ Searchable v "conversion_decimals")
      ((∀ x, v.field "result_decimals" = .ok x → IsDecimals x) ∧
        ∀ x, v.field "conversion_decimals" = .ok x → IsDecimals x)
      (checkPrecision v) :=
  (checks_searched (decides_pure isDecimals_iff) v _ _).append
    (checks_searched (decides_pure isDecimals_iff) v _ _)

theorem checks_journal (v : Value) :
    Checks ((Searchable v "level" ∧ Searchable v "format_json") ∧ Searchable v "include_caller")
      (((∀ x, v.field "level" = .ok x → IsLevelName x) ∧
        ∀ x, v.field "format_json" = .ok x → IsTruth x) ∧
        ∀ x, v.field "include_caller" = .ok x → IsTruth x)
      (checkJournal v) := by
  have h := ((checks_searched (decides_pure isLevel_iff) v "level" .level).append
    (checks_searched (decides_pure isBool_iff) v "format_json" .boolean)).append
    (checks_searched (decides_pure isBool_iff) v "include_caller" .boolean)
  simp only [bind_assoc, pure_bind] at h
  exact h

def checkUnits (v : Value) : Except Failure (List Complaint) := do
  match ← v.fieldOr "default_units" (.dict []) with
  | .dict pairs => return pairs.flatMap fun e => checkPair e.1 e.2
  | units => return [⟨"default_units", .unitMapping, units⟩]

theorem checks_units (v : Value) :
    Checks (v.kind = .dict) (∀ x, v.field "default_units" = .ok x → x.MapsToUnits)
      (checkUnits v) := by
  unfold checkUnits
  cases v with
  | scalar s => exact ⟨by cases s <;> simp [Value.kind, Scalar.kind], _, rfl⟩
  | list xs => exact ⟨by simp [Value.kind], _, rfl⟩
  | tuple xs => exact ⟨by simp [Value.kind], _, rfl⟩
  | dict entries =>
    simp only [Value.fieldOr, ok_bind, Value.field_dict]
    cases hget : Entries.get? entries (.text "default_units") with
    | none => exact ⟨rfl, by simp⟩
    | some units =>
      simp only [Option.getD_some, Option.some.injEq, forall_eq']
      cases units with
      | dict pairs =>
        refine ⟨rfl, ?_⟩
        simp only [List.flatMap_eq_nil_iff, checkPair_eq_nil, Value.MapsToUnits]
        simp
      | scalar s => exact ⟨rfl, by simp [Value.MapsToUnits]⟩
      | list xs => exact ⟨rfl, by simp [Value.MapsToUnits]⟩
      | tuple xs => exact ⟨rfl, by simp [Value.MapsToUnits]⟩

theorem checkConverter_eq (v : Value) : checkConverter v = do
    return (← checkField v "default_category" .category isCategory) ++ (← checkUnits v) := by
  unfold checkConverter checkUnits
  cases checkField v "default_category" .category isCategory with
  | error e => rfl
  | ok category =>
    cases v.fieldOr "default_units" (.dict []) with
    | error e => rfl
    | ok units => cases units <;> rfl

theorem checks_converter (v : Value) :
    Checks (v.kind = .dict ∧ ∀ x, v.field "default_category" = .ok x → x.IsHashable)
      ((∀ x, v.field "default_category" = .ok x → IsCategoryName x) ∧
        ∀ x, v.field "default_units" = .ok x → x.MapsToUnits)
      (checkConverter v) := by
  rw [checkConverter_eq]
  refine ((checks_field decides_isCategory v _ _).append (checks_units v)).congr ?_ .rfl
  constructor
  · rintro ⟨⟨-, hable⟩, hdict⟩
    exact ⟨hdict, hable⟩
  · rintro ⟨hdict, hable⟩
    exact ⟨⟨.inl hdict, hable⟩, hdict⟩

theorem checks_section {able clear : Value → Prop} {check : Value → Except Failure (List Complaint)}
    (h : ∀ v, Checks (able v) (clear v) (check v)) (merged : Entries) (name : String) :
    Checks (∀ v, merged.get? (.text name) = some v → able v)
      (∀ v, merged.get? (.text name) = some v → clear v)
      (checkSection (.dict merged) name check) := by
  unfold checkSection
  cases hget : merged.get? (.text name) with
  | none => simp [Checks, Value.mentions, hget]
  | some v => simpa [Value.mentions, Value.field, hget] using h v

/-- The parts can be searched for their settings, and the category can be looked up. -/
structure Checkable (merged : Entries) : Prop where
  precision : ∀ v, merged.get? (.text "precision") = some v →
    Searchable v "result_decimals" ∧ Searchable v "conversion_decimals"
  converter : ∀ v, merged.get? (.text "converter") = some v → v.kind = .dict ∧
    ∀ x, v.field "default_category" = .ok x → x.IsHashable
  journal : ∀ v, merged.get? (.text "logging") = some v →
    (Searchable v "level" ∧ Searchable v "format_json") ∧ Searchable v "include_caller"

theorem forall_setting? {merged : Entries} {part name : String} {good : Value → Prop} :
    (∀ x, setting? merged part name = some x → good x) ↔
      ∀ v, merged.get? (.text part) = some v → ∀ x, v.field name = .ok x → good x := by
  constructor
  · intro h v hv x hx
    exact h x (setting?_eq_some.mpr ⟨v, hv, hx⟩)
  · intro h x hx
    obtain ⟨v, hv, hfield⟩ := setting?_eq_some.mp hx
    exact h v hv x hfield

theorem checks_check (merged : Entries) :
    Checks (Checkable merged) (Faultless merged) (check (.dict merged)) := by
  have h := ((checks_section checks_precision merged "precision").append
    (checks_section checks_converter merged "converter")).append
    (checks_section checks_journal merged "logging")
  simp only [bind_assoc, pure_bind] at h
  refine h.congr ⟨fun h => ⟨h.1.1, h.1.2, h.2⟩, fun h => ⟨⟨h.1, h.2⟩, h.3⟩⟩ ?_
  simp [Faultless, slots, forall_setting?, forall_and, and_assoc]

end Settings

end DeskCalculator
