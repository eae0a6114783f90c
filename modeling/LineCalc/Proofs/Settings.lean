import LineCalc.Settings

/-!
# LineCalc.Proofs.Settings

Settings that are given by name.  Whatever stands under the names, the fields
have a fault or make settings that pass every check (`Settings.ofFields_cases`).
A fault that is found shows what was given under the name that it is about, and
fields without a fault make settings (`Settings.exists_ofFields_iff`).  The
depth of settings that were made is a number, with room for a parenthesis at
least: `Settings.limit_pos`.
-/

namespace LineCalc

variable {fields : List (String × Json)} {s : Settings} {f : SettingsFault} {given v : Json}
variable {name : String} {d : Division}

/-! ## the policies -/

/-- Every policy is found by its own name. -/
theorem Division.ofJson?_label (d : Division) : ofJson? (.text d.label) = some d := by
  cases d <;> decide

namespace Settings

/-! ## single checks -/

/-- The unknown names are those given that no setting has. -/
theorem mem_unknownKeys_iff :
    name ∈ unknownKeys fields ↔ name ∈ fields.map Prod.fst ∧ name ∉ keys := by
  rw [unknownKeys, List.mem_mergeSort, List.mem_filter, List.mem_eraseDups]
  simp

/-- A depth is kept as it was given, if it is a number of one or more. -/
theorem checkDepth_eq_ok_iff :
    checkDepth given = .ok v ↔ v = given ∧ ∃ depth, depthOf? given = some depth ∧ 0 < depth := by
  rw [checkDepth]
  cases depthOf? given with
  | none => simp
  | some depth =>
      cases depth with
      | zero => simp
      | succ less => simpa using eq_comm

end Settings

/-! ## faults -/

/-- A fault that the fields have: it shows what was given under the name that it is about. -/
def SettingsFault.IsOf (fields : List (String × Json)) : SettingsFault → Prop
  | unknownKeys names => names = Settings.unknownKeys fields ∧ names ≠ []
  | unknownPolicy given =>
    Json.fieldIn? "division_policy" fields = some given ∧ Division.ofJson? given = none
  | depthNotNumber given =>
    Json.fieldIn? "max_depth" fields = some given ∧ Settings.depthOf? given = none
  | depthTooSmall given =>
    Json.fieldIn? "max_depth" fields = some given ∧ Settings.depthOf? given = some 0

namespace Settings

/-- The value given under a name, or the standard one. -/
def valueOf (fields : List (String × Json)) (name : String) (standard : Json) : Json :=
  (Json.fieldIn? name fields).getD standard

/-- The value that is to name a policy. -/
def givenPolicy (fields : List (String × Json)) : Json :=
  valueOf fields "division_policy" (.text standard.division.label)

/-- The value that is to be a depth. -/
def givenDepth (fields : List (String × Json)) : Json :=
  valueOf fields "max_depth" standard.maxDepth

/-- A check that the standard value passes and the value of a name does not has found what was
given. -/
theorem fieldIn?_of_valueOf {p : Json → Prop} {standard : Json} (hs : ¬ p standard)
    (h : p (valueOf fields name standard)) :
    Json.fieldIn? name fields = some (valueOf fields name standard) := by
  rw [valueOf] at h ⊢
  cases hgiven : Json.fieldIn? name fields with
  | none =>
      rw [hgiven] at h
      exact absurd h hs
  | some given => rfl

/-- Without unknown names the policy is looked at. -/
theorem ofFields_of_unknownPolicy (hnames : unknownKeys fields = [])
    (h : Division.ofJson? (givenPolicy fields) = none) :
    ofFields fields = .error (.unknownPolicy (givenPolicy fields)) := by
  rw [givenPolicy, valueOf] at h ⊢
  simp only [ofFields, hnames, h, List.isEmpty_nil, if_true]
  rfl

/-- With a policy the depth is looked at, and all that is left is taken as it is given. -/
theorem ofFields_of_policy (hnames : unknownKeys fields = [])
    (h : Division.ofJson? (givenPolicy fields) = some d) :
    ofFields fields = (checkDepth (givenDepth fields)).map fun depth =>
      ⟨d, valueOf fields "allow_trailing_dot" standard.allowTrailingDot, depth,
        valueOf fields "prompt" standard.prompt⟩ := by
  simp only [givenPolicy, givenDepth, valueOf] at h ⊢
  simp only [ofFields, hnames, h, List.isEmpty_nil, if_true]
  cases checkDepth ((Json.fieldIn? "max_depth" fields).getD standard.maxDepth) <;> rfl

/-- Unknown names are a fault before all others. -/
theorem ofFields_of_unknownKeys (hnames : unknownKeys fields ≠ []) :
    ofFields fields = .error (.unknownKeys (unknownKeys fields)) := by
  simp only [ofFields, List.isEmpty_iff, hnames, if_false]
  rfl

/-- What the check of a depth refuses has been given, and the fault shows it. -/
theorem isOf_of_checkDepth (h : checkDepth (givenDepth fields) = .error f) : f.IsOf fields := by
  rw [checkDepth] at h
  cases hdepth : depthOf? (givenDepth fields) with
  | none =>
      rw [hdepth] at h
      obtain rfl := Except.error.inj h
      exact ⟨fieldIn?_of_valueOf (p := (depthOf? · = none)) (by simp [standard, depthOf?]) hdepth,
        hdepth⟩
  | some depth =>
      rw [hdepth] at h
      cases depth with
      | zero =>
          obtain rfl := Except.error.inj h
          exact ⟨fieldIn?_of_valueOf (p := (depthOf? · = some 0)) (by simp [standard, depthOf?])
            hdepth, hdepth⟩
      | succ less => cases h

/-- What settings that were made have passed: known names, a policy and a depth of one or more. -/
structure Passes (fields : List (String × Json)) (s : Settings) : Prop where
  known : unknownKeys fields = []
  policy : Division.ofJson? (givenPolicy fields) = some s.division
  depth_given : s.maxDepth = givenDepth fields
  depth_pos : ∃ depth, depthOf? s.maxDepth = some depth ∧ 0 < depth

/-- The fields have a fault, which is found, or make settings that pass every check. -/
theorem ofFields_cases (fields : List (String × Json)) :
    (∃ f, ofFields fields = .error f ∧ f.IsOf fields) ∨
      ∃ s, ofFields fields = .ok s ∧ Passes fields s := by
  by_cases hnames : unknownKeys fields = []
  · cases hpolicy : Division.ofJson? (givenPolicy fields) with
    | none =>
        have hgiven := fieldIn?_of_valueOf (p := (Division.ofJson? · = none))
          (by simp [Division.ofJson?_label]) hpolicy
        exact .inl ⟨_, ofFields_of_unknownPolicy hnames hpolicy, hgiven, hpolicy⟩
    | some d =>
        rw [ofFields_of_policy hnames hpolicy]
        cases hdepth : checkDepth (givenDepth fields) with
        | error f => exact .inl ⟨f, rfl, isOf_of_checkDepth hdepth⟩
        | ok given =>
            obtain ⟨rfl, hpos⟩ := checkDepth_eq_ok_iff.mp hdepth
            exact .inr ⟨_, rfl, hnames, hpolicy, rfl, hpos⟩
  · exact .inl ⟨_, ofFields_of_unknownKeys hnames, rfl, hnames⟩

/-- A fault that is found is one of the fields. -/
theorem isOf_of_ofFields (h : ofFields fields = .error f) : f.IsOf fields := by
  obtain ⟨g, hg, hisOf⟩ | ⟨s, hs, -⟩ := ofFields_cases fields
  · rwa [Except.error.inj (h.symm.trans hg)]
  · cases h.symm.trans hs

/-- Settings that were made pass every check. -/
theorem passes_of_ofFields (h : ofFields fields = .ok s) : Passes fields s := by
  obtain ⟨g, hg, -⟩ | ⟨t, ht, hpasses⟩ := ofFields_cases fields
  · cases h.symm.trans hg
  · rwa [Except.ok.inj (h.symm.trans ht)]

/-- Fields of which settings were made have no fault. -/
theorem Passes.not_isOf (h : Passes fields s) (f : SettingsFault) : ¬ f.IsOf fields := by
  intro hf
  have hpolicy := h.policy
  obtain ⟨depth, hdepth, hpos⟩ := h.depth_pos
  cases f with
  | unknownKeys names => exact hf.2 (hf.1.trans h.known)
  | unknownPolicy given =>
      rw [givenPolicy, valueOf, hf.1, Option.getD_some, hf.2] at hpolicy
      cases hpolicy
  | depthNotNumber given =>
      rw [h.depth_given, givenDepth, valueOf, hf.1, Option.getD_some, hf.2] at hdepth
      cases hdepth
  | depthTooSmall given =>
      rw [h.depth_given, givenDepth, valueOf, hf.1, Option.getD_some, hf.2] at hdepth
      cases hdepth
      exact Nat.lt_irrefl 0 hpos

/-- The fields make settings exactly if they have no fault. -/
theorem exists_ofFields_iff :
    (∃ s, ofFields fields = .ok s) ↔ ∀ f, ¬ SettingsFault.IsOf fields f := by
  refine ⟨fun ⟨_, hs⟩ => (passes_of_ofFields hs).not_isOf, fun h => ?_⟩
  obtain ⟨f, -, hf⟩ | ⟨s, hs, -⟩ := ofFields_cases fields
  · exact absurd hf (h f)
  · exact ⟨s, hs⟩

/-- Settings that were made leave room for a parenthesis. -/
theorem limit_pos (h : ofFields fields = .ok s) : 0 < s.limit := by
  obtain ⟨depth, hdepth, hpos⟩ := (passes_of_ofFields h).depth_pos
  rw [limit, hdepth, Option.getD_some]
  exact Nat.lt_min.mpr ⟨hpos, by decide⟩

/-- The standard settings pass every check, and are made where nothing is given. -/
theorem ofFields_nil : ofFields [] = .ok standard := by
  have hpolicy : Division.ofJson? (givenPolicy []) = some standard.division :=
    Division.ofJson?_label _
  rw [ofFields_of_policy (by simp [unknownKeys]) hpolicy,
    checkDepth_eq_ok_iff.mpr ⟨rfl, 100, rfl, by decide⟩]
  rfl

end Settings

end LineCalc
