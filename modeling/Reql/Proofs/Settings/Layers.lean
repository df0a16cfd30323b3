import Mathlib.Data.List.TakeDrop
import Mathlib.Data.List.TakeWhile
import Reql.Proofs.Settings.Tree

/-!
Settings from a file and an environment.

A layer is orderly if it gives none of the four settings twice, and if what it
puts where they belong has the right form. From orderly layers the settings
are read one by one: the winning value of each is the one of the environment,
or else the one of the file. A value that does not win is not looked at.

A name is a path, of which capitals do not matter. This holds of variables and
of the outermost keys of a file alike, so a single one of them can reach into
a section, or below a setting. A layer with such a path is not orderly, and
need not be harmless even if no name in it is one of the four.
-/

namespace Reql

namespace Settings

open Setting

/-! ### Sources -/

theorem ofText_cases (s : String) :
    (∃ b, Setting.ofText s = .boolean b) ∨ (∃ n, Setting.ofText s = .integer n) ∨
      (∃ x, Setting.ofText s = .float x) ∨ Setting.ofText s = .text s := by
  generalize hv : Setting.ofText s = v
  simp only [Setting.ofText] at hv
  split at hv
  · exact .inl ⟨true, hv.symm⟩
  · exact .inl ⟨false, hv.symm⟩
  · split at hv
    · split at hv
      · exact .inr (.inl ⟨_, hv.symm⟩)
      · split at hv
        · exact .inr (.inr (.inl ⟨_, hv.symm⟩))
        · exact .inr (.inr (.inr hv.symm))
    · split at hv
      · exact .inr (.inr (.inl ⟨_, hv.symm⟩))
      · exact .inr (.inr (.inr hv.symm))

theorem not_isGroup_ofText (s : String) : ¬ (Setting.ofText s).IsGroup := by
  rcases ofText_cases s with ⟨b, h⟩ | ⟨n, h⟩ | ⟨x, h⟩ | h <;> simp [h, IsGroup]

theorem ofText_ne_nothing (s : String) : Setting.ofText s ≠ .nothing := by
  rcases ofText_cases s with ⟨b, h⟩ | ⟨n, h⟩ | ⟨x, h⟩ | h <;> simp [h]

theorem eq_of_mem_given {slot : Slot} {value v : Setting} {path : List PathStep}
    (hvalue : ¬ value.IsGroup) (h : v ∈ slot.given value path) : v = value := by
  have hfields : value.fields = [] := by
    cases value with
    | group fields => exact absurd (isGroup_group fields) hvalue
    | _ => rfl
  unfold Slot.given at h
  split at h
  · rw [hfields] at h
    split at h <;> cases h
  · split at h
    · exact List.mem_singleton.mp h
    · cases h
  · cases h

theorem exists_ofText_of_mem_values {slot : Slot} {env : List (String × String)} {v : Setting}
    (h : v ∈ slot.values (environmentLayer env)) : ∃ text, v = .ofText text := by
  obtain ⟨e, he, hv⟩ := List.mem_flatMap.mp h
  obtain ⟨⟨name, text⟩, -, hentry⟩ := List.mem_filterMap.mp he
  obtain ⟨path, -, rfl⟩ := Option.map_eq_some_iff.mp hentry
  exact ⟨text, eq_of_mem_given (not_isGroup_ofText text) hv⟩

/-- `winning layer env slot`: what the environment gives, or else what the file
gives. -/
def winning (layer : List (String × Setting)) (env : List (String × String)) (slot : Slot) :
    Option Setting :=
  (slot.values (environmentLayer env)).head?.or (slot.values layer).head?

theorem ofValues_map_outline (value? : Slot → Option Setting) :
    (ofValues fun slot => (value? slot).map outline) = ofValues value? := by
  simp only [ofValues, readOr_map_outline toDepth?_outline, readOr_map_outline toBool?_outline,
    readOr_map_outline toText?_outline]

section Loading

variable {file : SettingsFile} {layer : List (String × Setting)} {env : List (String × String)}

/-- What is loaded depends on the winning values only. -/
theorem load_eq (hfile : fileLayer file = .ok layer) (hlayer : Orderly layer)
    (henv : Orderly (environmentLayer env)) :
    load file env = (ofValues (winning layer env)).mapError .config := by
  have hleaves : ∀ slot : Slot, ∀ v ∈ slot.values (environmentLayer env), ¬ v.IsGroup := by
    intro slot v hv
    obtain ⟨text, rfl⟩ := exists_ofText_of_mem_values hv
    exact not_isGroup_ofText text
  have hfirst := fun slot : Slot => @value?_layer _ slot sectioned_empty layer hlayer (.inr rfl)
  have hsecond := fun slot : Slot => value?_layer (hfirst slot).1 henv (.inl (hleaves slot))
  have hvalues : (fun slot : Slot =>
      slot.value? (((Setting.group []).layer layer).layer (environmentLayer env))) =
        fun slot => (winning layer env slot).map outline := by
    funext slot
    have hempty : slot.value? (Setting.group []) = none := rfl
    rw [(hsecond slot).2, (hfirst slot).2, hempty, winning, Option.map_or, Option.or_none]
  have hroot : Sectioned (((Setting.group []).layer layer).layer (environmentLayer env)) :=
    (hsecond .maxDepth).1
  rw [load, hfile]
  change (ofSetting _).mapError Error.config = _
  rw [ofSetting_eq hroot, hvalues, ofValues_map_outline]

def Slot.accepts (slot : Slot) (value : Setting) : Bool :=
  match slot with
  | maxDepth => (toDepth? value).isSome
  | pretty => value.toBool?.isSome
  | level => value.toText?.isSome
  | json => value.toBool?.isSome

theorem ofValues_eq_ok_iff {value? : Slot → Option Setting} {s : Settings} :
    ofValues value? = .ok s ↔
      readOr toDepth? none (value? .maxDepth) = .ok s.encoder.maxDepth ∧
      readOr Setting.toBool? false (value? .pretty) = .ok s.encoder.pretty ∧
      readOr Setting.toText? "warn" (value? .level) = .ok s.logging.level ∧
      readOr Setting.toBool? false (value? .json) = .ok s.logging.json := by
  obtain ⟨⟨maxDepth, pretty⟩, level, json⟩ := s
  simp only [ofValues, bind_eq_ok_iff, Except.ok.injEq, Settings.mk.injEq, EncoderSettings.mk.injEq,
    LoggingSettings.mk.injEq]
  constructor
  · rintro ⟨_, hdepth, _, hpretty, _, hlevel, _, hjson, ⟨rfl, rfl⟩, rfl, rfl⟩
    exact ⟨hdepth, hpretty, hlevel, hjson⟩
  · rintro ⟨hdepth, hpretty, hlevel, hjson⟩
    exact ⟨_, hdepth, _, hpretty, _, hlevel, _, hjson, ⟨rfl, rfl⟩, rfl, rfl⟩

theorem exists_readOr_eq_ok_iff {α : Type} {convert : Setting → Option α} {default : α}
    {value : Option Setting} :
    (∃ a, readOr convert default value = .ok a) ↔
      ∀ s, value = some s → (convert s).isSome = true := by
  cases value with
  | none => simp [readOr]
  | some s =>
      cases h : convert s with
      | none => simp [readOr, h]
      | some a => simp [readOr, h]

theorem exists_ofValues_eq_ok_iff {value? : Slot → Option Setting} :
    (∃ s, ofValues value? = .ok s) ↔
      ∀ slot s, value? slot = some s → Slot.accepts slot s = true := by
  constructor
  · rintro ⟨settings, h⟩ slot
    obtain ⟨hdepth, hpretty, hlevel, hjson⟩ := ofValues_eq_ok_iff.mp h
    cases slot with
    | maxDepth => exact exists_readOr_eq_ok_iff.mp ⟨_, hdepth⟩
    | pretty => exact exists_readOr_eq_ok_iff.mp ⟨_, hpretty⟩
    | level => exact exists_readOr_eq_ok_iff.mp ⟨_, hlevel⟩
    | json => exact exists_readOr_eq_ok_iff.mp ⟨_, hjson⟩
  · intro h
    obtain ⟨maxDepth, hdepth⟩ : ∃ maxDepth, readOr toDepth? none _ = .ok maxDepth :=
      exists_readOr_eq_ok_iff.mpr (h .maxDepth)
    obtain ⟨pretty, hpretty⟩ := exists_readOr_eq_ok_iff.mpr (h .pretty)
    obtain ⟨level, hlevel⟩ := exists_readOr_eq_ok_iff.mpr (h .level)
    obtain ⟨json, hjson⟩ := exists_readOr_eq_ok_iff.mpr (h .json)
    exact ⟨⟨⟨maxDepth, pretty⟩, level, json⟩,
      ofValues_eq_ok_iff.mpr ⟨hdepth, hpretty, hlevel, hjson⟩⟩

theorem exists_ofValues_eq_error_iff {value? : Slot → Option Setting} :
    (∃ e, ofValues value? = .error e) ↔
      ∃ slot s, value? slot = some s ∧ Slot.accepts slot s = false := by
  have hok : (∃ s, ofValues value? = .ok s) ↔ _ := exists_ofValues_eq_ok_iff
  cases h : ofValues value? with
  | ok settings =>
      have haccepts := hok.mp ⟨settings, h⟩
      refine iff_of_false (by simp) ?_
      rintro ⟨slot, s, hs, hnot⟩
      rw [haccepts slot s hs] at hnot
      cases hnot
  | error e =>
      have hnot : ¬ ∀ slot s, value? slot = some s → Slot.accepts slot s = true := fun hall => by
        obtain ⟨settings, hsettings⟩ := hok.mpr hall
        rw [h] at hsettings
        cases hsettings
      refine iff_of_true ⟨e, rfl⟩ ?_
      by_contra hnone
      refine hnot fun slot s hs => ?_
      by_contra hs'
      exact hnone ⟨slot, s, hs, Bool.eq_false_iff.mpr hs'⟩

/-! ### Values from a file -/

theorem ofTomlFields_of_ofTomlTable {fields : List (String × Toml)}
    {entries : List (String × Setting)} (h : Setting.ofTomlTable fields = some (.group entries)) :
    Setting.ofTomlFields fields = some entries := by
  rw [Setting.ofTomlTable] at h
  split at h
  · obtain ⟨_, -, htext⟩ := Option.map_eq_some_iff.mp h
    cases htext
  · obtain ⟨_, hfields, hgroup⟩ := Option.map_eq_some_iff.mp h
    cases hgroup
    exact hfields

theorem ne_nothing_of_ofToml {v : Toml} {s : Setting} (h : Setting.ofToml v = some s) :
    s ≠ .nothing := by
  rintro rfl
  cases v with
  | table origin fields =>
      rw [Setting.ofToml, Setting.ofTomlTable] at h
      split at h <;> simp at h
  | _ => simp [Setting.ofToml] at h

theorem exists_ofToml_of_mem {fields : List (String × Toml)} {entries : List (String × Setting)}
    (h : Setting.ofTomlFields fields = some entries) :
    ∀ e ∈ entries, ∃ v, Setting.ofToml v = some e.2 := by
  induction fields generalizing entries with
  | nil =>
      rw [Setting.ofTomlFields] at h
      cases h
      exact List.forall_mem_nil _
  | cons field rest ih =>
      obtain ⟨name, v⟩ := field
      rw [Setting.ofTomlFields] at h
      obtain ⟨s, hs, hrest⟩ := Option.bind_eq_some_iff.mp h
      obtain ⟨more, hmore, hentries⟩ := Option.bind_eq_some_iff.mp hrest
      cases hentries
      exact List.forall_mem_cons.mpr ⟨⟨v, hs⟩, ih hmore⟩

theorem exists_ofTomlFields_of_ofToml {v : Toml} {entries : List (String × Setting)}
    (h : Setting.ofToml v = some (.group entries)) :
    ∃ fields, Setting.ofTomlFields fields = some entries := by
  cases v with
  | table origin fields =>
      rw [Setting.ofToml] at h
      exact ⟨fields, ofTomlFields_of_ofTomlTable h⟩
  | _ => simp [Setting.ofToml] at h

theorem exists_ofTomlFields_of_fileLayer (h : fileLayer file = .ok layer) :
    ∃ fields, Setting.ofTomlFields fields = some layer := by
  cases file with
  | absent =>
      cases h
      exact ⟨[], by rw [Setting.ofTomlFields]⟩
  | missing => cases h
  | text content =>
      rw [fileLayer] at h
      split at h
      · cases h
      · rename_i fields _
        split at h
        · rename_i settings hsettings
          cases h
          exact ⟨fields, ofTomlFields_of_ofTomlTable hsettings⟩
        · cases h
        · cases h

theorem mem_givenIn {name : String} {entries : List (String × Setting)} {v : Setting} :
    v ∈ givenIn name entries ↔ ∃ e ∈ entries, e.1.toLower = name ∧ v = e.2 := by
  rw [givenIn, List.mem_flatMap]
  refine exists_congr fun e => and_congr_right fun _ => ?_
  split <;> simp [*]

theorem ne_nothing_of_mem_values {slot : Slot} {v : Setting} (hfile : fileLayer file = .ok layer)
    (h : v ∈ slot.values layer) : v ≠ .nothing := by
  obtain ⟨fields, hfields⟩ := exists_ofTomlFields_of_fileLayer hfile
  obtain ⟨⟨path, value⟩, he, hv⟩ := List.mem_flatMap.mp h
  obtain ⟨source, hsource⟩ := exists_ofToml_of_mem hfields _ he
  by_cases hgroup : value.IsGroup
  · obtain ⟨entries, rfl⟩ := hgroup
    obtain ⟨inner, hinner⟩ := exists_ofTomlFields_of_ofToml hsource
    unfold Slot.given at hv
    split at hv
    · split at hv
      · obtain ⟨e, he, -, rfl⟩ := mem_givenIn.mp hv
        obtain ⟨source, hsource⟩ := exists_ofToml_of_mem hinner e he
        exact ne_nothing_of_ofToml hsource
      · cases hv
    · split at hv
      · rw [List.mem_singleton.mp hv]
        simp
      · cases hv
    · cases hv
  · rw [eq_of_mem_given hgroup hv]
    exact ne_nothing_of_ofToml hsource

/-! ### Names -/

theorem isNameChar_of_toLower {c : Char} (h : c.toLower.isAlphanum = true) :
    PathStep.isNameChar c = true := by
  have hc : c.isAlphanum = true := by
    by_cases hupper : 'A'.val ≤ c.val ∧ c.val ≤ 'Z'.val
    · have hletter : c.isUpper = true := decide_eq_true hupper
      change ((c.isUpper || c.isLower) || c.isDigit) = true
      rw [hletter, Bool.true_or, Bool.true_or]
    · have hlower : c.toLower = c := dif_neg hupper
      rwa [hlower] at h
  simp [PathStep.isNameChar, hc]

theorem toList_toLower (s : String) : s.toLower.toList = s.toList.map Char.toLower :=
  String.toList_map

/-- The name of a section is a path of one step, in whatever letters. -/
theorem ofText_of_group {g : String} {slot : Slot} (h : g.toLower = slot.group) :
    PathStep.ofText g = [.name g] := by
  have hletters : slot.group.toList.all Char.isAlphanum = true := by
    cases slot <;> decide +kernel
  have hall : ∀ c ∈ g.toList, PathStep.isNameChar c = true := by
    intro c hc
    refine isNameChar_of_toLower (List.all_eq_true.mp hletters c.toLower ?_)
    rw [← h, toList_toLower]
    exact List.mem_map_of_mem hc
  have hne : g.toList ≠ [] := by
    intro hempty
    have hgroup : slot.group.toList = [] := by
      rw [← h, toList_toLower, hempty, List.map_nil]
    revert hgroup
    cases slot <;> decide +kernel
  have hspan : g.toList.span PathStep.isNameChar = (g.toList, []) := by
    rw [List.span_eq_takeWhile_dropWhile, List.takeWhile_eq_self_iff.mpr hall,
      List.dropWhile_eq_nil_iff.mpr hall]
  have hword : g.toList.isEmpty = false := by simpa using hne
  rw [PathStep.ofText, hspan]
  simp only [hword, Bool.false_eq_true, if_false, PathStep.readAll,
    String.ofList_toList]

/-- What a layer gives once wins in it. -/
theorem head?_values {slot : Slot} {v : Setting} (h : Orderly layer) (hv : v ∈ slot.values layer) :
    (slot.values layer).head? = some v := by
  obtain ⟨w, hvalues⟩ := List.length_eq_one_iff.mp
    (Nat.le_antisymm (h.once slot) (List.length_pos_of_mem hv))
  rw [hvalues] at hv ⊢
  rw [List.mem_singleton.mp hv]
  rfl

theorem variablePath?_of_slot {slot : Slot} {name : String} (h : name.toLower = slot.variableName) :
    variablePath? name = some (slot.group ++ "." ++ slot.name) := by
  rw [variablePath?, h]
  cases slot <;> decide +kernel

theorem given_path (slot : Slot) (value : Setting) :
    slot.given value (PathStep.ofText (slot.group ++ "." ++ slot.name)) = [value] := by
  have hpath : PathStep.ofText (slot.group ++ "." ++ slot.name) =
      [.name slot.group, .name slot.name] := by
    cases slot <;> decide +kernel
  have hlower : slot.group.toLower = slot.group ∧ slot.name.toLower = slot.name := by
    cases slot <;> decide +kernel
  rw [hpath]
  exact if_pos hlower

/-- `Foreign name`: the variable leads to none of the settings that are read. -/
def Foreign (name : String) : Prop :=
  ∀ path, variablePath? name = some path → ∀ (slot : Slot) (value : Setting),
    slot.given value (PathStep.ofText path) = []

theorem foreign_of_path (group : String) {name : String} (h : variablePath? name = some group)
    (hpath : PathStep.ofText group = [.name group])
    (hne : ∀ slot : Slot, group.toLower ≠ slot.group) : Foreign name := by
  intro path hvariable slot value
  obtain rfl := Option.some.inj (h.symm.trans hvariable)
  rw [hpath]
  exact if_neg (hne slot)

theorem values_foreign {name : String} (h : Foreign name) (slot : Slot) (text : String)
    (before after : List (String × String)) :
    slot.values (environmentLayer (before ++ (name, text) :: after)) =
      slot.values (environmentLayer (before ++ after)) := by
  have hone : slot.values (environmentLayer [(name, text)]) = [] := by
    cases hpath : variablePath? name with
    | none => simp [environmentLayer, hpath, Slot.values]
    | some path => simp [environmentLayer, hpath, Slot.values, h path hpath]
  have happend : ∀ l r : List (String × String), slot.values (environmentLayer (l ++ r)) =
      slot.values (environmentLayer l) ++ slot.values (environmentLayer r) := by
    simp [environmentLayer, Slot.values]
  rw [← List.singleton_append, happend, happend, hone, List.nil_append, ← happend]

theorem foreign_config : Foreign "REQLWIRE_CONFIG" := by
  refine foreign_of_path "config" ?_ ?_ ?_
  · decide +kernel
  · decide +kernel
  · intro slot
    cases slot <;> decide +kernel

theorem foreign_log : Foreign "REQLWIRE_LOG" := by
  refine foreign_of_path "log" ?_ ?_ ?_
  · decide +kernel
  · decide +kernel
  · intro slot
    cases slot <;> decide +kernel

theorem Orderly.of_values {settings settings' : List (String × Setting)} (h : Orderly settings)
    (hsub : ∀ e ∈ settings', e ∈ settings)
    (hvalues : ∀ slot : Slot, slot.values settings' = slot.values settings) :
    Orderly settings' where
  fits e he := h.fits e (hsub e he)
  once slot := by
    rw [hvalues slot]
    exact h.once slot

theorem toEncoder_maxDepth {s : Settings} (hfile : fileLayer file = .ok layer)
    (h : readOr toDepth? none (winning layer env .maxDepth) = .ok s.encoder.maxDepth) :
    (toEncoder s.encoder).maxDepth = (winning layer env .maxDepth).bind Setting.toNat? ∧
      (toEncoder s.encoder).maxDepth.isSome = (winning layer env .maxDepth).isSome := by
  rw [toEncoder]
  cases hwinning : winning layer env .maxDepth with
  | none =>
      rw [hwinning] at h
      rw [← Except.ok.inj h]
      exact ⟨rfl, rfl⟩
  | some v =>
      have hv : v ≠ .nothing := by
        rcases Option.or_eq_some_iff.mp hwinning with hhead | ⟨-, hhead⟩
        · obtain ⟨text, rfl⟩ := exists_ofText_of_mem_values (List.mem_of_head? hhead)
          exact ofText_ne_nothing text
        · exact ne_nothing_of_mem_values hfile (List.mem_of_head? hhead)
      have hdepth : toDepth? v = v.toNat?.map some := by
        cases v with
        | nothing => exact absurd rfl hv
        | _ => rfl
      rw [hwinning, readOr, hdepth] at h
      cases hnat : v.toNat? with
      | none =>
          rw [hnat] at h
          cases h
      | some n =>
          rw [hnat] at h
          rw [← Except.ok.inj h, Option.bind_some, hnat]
          exact ⟨rfl, rfl⟩

/-- Settings are merged one by one. Each of the four has the value of its
variable, or else the one of the file, or else its default; nothing is loaded
exactly if one of the winning values cannot be converted. The encoder is
limited if a depth is set anywhere. Variables that lead to none of the four,
such as the ones of the command, and other keys of the file do not matter. -/
theorem layers_merge_per_setting (hfile : fileLayer file = .ok layer) (hlayer : Orderly layer)
    (henv : Orderly (environmentLayer env)) :
    (∀ s, load file env = .ok s ↔
      readOr toDepth? none (winning layer env .maxDepth) = .ok s.encoder.maxDepth ∧
      readOr Setting.toBool? false (winning layer env .pretty) = .ok s.encoder.pretty ∧
      readOr Setting.toText? "warn" (winning layer env .level) = .ok s.logging.level ∧
      readOr Setting.toBool? false (winning layer env .json) = .ok s.logging.json) ∧
    ((∃ e, load file env = .error e) ↔
      ∃ slot v, winning layer env slot = some v ∧ slot.accepts v = false) ∧
    (∀ s, load file env = .ok s →
      (toEncoder s.encoder).maxDepth = (winning layer env .maxDepth).bind Setting.toNat? ∧
      (toEncoder s.encoder).maxDepth.isSome = (winning layer env .maxDepth).isSome) ∧
    (∀ slot name text, name.toLower = slot.variableName → (name, text) ∈ env →
      winning layer env slot = some (.ofText text)) ∧
    (∀ (slot : Slot) g fields name v, g.toLower = slot.group → (g, .group fields) ∈ layer →
      name.toLower = slot.name → (name, v) ∈ fields → (slot.values layer).head? = some v) ∧
    (∀ before name text after, env = before ++ (name, text) :: after → Foreign name →
      load file env = load file (before ++ after)) ∧
    (∀ file' layer', fileLayer file' = .ok layer' → Orderly layer' →
      (∀ slot : Slot, slot.values layer' = slot.values layer) → load file' env = load file env) ∧
    Foreign "REQLWIRE_CONFIG" ∧ Foreign "REQLWIRE_LOG" := by
  have hload : load file env = (ofValues (winning layer env)).mapError .config :=
    load_eq hfile hlayer henv
  have hok : ∀ s, load file env = .ok s ↔ _ := fun s => by
    rw [hload, mapError_eq_ok_iff, ofValues_eq_ok_iff]
  refine ⟨hok, ?_, fun s hs => toEncoder_maxDepth hfile ((hok s).mp hs).1, ?_, ?_, ?_, ?_,
    foreign_config, foreign_log⟩
  · rw [hload, ← exists_ofValues_eq_error_iff]
    simp [mapError_eq_error_iff]
  · intro slot name text hname hmem
    have hentry : Setting.ofText text ∈ slot.values (environmentLayer env) := by
      refine List.mem_flatMap.mpr
        ⟨(slot.group ++ "." ++ slot.name, .ofText text), List.mem_filterMap.mpr ⟨_, hmem, ?_⟩, ?_⟩
      · simp [variablePath?_of_slot hname]
      · rw [given_path]
        exact List.mem_singleton_self _
    rw [winning, head?_values henv hentry, Option.some_or]
  · intro slot g fields name v hg hmem hname hv
    refine head?_values hlayer (List.mem_flatMap.mpr ⟨_, hmem, ?_⟩)
    rw [ofText_of_group hg, Slot.given, if_pos hg]
    exact mem_givenIn.mpr ⟨_, hv, hname, rfl⟩
  -- what gives nothing can be taken out of the layer of the environment
  · rintro before name text after rfl hforeign
    have hvalues : ∀ slot : Slot, slot.values (environmentLayer (before ++ after)) =
        slot.values (environmentLayer (before ++ (name, text) :: after)) := fun slot =>
      (values_foreign hforeign slot text before after).symm
    have hsub : (environmentLayer (before ++ after)).Sublist
        (environmentLayer (before ++ (name, text) :: after)) :=
      ((List.sublist_cons_self _ after).append_left before).filterMap _
    have henv' : Orderly (environmentLayer (before ++ after)) :=
      henv.of_values (fun e he => hsub.subset he) hvalues
    rw [hload, load_eq hfile hlayer henv']
    unfold winning
    simp only [hvalues]
  · intro file' layer' hfile' hlayer' hvalues
    rw [hload, load_eq hfile' hlayer' henv]
    unfold winning
    simp only [hvalues]

end Loading

/-- A file with a depth that is no number, and with a key that means nothing. -/
def wordyFile : String :=
  "[encoder]\nmax_depth = \"many\"\n\n[logging]\nlevel = \"debug\"\ncolour = 1\n"

def wordyLayer : List (String × Setting) :=
  [("encoder", .group [("max_depth", .text "many")]),
    ("logging", .group [("level", .text "debug"), ("colour", .integer 1)])]

/-- A variable of the command, and a depth. -/
def someVariables : List (String × String) :=
  [("REQLWIRE_CONFIG", "reql.toml"), ("ReqlWire_Encoder__Max_Depth", "64")]

theorem fileLayer_of_read {content : String} {fields : Fields Toml}
    {layer : List (String × Setting)} (hread : Toml.read content = some fields)
    (h : Setting.ofTomlTable fields = some (.group layer)) :
    fileLayer (.text content) = .ok layer := by
  simp [fileLayer, hread, h]

theorem fileLayer_wordyFile : fileLayer (.text wordyFile) = .ok wordyLayer := by
  have hread : Toml.read wordyFile =
      some [("encoder", .table .heading [("max_depth", .string "many")]),
        ("logging", .table .heading [("level", .string "debug"), ("colour", .integer 1)])] := by
    simp only [Toml.read, wordyFile, String.reduceToList]
    rfl
  refine fileLayer_of_read hread ?_
  simp [Setting.ofTomlTable, Setting.ofTomlFields, Setting.ofToml, Toml.markedMoment?,
    Toml.momentMark, wordyLayer]

theorem orderly_wordyLayer : Orderly wordyLayer where
  fits := by
    have hencoder : PathStep.ofText "encoder" = [.name "encoder"] := by decide +kernel
    have hlogging : PathStep.ofText "logging" = [.name "logging"] := by decide +kernel
    intro e he slot
    simp only [wordyLayer, List.mem_cons, List.not_mem_nil, or_false] at he
    rcases he with rfl | rfl
    · rw [hencoder]
      exact fun _ => isGroup_group _
    · rw [hlogging]
      exact fun _ => isGroup_group _
  once slot := by cases slot <;> decide +kernel

theorem environmentLayer_someVariables : environmentLayer someVariables =
    [("config", .text "reql.toml"), ("encoder.max_depth", .integer 64)] := by
  have hconfig : variablePath? "REQLWIRE_CONFIG" = some "config" := by decide +kernel
  have hdepth : variablePath? "ReqlWire_Encoder__Max_Depth" = some "encoder.max_depth" := by
    decide +kernel
  have hlower : "reql.toml".toLower = "reql.toml" ∧ "64".toLower = "64" := by decide +kernel
  have hword : readInt? "reql.toml".toList = none ∧ Double.ofText? "reql.toml" = none := by
    decide +kernel
  have hnumber : readInt? "64".toList = some 64 := by decide +kernel
  have hfits : InSignedRange 64 := by decide
  -- the characters stay inside the texts, where the facts above find them
  simp [-String.reduceToList, environmentLayer, someVariables, hconfig, hdepth, Setting.ofText,
    hlower, hword, hnumber, hfits]

theorem orderly_someVariables : Orderly (environmentLayer someVariables) where
  fits := by
    have hconfig : PathStep.ofText "config" = [.name "config"] := by decide +kernel
    have hdepth : PathStep.ofText "encoder.max_depth" = [.name "encoder", .name "max_depth"] := by
      decide +kernel
    intro e he slot
    simp only [environmentLayer_someVariables, List.mem_cons, List.not_mem_nil, or_false] at he
    rcases he with rfl | rfl
    · rw [hconfig]
      have hne : "config".toLower ≠ slot.group := by cases slot <;> decide +kernel
      exact fun h => absurd h hne
    · rw [hdepth]
      trivial
  once slot := by cases slot <;> decide +kernel

/-- The depth of the variable hides the one of the file, without which nothing
could be loaded. -/
theorem layers_merge_per_setting_wordyFile :
    (fileLayer (.text wordyFile) = .ok wordyLayer ∧ Orderly wordyLayer ∧
        Orderly (environmentLayer someVariables) ∧ Orderly (environmentLayer [])) ∧
      load (.text wordyFile) someVariables =
        .ok { encoder := { maxDepth := some 64 }, logging := { level := "debug" } } ∧
      ∃ e, load (.text wordyFile) [] = .error e := by
  have hnone : Orderly (environmentLayer []) := ⟨List.forall_mem_nil _, fun _ => Nat.zero_le 1⟩
  have hsome := layers_merge_per_setting fileLayer_wordyFile orderly_wordyLayer
    orderly_someVariables
  have hempty := layers_merge_per_setting fileLayer_wordyFile orderly_wordyLayer hnone
  refine ⟨⟨fileLayer_wordyFile, orderly_wordyLayer, orderly_someVariables, hnone⟩, ?_, ?_⟩
  · refine (hsome.1 _).mpr ⟨?_, ?_, ?_, ?_⟩ <;> decide +kernel
  · obtain ⟨-, hfails, -, -, hfile, -⟩ := hempty
    have hdepth : (Slot.maxDepth.values wordyLayer).head? = some (.text "many") :=
      hfile .maxDepth "encoder" [("max_depth", .text "many")] "max_depth" (.text "many")
        (by decide +kernel) (by simp [wordyLayer]) (by decide +kernel) (by simp)
    exact hfails.mpr ⟨.maxDepth, .text "many", hdepth, by decide +kernel⟩

/-- A variable below a setting, one that leads into a section as into a list,
and a key of a file that is a path in itself are not passed over. -/
theorem paths_are_not_passed_over :
    load .absent [] = .ok {} ∧
      load .absent [("REQLWIRE_ENCODER__PRETTY__X", "1")] = .error (.config .wrongType) ∧
      load .absent [("REQLWIRE_ENCODER[0]", "7")] = .ok { encoder := { maxDepth := some 7 } } ∧
      load (.text "\"encoder.max_depth\" = 7\n") [] =
        .ok { encoder := { maxDepth := some 7 } } := by
  have hread : Toml.read "\"encoder.max_depth\" = 7\n" =
      some [("encoder.max_depth", .integer 7)] := by
    simp only [Toml.read, String.reduceToList]
    rfl
  have hlayer : fileLayer (.text "\"encoder.max_depth\" = 7\n") =
      .ok [("encoder.max_depth", .integer 7)] := by
    refine fileLayer_of_read hread ?_
    simp [Setting.ofTomlTable, Setting.ofTomlFields, Setting.ofToml, Toml.markedMoment?,
      Toml.momentMark]
  refine ⟨rfl, ?_⟩
  simp only [load, mapError_eq_ok_iff, mapError_eq_error_iff, hlayer]
  refine ⟨⟨.wrongType, ?_, rfl⟩, ?_, ?_⟩ <;> decide +kernel

end Settings
end Reql
