import Reql.Proofs.Fields
import Reql.Settings.Basic

/-!
The tree of settings that layers are put into.

Four settings are read. Every layer is a list of values under paths, which are
put into the tree one after the other. The invariant of the tree is that a
section that is read is either not there or a group. As long as it holds, an
entry can change a setting in two ways only: by a path that leads to it, or by
a path that leads to its section. An entry that is neither leaves the setting
as it was; an entry that is one of them replaces it.

A group can be extended by a later entry, but it has no value as a setting
whatever is in it. So settings are compared by their outlines, in which all
groups are the same.
-/

namespace Reql

namespace Setting

/-! ### Outlines -/

/-- `s.outline` is the setting without what is in it, if it is a group. -/
def outline : Setting → Setting
  | .group _ => .group []
  | s => s

def IsGroup (s : Setting) : Prop := ∃ fields, s = .group fields

@[simp] theorem isGroup_group (fields : List (String × Setting)) : (group fields).IsGroup :=
  ⟨fields, rfl⟩

theorem toBool?_outline (s : Setting) : s.outline.toBool? = s.toBool? := by
  cases s <;> rfl

theorem toText?_outline (s : Setting) : s.outline.toText? = s.toText? := by
  cases s <;> rfl

theorem toDepth?_outline (s : Setting) : Settings.toDepth? s.outline = Settings.toDepth? s := by
  cases s <;> rfl

def field? (root : Setting) (name : String) : Option Setting :=
  (Fields.get? root.fields name).map outline

/-! ### Entries of a section -/

/-- What is left under a name when a setting is put there. -/
def stored (old : Option Setting) : Setting → Setting
  | .group incoming => putAll (old.getD (.group [])) incoming
  | s => s

theorem put_eq (root : Setting) (name : String) (value : Setting) :
    root.put name value = .group (Fields.insert root.fields name.toLower
      (stored (Fields.get? root.fields name.toLower) value)) := by
  cases value <;> rfl

theorem isGroup_putAll {root : Setting} (h : root.IsGroup) (incoming : List (String × Setting)) :
    (putAll root incoming).IsGroup := by
  induction incoming generalizing root with
  | nil => exact h
  | cons entry rest ih =>
      obtain ⟨name, value⟩ := entry
      rw [putAll]
      exact ih (put_eq root name value ▸ isGroup_group _)

theorem outline_stored {old : Option Setting} {value : Setting}
    (h : ¬ value.IsGroup ∨ old = none) : (stored old value).outline = value.outline := by
  cases value with
  | group incoming =>
      rcases h with h | rfl
      · exact absurd (isGroup_group incoming) h
      · obtain ⟨fields, hfields⟩ := isGroup_putAll (isGroup_group []) incoming
        rw [stored, Option.getD_none, hfields]
        rfl
  | _ => rfl

theorem field?_group_insert (fields : Fields Setting) (name other : String) (value : Setting) :
    (group (Fields.insert fields name value)).field? other =
      if name = other then some value.outline else (group fields).field? other := by
  rw [field?, Setting.fields, Fields.get?_insert]
  split <;> rfl

/-! ### Layers in general -/

section Folds

variable {σ ε : Type} {step : σ → ε → σ} {observe : σ → Option Setting}
  {given : ε → List Setting} {Inv : σ → Prop} {Good : ε → Prop}

/-- `Settles step observe given Inv Good`: an entry replaces an observed
setting by what it gives, or leaves it as it was if it gives nothing. A group
is given only to what is not set yet. -/
def Settles (step : σ → ε → σ) (observe : σ → Option Setting) (given : ε → List Setting)
    (Inv : σ → Prop) (Good : ε → Prop) : Prop :=
  ∀ s e, Inv s → Good e → (given e).length ≤ 1 →
    ((∀ v ∈ given e, ¬ v.IsGroup) ∨ observe s = none) →
      Inv (step s e) ∧ observe (step s e) = ((given e).head?.map outline).or (observe s)

/-- What entries do that are put one after the other, if not more than one of
them gives anything. -/
theorem Settles.foldl (hstep : Settles step observe given Inv Good)
    (entries : List ε) {s : σ} (hs : Inv s) (hgood : ∀ e ∈ entries, Good e)
    (honce : (entries.flatMap given).length ≤ 1)
    (hnew : (∀ v ∈ entries.flatMap given, ¬ v.IsGroup) ∨ observe s = none) :
    Inv (entries.foldl step s) ∧
      observe (entries.foldl step s) =
        ((entries.flatMap given).head?.map outline).or (observe s) := by
  induction entries generalizing s with
  | nil => exact ⟨hs, rfl⟩
  | cons e rest ih =>
      obtain ⟨he, hrest⟩ := List.forall_mem_cons.mp hgood
      rw [List.flatMap_cons, List.length_append] at honce
      rw [List.flatMap_cons, List.forall_mem_append] at hnew
      obtain ⟨hinv, hobserve⟩ := hstep s e hs he (by omega) (hnew.imp_left And.left)
      rw [List.foldl_cons, List.flatMap_cons]
      cases hgiven : given e with
      | nil =>
          rw [hgiven] at hobserve
          have hsame : observe (step s e) = observe s := hobserve
          rw [List.nil_append, ← hsame]
          exact ih hinv hrest (by omega) (hnew.imp And.right hsame.trans)
      | cons v more =>
          have hnone : rest.flatMap given = [] := by
            rw [hgiven, List.length_cons] at honce
            exact List.eq_nil_of_length_eq_zero (by omega)
          obtain ⟨hend, hlast⟩ := ih hinv hrest (by omega) (.inl (by simp [hnone]))
          refine ⟨hend, ?_⟩
          rw [hlast, hnone, hobserve, hgiven]
          rfl

end Folds

/-- What the entries of a section give under a name. -/
def givenIn (name : String) (entries : List (String × Setting)) : List Setting :=
  entries.flatMap fun e => if e.1.toLower = name then [e.2] else []

theorem putAll_eq_foldl (root : Setting) (incoming : List (String × Setting)) :
    putAll root incoming = incoming.foldl (fun root e => root.put e.1 e.2) root := by
  induction incoming generalizing root with
  | nil => rfl
  | cons entry rest ih =>
      obtain ⟨name, value⟩ := entry
      rw [putAll, ih, List.foldl_cons]

theorem field?_putAll {root : Setting} {name : String} {incoming : List (String × Setting)}
    (honce : (givenIn name incoming).length ≤ 1)
    (hnew : (∀ v ∈ givenIn name incoming, ¬ v.IsGroup) ∨ root.field? name = none) :
    (putAll root incoming).field? name =
      ((givenIn name incoming).head?.map outline).or (root.field? name) := by
  have hstep : Settles (fun (root : Setting) (e : String × Setting) => root.put e.1 e.2)
      (fun root => root.field? name) (fun e => if e.1.toLower = name then [e.2] else [])
      (fun _ => True) fun _ => True := by
    intro root e _ _ _ hnew
    refine ⟨trivial, ?_⟩
    dsimp only at hnew ⊢
    rw [put_eq, field?_group_insert]
    split
    · rename_i hname
      have hold : ¬ e.2.IsGroup ∨ Fields.get? root.fields e.1.toLower = none := by
        rw [if_pos hname] at hnew
        rw [hname]
        exact hnew.imp (fun h => h e.2 (List.mem_singleton_self _)) Option.map_eq_none_iff.mp
      rw [outline_stored hold]
      rfl
    · rfl
  rw [putAll_eq_foldl]
  exact (hstep.foldl incoming trivial (fun _ _ => trivial) honce hnew).2

end Setting

namespace PathStep

theorem exists_name_ofText (text : String) : ∃ name rest, ofText text = .name name :: rest := by
  unfold ofText
  split
  split
  · exact ⟨_, _, rfl⟩
  · exact ⟨_, _, rfl⟩

end PathStep

namespace Settings

open Setting

/-! ### The settings that are read -/

inductive Slot
  | maxDepth
  | pretty
  | level
  | json
  deriving DecidableEq

namespace Slot

def group : Slot → String
  | maxDepth => "encoder"
  | pretty => "encoder"
  | level => "logging"
  | json => "logging"

def name : Slot → String
  | maxDepth => "max_depth"
  | pretty => "pretty"
  | level => "level"
  | json => "json"

def variableName (slot : Slot) : String := "reqlwire_" ++ slot.group ++ "__" ++ slot.name

/-- `slot.given value path`: the value itself, or what stands under the name in
a section. -/
def given (slot : Slot) (value : Setting) : List PathStep → List Setting
  | [.name g] => if g.toLower = slot.group then givenIn slot.name value.fields else []
  | [.name g, .name n] => if g.toLower = slot.group ∧ n.toLower = slot.name then [value] else []
  | _ => []

def values (slot : Slot) (layer : List (String × Setting)) : List Setting :=
  layer.flatMap fun e => slot.given e.2 (PathStep.ofText e.1)

/-- `slot.Fits value path`: a path to the section holds a section, and no path
leads below the setting or into the section as into a list. -/
def Fits (slot : Slot) (value : Setting) : List PathStep → Prop
  | [.name g] => g.toLower = slot.group → value.IsGroup
  | .name g :: .name n :: _ :: _ => ¬ (g.toLower = slot.group ∧ n.toLower = slot.name)
  | .name g :: .index _ :: _ => g.toLower ≠ slot.group
  | _ => True

end Slot

/-- A layer in which sections are sections and settings are settings, and none
of the settings that are read is given twice. -/
structure Orderly (layer : List (String × Setting)) : Prop where
  fits : ∀ e ∈ layer, ∀ slot : Slot, slot.Fits e.2 (PathStep.ofText e.1)
  once : ∀ slot : Slot, (slot.values layer).length ≤ 1

/-! ### The tree -/

/-- `section? root group` is the section, which is empty if it is not there. -/
def section? (root : Setting) (group : String) : Setting :=
  (Fields.get? root.fields group).getD (.group [])

/-- The setting of a slot, in outline. -/
def Slot.value? (slot : Slot) (root : Setting) : Option Setting :=
  (section? root slot.group).field? slot.name

/-- `Sectioned root`: the sections that are read are groups. -/
structure Sectioned (root : Setting) : Prop where
  isGroup : root.IsGroup
  sections : ∀ slot : Slot, (section? root slot.group).IsGroup

theorem sectioned_empty : Sectioned (.group []) where
  isGroup := isGroup_group _
  sections _ := isGroup_group _

/-- A change under one name keeps the sections groups if what it leaves there
is a group, or no section. -/
theorem Sectioned.insert {root : Setting} (h : Sectioned root) {group : String} {value : Setting}
    (hvalue : ∀ slot : Slot, group = slot.group → value.IsGroup) :
    Sectioned (.group (Fields.insert root.fields group value)) where
  isGroup := isGroup_group _
  sections slot := by
    rw [section?, Setting.fields, Fields.get?_insert]
    split
    · rename_i hgroup
      exact hvalue slot hgroup
    · exact h.sections slot

theorem Slot.value?_insert (slot : Slot) (root : Setting) (group : String) (value : Setting) :
    slot.value? (.group (Fields.insert root.fields group value)) =
      if group = slot.group then value.field? slot.name else slot.value? root := by
  rw [Slot.value?, section?, Setting.fields, Fields.get?_insert]
  split <;> rfl

section Entries

variable {root value : Setting} {slot : Slot} {g : String}

theorem settles_section (hroot : Sectioned root) (hfits : ∀ slot : Slot, slot.Fits value [.name g])
    (honce : (slot.given value [.name g]).length ≤ 1)
    (hnew : (∀ v ∈ slot.given value [.name g], ¬ v.IsGroup) ∨ slot.value? root = none) :
    Sectioned (root.putAt value [.name g]) ∧
      slot.value? (root.putAt value [.name g]) =
        ((slot.given value [.name g]).head?.map outline).or (slot.value? root) := by
  rw [putAt, put_eq]
  constructor
  · refine hroot.insert fun slot hg => ?_
    obtain ⟨incoming, rfl⟩ := hfits slot hg
    exact isGroup_putAll (hg ▸ hroot.sections slot) incoming
  · rw [Slot.value?_insert]
    split
    · rename_i hg
      obtain ⟨incoming, rfl⟩ := hfits slot hg
      rw [Slot.given, if_pos hg] at honce hnew ⊢
      rw [hg]
      exact field?_putAll honce hnew
    · rename_i hg
      rw [Slot.given, if_neg hg]
      rfl

/-- What an entry below a section leaves there: the section with one field
changed. -/
theorem exists_putAt_inner (root value : Setting) (g n : String) (rest : List PathStep) :
    ∃ w, root.putAt value (.name g :: .name n :: rest) =
        .group (Fields.insert root.fields g.toLower
          (.group (Fields.insert (section? root g.toLower).fields n.toLower w))) ∧
      (rest = [] → w = stored (Fields.get? (section? root g.toLower).fields n.toLower) value) := by
  have hfields : ((Fields.get? root.fields g.toLower).getD .nothing).fields =
      (section? root g.toLower).fields := by
    unfold section?
    cases Fields.get? root.fields g.toLower <;> rfl
  cases rest with
  | nil =>
      rw [putAt, putAt, put_eq, hfields]
      · exact ⟨_, rfl, fun _ => rfl⟩
      · simp
  | cons step rest =>
      rw [putAt, putAt, hfields]
      · exact ⟨_, rfl, fun h => by cases h⟩
      · simp
      · simp

/-- A setting of a section, or something below it, is put into the section
that is there. -/
theorem settles_inner {n : String} {rest : List PathStep} (hroot : Sectioned root)
    (hfits : slot.Fits value (.name g :: .name n :: rest))
    (hnew : (∀ v ∈ slot.given value (.name g :: .name n :: rest), ¬ v.IsGroup) ∨
      slot.value? root = none) :
    Sectioned (root.putAt value (.name g :: .name n :: rest)) ∧
      slot.value? (root.putAt value (.name g :: .name n :: rest)) =
        ((slot.given value (.name g :: .name n :: rest)).head?.map outline).or
          (slot.value? root) := by
  obtain ⟨w, hput, hw⟩ := exists_putAt_inner root value g n rest
  rw [hput, Slot.value?_insert, field?_group_insert]
  refine ⟨hroot.insert fun _ _ => isGroup_group _, ?_⟩
  -- an entry for another setting gives nothing and leaves the field of the slot alone
  by_cases hslot : g.toLower = slot.group ∧ n.toLower = slot.name
  · obtain ⟨hg, hn⟩ := hslot
    cases rest with
    | nil =>
        have hgiven : slot.given value [.name g, .name n] = [value] := if_pos ⟨hg, hn⟩
        rw [hgiven] at hnew ⊢
        have hold : ¬ value.IsGroup ∨
            Fields.get? (section? root g.toLower).fields n.toLower = none := by
          rw [hg, hn]
          exact hnew.imp (fun h => h value (List.mem_singleton_self _)) Option.map_eq_none_iff.mp
        rw [if_pos hg, if_pos hn, hw rfl, outline_stored hold]
        rfl
    | cons step rest => exact absurd ⟨hg, hn⟩ hfits
  · have hgiven : slot.given value (.name g :: .name n :: rest) = [] := by
      cases rest with
      | nil => exact if_neg hslot
      | cons step rest => rfl
    rw [hgiven, List.head?_nil, Option.map_none, Option.none_or]
    split
    · rename_i hg
      rw [if_neg fun hn => hslot ⟨hg, hn⟩, hg]
      rfl
    · rfl

theorem settles_index {i : Int} {rest : List PathStep} (hroot : Sectioned root)
    (hfits : ∀ slot : Slot, slot.Fits value (.name g :: .index i :: rest)) :
    Sectioned (root.putAt value (.name g :: .index i :: rest)) ∧
      slot.value? (root.putAt value (.name g :: .index i :: rest)) = slot.value? root := by
  rw [putAt, Slot.value?_insert, if_neg (hfits slot)]
  · exact ⟨hroot.insert fun slot hg => absurd hg (hfits slot), rfl⟩
  · simp

/-- An entry that fits sets what it gives and leaves everything else. -/
theorem settles_entry (slot : Slot) :
    Settles (fun (root : Setting) (e : String × Setting) => root.putAt e.2 (PathStep.ofText e.1))
      slot.value? (fun e => slot.given e.2 (PathStep.ofText e.1)) Sectioned
      fun e => ∀ slot : Slot, slot.Fits e.2 (PathStep.ofText e.1) := by
  intro root e hroot hfits honce hnew
  dsimp only at honce hnew ⊢
  obtain ⟨g, rest, hpath⟩ := PathStep.exists_name_ofText e.1
  rw [hpath] at hfits honce hnew ⊢
  rcases rest with _ | ⟨n | i, rest⟩
  · exact settles_section hroot hfits honce hnew
  · exact settles_inner hroot (hfits slot) hnew
  · exact settles_index hroot hfits

theorem value?_layer (hroot : Sectioned root) {settings : List (String × Setting)}
    (h : Orderly settings)
    (hnew : (∀ v ∈ slot.values settings, ¬ v.IsGroup) ∨ slot.value? root = none) :
    Sectioned (root.layer settings) ∧
      slot.value? (root.layer settings) =
        ((slot.values settings).head?.map outline).or (slot.value? root) :=
  (settles_entry slot).foldl settings hroot h.fits (h.once slot) hnew

end Entries

/-! ### Reading off -/

theorem readOr_map_outline {α : Type} {convert : Setting → Option α}
    (h : ∀ s, convert s.outline = convert s) (default : α) (value : Option Setting) :
    readOr convert default (value.map outline) = readOr convert default value := by
  cases value with
  | none => rfl
  | some s => rw [Option.map_some, readOr, readOr, h]

/-- The settings from the value of every slot, if there is one. -/
def ofValues (value? : Slot → Option Setting) : Except SettingsFault Settings := do
  let maxDepth ← readOr toDepth? none (value? .maxDepth)
  let pretty ← readOr Setting.toBool? false (value? .pretty)
  let level ← readOr Setting.toText? "warn" (value? .level)
  let json ← readOr Setting.toBool? false (value? .json)
  .ok { encoder := { maxDepth, pretty }, logging := { level, json } }

theorem sectionOf_eq {root : Setting} (h : Sectioned root) (slot : Slot) :
    sectionOf root slot.group = .ok (section? root slot.group) := by
  have hsection := h.sections slot
  rw [sectionOf]
  unfold section? at hsection ⊢
  cases hget : Fields.get? root.fields slot.group with
  | none => rfl
  | some s =>
      rw [hget] at hsection
      obtain ⟨fields, rfl⟩ := hsection
      rfl

theorem lookUp_eq {root : Setting} (h : root.IsGroup) (name : String) (index : Nat) :
    (lookUp root name index).map outline = root.field? name := by
  obtain ⟨fields, rfl⟩ := h
  rfl

theorem readOr_lookUp {α : Type} {convert : Setting → Option α}
    (h : ∀ s, convert s.outline = convert s) (default : α) {root : Setting} (hroot : Sectioned root)
    (slot : Slot) (index : Nat) :
    readOr convert default (lookUp (section? root slot.group) slot.name index) =
      readOr convert default (slot.value? root) := by
  rw [← readOr_map_outline h, lookUp_eq (hroot.sections slot)]
  rfl

theorem ofSetting_eq {root : Setting} (h : Sectioned root) :
    ofSetting root = ofValues fun slot => slot.value? root := by
  have hencoder : sectionOf root "encoder" = .ok (section? root "encoder") :=
    sectionOf_eq h .maxDepth
  have hlogging : sectionOf root "logging" = .ok (section? root "logging") :=
    sectionOf_eq h .level
  have hdepth := readOr_lookUp toDepth?_outline none h .maxDepth 0
  have hpretty := readOr_lookUp toBool?_outline false h .pretty 1
  have hlevel := readOr_lookUp toText?_outline "warn" h .level 0
  have hjson := readOr_lookUp toBool?_outline false h .json 1
  simp only [Slot.group, Slot.name] at hdepth hpretty hlevel hjson
  simp only [ofSetting, hencoder, hlogging, readEncoder, readLogging, ofValues, hdepth, hpretty,
    hlevel, hjson, bind, Except.bind]
  cases readOr toDepth? none (Slot.maxDepth.value? root) with
  | error e => rfl
  | ok maxDepth =>
      cases readOr Setting.toBool? false (Slot.pretty.value? root) with
      | error e => rfl
      | ok pretty =>
          cases readOr Setting.toText? "warn" (Slot.level.value? root) with
          | error e => rfl
          | ok level => cases readOr Setting.toBool? false (Slot.json.value? root) <;> rfl

end Settings
end Reql
