import SingBox.Cli.ConfigLoader.PathWise

namespace SingBox.Cli

open Library

variable {Number : Type} {source destination merged : List (String × Value Number)}

-- A field after the merge, from the field in the source and in the destination.
def FieldMerged : Option (Value Number) → Option (Value Number) → Option (Value Number) → Prop
  | none, destination, merged => merged = destination
  | some source, none, merged => merged = some source
  | some source, some destination, merged =>
      ∃ value, mergeValue source destination = .ok value ∧ merged = some value

theorem FieldMerged.eq_none {source destination merged : Option (Value Number)}
    (h : FieldMerged source destination merged) :
    merged = none ↔ destination = none ∧ source = none := by
  cases source with
  | none =>
      obtain rfl : merged = destination := h
      exact (and_iff_left rfl).symm
  | some sourceValue =>
      cases destination with
      | none =>
          obtain rfl : merged = some sourceValue := h
          exact ⟨nofun, nofun⟩
      | some value =>
          obtain ⟨_, -, rfl⟩ := h
          exact ⟨nofun, nofun⟩

theorem mergeFields_new {name : String} (sourceValue : Value Number)
    (h : SortedMap.get name destination = none) :
    mergeFields ((name, sourceValue) :: source) destination =
      mergeFields source (SortedMap.insert name sourceValue (SortedMap.remove name destination)) := by
  rw [mergeFields, h]
  rfl

theorem mergeFields_old {name : String} {old : Value Number} (sourceValue : Value Number)
    (h : SortedMap.get name destination = some old) :
    mergeFields ((name, sourceValue) :: source) destination =
      Result.withContext s!"merge object field {name}" (mergeValue sourceValue old) >>= fun value =>
        mergeFields source (SortedMap.insert name value (SortedMap.remove name destination)) := by
  rw [mergeFields, h]

theorem mergeFields_ok (hsource : SortedMap.Sorted source)
    (hdestination : SortedMap.Sorted destination) (h : mergeFields source destination = .ok merged) :
    SortedMap.Sorted merged ∧ ∀ key, FieldMerged (SortedMap.get key source)
      (SortedMap.get key destination) (SortedMap.get key merged) := by
  induction source generalizing destination with
  | nil =>
      obtain rfl := Except.ok.inj h
      exact ⟨hdestination, fun _ => rfl⟩
  | cons field source ih =>
      obtain ⟨name, sourceValue⟩ := field
      obtain ⟨hhead, htail⟩ := List.pairwise_cons.mp hsource
      -- the field gets its value, and the other ones are left to the rest of the source
      obtain ⟨value, hvalue, hrest⟩ : ∃ value,
          FieldMerged (some sourceValue) (SortedMap.get name destination) (some value) ∧
            mergeFields source (SortedMap.insert name value (SortedMap.remove name destination)) =
              .ok merged := by
        cases hold : SortedMap.get name destination with
        | none => exact ⟨sourceValue, rfl, (mergeFields_new sourceValue hold).symm.trans h⟩
        | some old =>
            rw [mergeFields_old sourceValue hold] at h
            obtain ⟨value, hvalue, hrest⟩ := Result.bind_eq_ok.mp h
            exact ⟨value, ⟨value, Result.withContext_eq_ok.mp hvalue, rfl⟩, hrest⟩
      obtain ⟨hsorted, hfields⟩ :=
        ih htail (SortedMap.sorted_insert (SortedMap.sorted_remove hdestination)) hrest
      refine ⟨hsorted, fun key => ?_⟩
      have hfield := hfields key
      rw [SortedMap.get_insert] at hfield
      rw [SortedMap.get]
      by_cases hkey : name = key
      · subst hkey
        have hnone : SortedMap.get name source = none :=
          SortedMap.get_eq_none fun entry hmem => (hhead entry hmem).ne'
        rw [if_pos rfl, hnone] at hfield
        rw [if_pos rfl, hfield]
        exact hvalue
      · rw [if_neg hkey, SortedMap.get_remove_of_ne hkey] at hfield
        rwa [if_neg hkey]

theorem mergeFields_error {chain : List String} (hsource : SortedMap.Sorted source)
    (h : mergeFields source destination = .error chain) :
    ∃ key sourceValue old inner, SortedMap.get key source = some sourceValue ∧
      SortedMap.get key destination = some old ∧ mergeValue sourceValue old = .error inner := by
  induction source generalizing destination with
  | nil => cases h
  | cons field source ih =>
      obtain ⟨name, sourceValue⟩ := field
      obtain ⟨hhead, htail⟩ := List.pairwise_cons.mp hsource
      have hlater {value : Value Number}
          (hrest : mergeFields source
            (SortedMap.insert name value (SortedMap.remove name destination)) = .error chain) :
          ∃ key sourceLater old inner,
            SortedMap.get key ((name, sourceValue) :: source) = some sourceLater ∧
              SortedMap.get key destination = some old ∧
                mergeValue sourceLater old = .error inner := by
        obtain ⟨key, later, old, inner, hget, hold, hinner⟩ := ih htail hrest
        have hkey : name ≠ key := (hhead _ (SortedMap.mem_of_get hget)).ne
        rw [SortedMap.get_insert, if_neg hkey, SortedMap.get_remove_of_ne hkey] at hold
        exact ⟨key, later, old, inner, (if_neg hkey).trans hget, hold, hinner⟩
      cases hold : SortedMap.get name destination with
      | none => exact hlater ((mergeFields_new sourceValue hold).symm.trans h)
      | some old =>
          rw [mergeFields_old sourceValue hold] at h
          obtain hvalue | ⟨value, -, hrest⟩ := Result.bind_eq_error.mp h
          · obtain ⟨inner, hinner, -⟩ := Result.withContext_eq_error.mp hvalue
            exact ⟨name, sourceValue, old, inner, if_pos rfl, hold, hinner⟩
          · exact hlater hrest

-- What the merge of one more value comes to.
def Extends (values : List (Value Number)) (source : Value Number) :
    Result (Value Number) → Prop
  | .ok value => Merges (values ++ [source]) value
  | .error _ => Clashes (values ++ [source])

theorem present_cons {first source : Value Number} {values rest : List (Value Number)}
    (hfirst : present values = first :: rest) (hsource : source.isNull = false) :
    present (values ++ [source]) = first :: (rest ++ [source]) := by
  rw [present_append, hfirst, present, List.filter_cons_of_pos (by rw [hsource]; rfl)]
  rfl

theorem Extends.of_counted {values : List (Value Number)} {source destination : Value Number}
    (h : Merges values destination)
    (hcounted : source.isNull = false → Extends values source (mergeValue source destination)) :
    Extends values source (mergeValue source destination) := by
  cases source with
  | null =>
      have hpresent : present (values ++ [.null]) = present values := by
        rw [present_append]
        exact List.append_nil _
      exact h.of_present (by simp) hpresent
  | bool | number | string | array | object => exact hcounted rfl

theorem extends_object {values rest : List (Value Number)} {source fields : List (String × Value Number)}
    (hfirst : present values = .object fields :: rest)
    (hrest : ∀ value ∈ rest, value.isObject = true) (hsorted : SortedMap.Sorted merged)
    (hnone : ∀ key, SortedMap.get key merged = none ↔ valuesAt key values = [])
    (hfield : ∀ key value, SortedMap.get key merged = some value →
      Merges (valuesAt key values) value)
    (hsource : (Value.object source).Valid)
    (ih : ∀ key value, SortedMap.get key merged = some value → ∀ sourceValue : Value Number,
      sourceValue.Valid →
        Extends (valuesAt key values) sourceValue (mergeValue sourceValue value)) :
    Extends values (.object source) (mergeValue (.object source) (.object merged)) := by
  obtain ⟨hsource, hvalid⟩ : SortedMap.Sorted source ∧ ∀ field ∈ source, field.2.Valid := by
    cases hsource with
    | object hsource hvalid => exact ⟨hsource, hvalid⟩
  have hpresent : present (values ++ [.object source]) =
      .object fields :: (rest ++ [.object source]) := present_cons hfirst rfl
  have hat (key : String) : valuesAt key (values ++ [.object source]) =
      valuesAt key values ++ (SortedMap.get key source).toList := by
    rw [valuesAt_append, valuesAt_object]
  cases hfields : mergeFields source merged with
  | error chain =>
      obtain ⟨key, sourceValue, old, inner, hget, hold, hinner⟩ := mergeFields_error hsource hfields
      have hclash := ih key old hold sourceValue (hvalid _ (SortedMap.mem_of_get hget))
      rw [hinner] at hclash
      obtain ⟨path, hpath⟩ := hclash
      have hmerged : mergeValue (.object source) (.object merged) = .error chain := by
        rw [mergeValue, hfields]
        rfl
      rw [hmerged]
      refine ⟨key :: path, ⟨_, _, hpresent⟩, ?_⟩
      rw [hat, hget]
      exact hpath
  | ok result =>
      obtain ⟨hresult, hkeys⟩ := mergeFields_ok hsource hsorted hfields
      have hmerged : mergeValue (.object source) (.object merged) = .ok (.object result) := by
        rw [mergeValue, hfields]
        rfl
      rw [hmerged]
      refine .object hpresent ?_ hresult (fun key => ?_) fun key value hvalue => ?_
      · intro value hmem
        obtain hmem | hmem := List.mem_append.mp hmem
        · exact hrest value hmem
        · rw [List.mem_singleton.mp hmem]
          rfl
      · rw [hat, List.append_eq_nil_iff, ← hnone, Option.toList_eq_nil_iff]
        exact (hkeys key).eq_none
      · have hkey := hkeys key
        rw [hvalue] at hkey
        rw [hat]
        cases hsourceValue : SortedMap.get key source with
        | none =>
            rw [hsourceValue] at hkey
            rw [Option.toList_none, List.append_nil]
            exact hfield key value hkey.symm
        | some sourceValue =>
            have hsourceValid := hvalid _ (SortedMap.mem_of_get hsourceValue)
            rw [hsourceValue] at hkey
            cases hold : SortedMap.get key merged with
            | none =>
                rw [hold] at hkey
                obtain rfl := Option.some.inj hkey
                rw [(hnone key).mp hold]
                exact .single hsourceValid
            | some old =>
                rw [hold] at hkey
                obtain ⟨_, hmerge, hsame⟩ := hkey
                obtain rfl := Option.some.inj hsame
                have hextends := ih key old hold sourceValue hsourceValid
                rw [hmerge] at hextends
                exact hextends

-- One more value, by induction on how those before it merge.
theorem merges_step {values : List (Value Number)} {source destination : Value Number}
    (h : Merges values destination) (hsource : source.Valid) :
    Extends values source (mergeValue source destination) := by
  induction h generalizing source with
  | @null values hsome hnone =>
      refine .of_counted (.null hsome hnone) fun hcounts => ?_
      have hmerged : mergeValue source .null = .ok source := by cases source <;> rfl
      have hpresent : present (values ++ [source]) = present [source] := by
        rw [present_append, hnone]
        rfl
      rw [hmerged]
      exact (Merges.single hsource).of_present (by simp) hpresent
  | @scalar first _ _ hfirst hscalar =>
      refine .of_counted (.scalar hfirst hscalar) fun hcounts => ?_
      have hmerged : mergeValue source first = .ok first := by
        cases first with
        | bool | number | string => cases source <;> rfl
        | null | array | object => cases hscalar
      rw [hmerged]
      exact .scalar (present_cons hfirst hcounts) hscalar
  | @array elements values rest hfirst =>
      refine .of_counted (.array hfirst) fun hcounts => ?_
      have hmerged : mergeValue source (.array (elements ++ rest.flatMap Value.elements)) =
          .ok (.array (elements ++ (rest ++ [source]).flatMap Value.elements)) := by
        rw [List.flatMap_append, ← List.append_assoc]
        cases source with
        | null => cases hcounts
        | bool | number | string | array | object => simp [mergeValue, Value.elements]
      rw [hmerged]
      exact .array (present_cons hfirst hcounts)
  | @object fields merged values rest hfirst hrest hsorted hnone hfield ih =>
      refine .of_counted (.object hfirst hrest hsorted hnone hfield) fun hcounts => ?_
      cases source with
      | null => cases hcounts
      | object source =>
          exact extends_object hfirst hrest hsorted hnone hfield hsource
            fun key value hget _ => ih key value hget
      | bool | number | string | array =>
          exact ⟨[], _, _, present_cons hfirst rfl, _, List.mem_append_right _
            (List.mem_singleton_self _), rfl⟩

section Load

variable {readToString : String → Result String} {fromStr : String → Result (Json Number)}

-- Files that are read to these values.
abbrev Reads (readToString : String → Result String) (fromStr : String → Result (Json Number)) :
    List String → List (Json Number) → Prop :=
  List.Forall₂ fun path value => readSource readToString fromStr path = .ok value

def rawValues (values : List (Json Number)) : List (Value Number) := values.map Subtype.val

-- What `load` gets from the values of its files.
def Loads (values : List (Value Number)) : Result (Option (Value Number)) → Prop
  | .ok merged => ∃ value, merged = some value ∧ Merges values value
  | .error _ => Clashes values

theorem loads_more {paths : List String} {values : List (Json Number)}
    {before : List (Value Number)} {merged : Value Number}
    (h : Reads readToString fromStr paths values) (hbefore : Merges before merged) :
    Loads (before ++ rawValues values) (loadFrom readToString fromStr (some merged) paths) := by
  induction h generalizing before merged with
  | nil =>
      rw [rawValues, List.map_nil, List.append_nil]
      exact ⟨merged, rfl, hbefore⟩
  | @cons path value paths values hread _ ih =>
      have hstep := merges_step hbefore value.property
      have hvalues : before ++ rawValues (value :: values) =
          (before ++ [value.val]) ++ rawValues values := List.append_cons ..
      have hloop : loadFrom readToString fromStr (some merged) (path :: paths) =
          Result.withContext s!"merge config {path}" (mergeValue value.val merged) >>= fun next =>
            loadFrom readToString fromStr (some next) paths := by
        rw [loadFrom, hread]
        rfl
      rw [hvalues, hloop]
      cases hmerge : mergeValue value.val merged with
      | error chain =>
          rw [hmerge] at hstep
          obtain ⟨clash, hclash⟩ := hstep
          exact ⟨clash, hclash.append _⟩
      | ok next =>
          rw [hmerge] at hstep
          exact ih hstep

theorem loads_all {paths : List String} {values : List (Json Number)}
    (h : Reads readToString fromStr paths values) (hsome : paths ≠ []) :
    Loads (rawValues values) (loadFrom readToString fromStr none paths) := by
  cases h with
  | nil => exact absurd rfl hsome
  | @cons path value paths values hread hreads =>
      have hloop : loadFrom readToString fromStr none (path :: paths) =
          loadFrom readToString fromStr (some value.val) paths := by
        rw [loadFrom, hread]
        rfl
      rw [hloop]
      exact loads_more hreads (.single value.property)

-- The merged configuration is what the values are together.
theorem load_merges {paths : List String} {values : List (Json Number)}
    (h : Reads readToString fromStr paths values) (hsome : paths ≠ []) :
    (∀ merged, loadFrom readToString fromStr none paths = .ok merged ↔
      ∃ value, merged = some value ∧ Merges (rawValues values) value) ∧
    ((∃ chain, loadFrom readToString fromStr none paths = .error chain) ↔
      Clashes (rawValues values)) := by
  have hloads := loads_all h hsome
  cases hload : loadFrom readToString fromStr none paths with
  | error chain =>
      rw [hload] at hloads
      obtain ⟨path, hpath⟩ := hloads
      refine ⟨fun merged => ⟨nofun, ?_⟩, fun _ => ⟨path, hpath⟩, fun _ => ⟨chain, rfl⟩⟩
      rintro ⟨value, -, hmerges⟩
      exact absurd hpath hmerges.not_clashesAt
  | ok merged =>
      rw [hload] at hloads
      obtain ⟨value, rfl, hmerges⟩ := hloads
      refine ⟨fun merged => ⟨fun h => ?_, ?_⟩, nofun, fun ⟨path, hpath⟩ => ?_⟩
      · obtain rfl := Except.ok.inj h
        exact ⟨value, rfl, hmerges⟩
      · rintro ⟨other, rfl, hother⟩
        rw [hmerges.unique hother]
      · exact absurd hpath hmerges.not_clashesAt

-- The panic of `load` is not reached.
theorem load_ok {Config : Type} {fromValue : Value Number → Result Config} {config : Config}
    {paths read : List String} {values : List (Json Number)}
    (h : Reads readToString fromStr paths values) (hsome : paths ≠ []) :
    load readToString fromStr fromValue paths = .ok (config, read) ↔
      read = paths ∧ ∃ value, Merges (rawValues values) value ∧ fromValue value = .ok config := by
  have hensure : Result.ensure (!paths.isEmpty) "no JSON configuration files found" = .ok () := by
    cases paths with
    | nil => exact absurd rfl hsome
    | cons => rfl
  have hloads := loads_all h hsome
  cases hmerged : loadFrom readToString fromStr none paths with
  | error chain =>
      rw [hmerged] at hloads
      obtain ⟨clash, hclash⟩ := hloads
      rw [load, hensure, hmerged]
      refine ⟨nofun, ?_⟩
      rintro ⟨-, other, hother, -⟩
      exact absurd hclash hother.not_clashesAt
  | ok merged =>
      rw [hmerged] at hloads
      obtain ⟨merged, rfl, hmerges⟩ := hloads
      have hload : load readToString fromStr fromValue paths =
          Result.withContext "decode merged configuration" (fromValue merged) >>= fun config =>
            .ok (config, paths) := by
        rw [load, hensure, hmerged]
        rfl
      rw [hload]
      constructor
      · intro hdecoded
        obtain ⟨_, hconfig, hsame⟩ := Result.bind_eq_ok.mp hdecoded
        obtain ⟨rfl, rfl⟩ := Prod.mk.inj (Except.ok.inj hsame)
        exact ⟨rfl, merged, hmerges, Result.withContext_eq_ok.mp hconfig⟩
      · rintro ⟨rfl, other, hother, hconfig⟩
        obtain rfl := hmerges.unique hother
        exact Result.bind_eq_ok.mpr ⟨config, Result.withContext_eq_ok.mpr hconfig, rfl⟩

end Load

-- A file in which an array gets the value of a later one.
def sampleFiles (path : String) : Result String :=
  if path = "a.json" then .ok "\x7b\"a\":[1]\x7d // first" else .ok "\x7b\"a\":2\x7d"

def sampleFirst : Json Nat :=
  ⟨.object [("a", .array [.number 1])],
    .object (List.pairwise_singleton _ _) (List.forall_mem_singleton.mpr
      (.array (List.forall_mem_singleton.mpr (.number 1))))⟩

def sampleSecond : Json Nat :=
  ⟨.object [("a", .number 2)],
    .object (List.pairwise_singleton _ _) (List.forall_mem_singleton.mpr (.number 2))⟩

def sampleFromStr (text : String) : Result (Json Nat) :=
  if text = "\x7b\"a\":[1]\x7d         " then .ok sampleFirst
  else if text = "\x7b\"a\":2\x7d" then .ok sampleSecond
  else Result.bail "expected value"

theorem load_merges_sample :
    loadFrom sampleFiles sampleFromStr none ["a.json", "b.json"] =
        .ok (some (.object [("a", .array [.number 1, .number 2])])) ∧
      ∃ value, some (.object [("a", .array [.number 1, .number 2])]) = some value ∧
        Merges (rawValues [sampleFirst, sampleSecond]) value :=
  have hreads : Reads sampleFiles sampleFromStr ["a.json", "b.json"]
      [sampleFirst, sampleSecond] := .cons rfl (.cons rfl .nil)
  ⟨rfl, ((load_merges hreads (List.cons_ne_nil _ _)).1 _).mp rfl⟩

end SingBox.Cli
