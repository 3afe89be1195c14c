import Mathlib.Data.Bool.AllAny
import SingBox.Hysteria2.Masquerade.Files
import SingBox.Library.Codings
import SingBox.Library.Text

namespace SingBox.Hysteria2

open Library FileSystem
open Utf8 (decode encode)

section Decode

variable {bytes decoded : Bytes}

theorem hexValue_digits {byte digit : UInt8} (h : hexValue byte = some digit) :
    digit.toNat < 16 ∧ byte ∈ Percent.digits digit.toNat := by
  have hall : ∀ n < 256, (hexValue (UInt8.ofNat n)).all fun digit =>
      digit.toNat < 16 ∧ UInt8.ofNat n ∈ Percent.digits digit.toNat := by decide +kernel
  have hbyte := hall byte.toNat byte.toNat_lt
  rw [UInt8.ofNat_toNat, h, Option.all_some] at hbyte
  exact of_decide_eq_true hbyte

theorem hexValue_of_digits {digit : Nat} {byte : UInt8} (hdigit : digit < 16)
    (h : byte ∈ Percent.digits digit) : hexValue byte = some (UInt8.ofNat digit) := by
  have hall : ∀ digit < 16, (Percent.digits digit).all fun byte =>
      hexValue byte = some (UInt8.ofNat digit) := by decide +kernel
  exact List.all_iff_forall_prop.mp (hall digit hdigit) byte h

theorem join_digits {high low : Nat} (hhigh : high < 16) (hlow : low < 16) :
    UInt8.ofNat high <<< 4 ||| UInt8.ofNat low = UInt8.ofNat (high * 16 + low) := by
  have hall : ∀ high < 16, ∀ low < 16,
      UInt8.ofNat high <<< 4 ||| UInt8.ofNat low = UInt8.ofNat (high * 16 + low) := by decide +kernel
  exact hall high hhigh low hlow

theorem decodes_of_decodePercent (h : decodePercent bytes = some decoded) :
    Percent.Decodes bytes decoded := by
  fun_induction decodePercent bytes generalizing decoded with
  | case1 =>
      obtain rfl := Option.some.inj h
      exact .nil
  | case2 high low rest ih =>
      obtain ⟨first, hfirst, h⟩ := Option.bind_eq_some_iff.mp h
      obtain ⟨second, hsecond, h⟩ := Option.bind_eq_some_iff.mp h
      obtain ⟨others, hothers, h⟩ := Option.bind_eq_some_iff.mp h
      obtain rfl := Option.some.inj h
      obtain ⟨hhigh, hmarkHigh⟩ := hexValue_digits hfirst
      obtain ⟨hlow, hmarkLow⟩ := hexValue_digits hsecond
      have hjoin := join_digits hhigh hlow
      rw [UInt8.ofNat_toNat, UInt8.ofNat_toNat] at hjoin
      rw [hjoin]
      exact .escaped hhigh hlow hmarkHigh hmarkLow (ih hothers)
  | case3 => cases h
  | case4 byte rest hplain ih =>
      obtain ⟨others, hothers, rfl⟩ := Option.map_eq_some_iff.mp h
      exact .plain hplain (ih hothers)

theorem decodePercent_plain {byte : UInt8} (h : byte ≠ 37) (rest : Bytes) :
    decodePercent (byte :: rest) = (decodePercent rest).map (byte :: ·) := by
  match rest with
  | [] => exact if_neg h
  | [_] => exact if_neg h
  | _ :: _ :: _ => exact if_neg h

theorem decodePercent_of_decodes (h : Percent.Decodes bytes decoded) :
    decodePercent bytes = some decoded := by
  induction h with
  | nil => rfl
  | plain hplain _ ih => rw [decodePercent_plain hplain, ih, Option.map_some]
  | escaped hhigh hlow hfirst hsecond _ ih =>
      rw [decodePercent, if_pos rfl, hexValue_of_digits hhigh hfirst, hexValue_of_digits hlow hsecond, ih,
        ← join_digits hhigh hlow]
      rfl

theorem percentDecode_eq_some {value text : String} :
    percentDecode value = some text ↔ Percent.Decodes (encode value) (encode text) := by
  constructor
  · intro h
    obtain ⟨raw, hraw, htext⟩ := Option.bind_eq_some_iff.mp h
    rw [← Utf8.encode_of_decode htext]
    exact decodes_of_decodePercent hraw
  · intro h
    rw [percentDecode, decodePercent_of_decodes h]
    exact Utf8.decode_encode text

end Decode

section Components

variable {path relative : List Char} {names result : List Bytes}

-- What stands between two slashes.
def partComponent (part : List Char) : Option Component :=
  if part = [] ∨ part = ['.'] then none
  else if part = ['.', '.'] then some .parentDir
  else some (.normal part)

def Component.name : Component → Option Bytes
  | .normal name => some (encode (String.ofList name))
  | _ => none

def normalNames (components : List Component) : List Bytes := components.filterMap Component.name

theorem components_eq (path : List Char) : components path =
    (if path.head? = some '/' then [Component.rootDir]
      else if (path.splitOn '/').head? = some ['.'] then [Component.curDir] else []) ++
    (path.splitOn '/').filterMap partComponent := rfl

-- Neither what a path begins with nor the slashes there are names.
theorem normalNames_components (path : List Char) :
    normalNames (components path) = normalNames ((path.splitOn '/').filterMap partComponent) := by
  rw [components_eq, normalNames, normalNames, List.filterMap_append]
  split
  · rfl
  · split <;> rfl

theorem mem_parentDir (path : List Char) : Component.parentDir ∈ components path ↔
    Component.parentDir ∈ (path.splitOn '/').filterMap partComponent := by
  rw [components_eq, List.mem_append]
  split
  · simp
  · split <;> simp

theorem splitOn_trimmed (path : List Char) :
    ((path.dropWhile (· = '/')).splitOn '/').filterMap partComponent =
      (path.splitOn '/').filterMap partComponent := by
  induction path with
  | nil => rfl
  | cons char rest ih =>
      by_cases hslash : char = '/'
      · subst hslash
        have hsplit : ('/' :: rest).splitOn '/' = [] :: rest.splitOn '/' :=
          Text.splitOn_cons List.not_mem_nil rest
        have hdrop : ('/' :: rest).dropWhile (· = '/') = rest.dropWhile (· = '/') := rfl
        rw [hdrop, ih, hsplit]
        rfl
      · rw [List.dropWhile_cons_of_neg (by simpa using hslash)]

theorem rootDir_trimmed (path : List Char) :
    Component.rootDir ∉ components (path.dropWhile (· = '/')) := by
  have hhead : (path.dropWhile (· = '/')).head? ≠ some '/' := by
    intro h
    have hnot := List.head?_dropWhile_not (fun char => decide (char = '/')) path
    rw [h] at hnot
    cases hnot
  rw [components_eq, if_neg hhead, List.mem_append]
  rintro (hfront | hpart)
  · split at hfront
    · cases List.mem_singleton.mp hfront
    · cases hfront
  · obtain ⟨part, -, hpart⟩ := List.mem_filterMap.mp hpart
    unfold partComponent at hpart
    split at hpart
    · cases hpart
    · split at hpart <;> cases hpart

theorem foldlM_pushComponent (components : List Component) :
    components.foldlM pushComponent names = some result ↔
      (Component.parentDir ∉ components ∧ Component.rootDir ∉ components) ∧
        result = names ++ normalNames components := by
  induction components generalizing names with
  | nil =>
      have hnames : names ++ normalNames [] = names := List.append_nil names
      rw [hnames]
      exact ⟨fun h => ⟨⟨List.not_mem_nil, List.not_mem_nil⟩, (Option.some.inj h).symm⟩,
        fun h => congrArg some h.2.symm⟩
  | cons component rest ih =>
      cases component with
      | normal name =>
          have hcons : names ++ normalNames (.normal name :: rest) =
              names ++ [encode (String.ofList name)] ++ normalNames rest := by
            rw [List.append_assoc]
            rfl
          have hstep : (Component.normal name :: rest).foldlM pushComponent names =
              rest.foldlM pushComponent (names ++ [encode (String.ofList name)]) := rfl
          rw [hstep, ih, hcons]
          simp
      | curDir =>
          have hstep : (Component.curDir :: rest).foldlM pushComponent names =
              rest.foldlM pushComponent names := rfl
          have hsame : normalNames (.curDir :: rest) = normalNames rest := rfl
          rw [hstep, ih, hsame]
          simp
      | parentDir =>
          exact iff_of_false (fun h => by cases h) fun h => h.1.1 List.mem_cons_self
      | rootDir =>
          exact iff_of_false (fun h => by cases h) fun h => h.1.2 List.mem_cons_self

end Components

-- A name of something in a directory.
structure Plain (name : Bytes) : Prop where
  filled : name ≠ []
  slashless : 47 ∉ name
  current : name ≠ [46]
  parent : name ≠ [46, 46]

theorem mem_normalNames {path : List Char} {name : Bytes} (h : name ∈ normalNames (components path)) :
    ∃ part ∈ path.splitOn '/', partComponent part = some (.normal part) ∧
      name = encode (String.ofList part) := by
  rw [normalNames_components] at h
  obtain ⟨component, hcomponent, hname⟩ := List.mem_filterMap.mp h
  obtain ⟨part, hpart, hfound⟩ := List.mem_filterMap.mp hcomponent
  unfold partComponent at hfound
  split at hfound
  · cases hfound
  · next hfilled =>
      split at hfound
      · obtain rfl := Option.some.inj hfound
        cases hname
      · next hparent =>
          obtain rfl := Option.some.inj hfound
          refine ⟨part, hpart, ?_, (Option.some.inj hname).symm⟩
          rw [partComponent, if_neg hfilled, if_neg hparent]

theorem plain_normalNames {path : List Char} {name : Bytes} (h : name ∈ normalNames (components path)) :
    Plain name := by
  obtain ⟨part, hpart, hnormal, rfl⟩ := mem_normalNames h
  have hname (other : List Char) (hother : partComponent other ≠ some (.normal other)) :
      encode (String.ofList part) ≠ encode (String.ofList other) := by
    intro hsame
    rw [Utf8.encode_inj, String.ofList_inj] at hsame
    exact hother (hsame ▸ hnormal)
  refine ⟨hname [] (fun h => by cases h), ?_, hname ['.'] (fun h => by cases h),
    hname ['.', '.'] (fun h => by cases h)⟩
  intro hmem
  obtain ⟨char, hchar, hcode⟩ := Utf8.mem_encode (by decide) hmem
  rw [String.toList_ofList] at hchar
  have hsame : char = '/' := Char.toNat_inj.mp hcode.symm
  exact Text.not_mem_of_splitOn hpart (hsame ▸ hchar)

-- What is found, for every path of a request.
theorem safeRelativePath_eq_some {path : String} {relative : List Bytes} :
    safeRelativePath path = some relative ↔ ∃ decoded : String,
      Percent.Decodes (encode path) (encode decoded) ∧
      ('\\' ∉ decoded.toList ∧ '\x00' ∉ decoded.toList) ∧
      Component.parentDir ∉ components decoded.toList ∧
      relative = normalNames (components decoded.toList) := by
  have hscan (decoded : String) :
      (components (decoded.toList.dropWhile (· = '/'))).foldlM pushComponent [] = some relative ↔
        Component.parentDir ∉ components decoded.toList ∧
          relative = normalNames (components decoded.toList) := by
    rw [foldlM_pushComponent, normalNames_components, mem_parentDir, splitOn_trimmed,
      ← normalNames_components, ← mem_parentDir, List.nil_append]
    exact ⟨fun h => ⟨h.1.1, h.2⟩, fun h => ⟨⟨h.1, rootDir_trimmed _⟩, h.2⟩⟩
  have hmarks (decoded : String) :
      (decoded.toList.contains '\\' || decoded.toList.contains '\x00') = false ↔
        '\\' ∉ decoded.toList ∧ '\x00' ∉ decoded.toList := by simp
  constructor
  · intro h
    obtain ⟨decoded, hdecoded, h⟩ := Option.bind_eq_some_iff.mp h
    split at h
    · cases h
    · next hclean =>
        rw [Bool.not_eq_true, hmarks] at hclean
        exact ⟨decoded, percentDecode_eq_some.mp hdecoded, hclean, (hscan decoded).mp h⟩
  · rintro ⟨decoded, hdecoded, hclean, hfound⟩
    refine Option.bind_eq_some_iff.mpr ⟨decoded, percentDecode_eq_some.mpr hdecoded, ?_⟩
    rw [← hmarks] at hclean
    rw [if_neg (by rw [hclean]; exact Bool.false_ne_true)]
    exact (hscan decoded).mpr hfound

theorem join_below (root : Path) (relative : List Bytes) :
    ∃ below, join root relative = root ++ below ∧ Step.parent ∉ below := by
  by_cases hempty : relative = []
  · refine ⟨[.current], if_pos hempty, fun h => ?_⟩
    cases List.mem_singleton.mp h
  · refine ⟨Location.path relative, if_neg hempty, fun h => ?_⟩
    obtain ⟨name, -, hname⟩ := List.mem_map.mp h
    cases hname

section Escape

-- A text with all its bytes escaped.
def escapedText (text : String) : String :=
  String.ofList ((Percent.escape (encode text)).map fun byte => Char.ofNat byte.toNat)

theorem encode_escapedText (text : String) : encode (escapedText text) = Percent.escape (encode text) := by
  have hmarks : ∀ byte ∈ Percent.marks, byte.toNat < 128 := List.all_iff_forall_prop.mp (by decide)
  exact (Utf8.encode_ascii fun byte hmem => hmarks byte (Percent.escape_marks _ byte hmem)).symm

theorem percentDecode_escapedText (text : String) : percentDecode (escapedText text) = some text := by
  rw [percentDecode_eq_some, encode_escapedText]
  exact Percent.decodes_escape (encode text)

theorem escapedText_chars (text : String) :
    ∀ char ∈ (escapedText text).toList, char ∉ ['/', '.', '\\', '\x00'] := by
  have hmarks : ∀ byte ∈ Percent.marks, Char.ofNat byte.toNat ∉ ['/', '.', '\\', '\x00'] :=
    List.all_iff_forall_prop.mp (by decide)
  intro char hmem
  rw [escapedText, String.toList_ofList] at hmem
  obtain ⟨byte, hbyte, rfl⟩ := List.mem_map.mp hmem
  exact hmarks byte (Percent.escape_marks _ byte hbyte)

-- A path that is a single name.
theorem components_name {path : List Char} (hne : path ≠ []) (h : ∀ char ∈ path, char ∉ ['/', '.']) :
    components path = [.normal path] := by
  have hslash : '/' ∉ path := fun hmem => h '/' hmem List.mem_cons_self
  have hdots (dots : List Char) (hdots : '.' ∈ dots) : path ≠ dots := by
    rintro rfl
    exact h '.' hdots (by decide)
  have hsplit : path.splitOn '/' = [path] := List.splitOn_eq_singleton hslash
  have hhead : path.head? ≠ some '/' := fun hhead => hslash (List.mem_of_mem_head? hhead)
  have hfront : [path].head? ≠ some ['.'] := fun hsame =>
    hdots ['.'] List.mem_cons_self (Option.some.inj hsame)
  have hplain : ¬(path = [] ∨ path = ['.']) := not_or.mpr ⟨hne, hdots ['.'] List.mem_cons_self⟩
  rw [components_eq, hsplit, if_neg hhead, if_neg hfront, List.filterMap_cons, partComponent,
    if_neg hplain, if_neg (hdots ['.', '.'] List.mem_cons_self)]
  rfl

-- What has been escaped twice is a name with the escapes of the first time in it.
theorem safeRelativePath_twice {text : String} (h : text ≠ "") :
    safeRelativePath (escapedText (escapedText text)) = some [encode (escapedText text)] := by
  have hmarks := escapedText_chars text
  have hne : (escapedText text).toList ≠ [] := by
    intro hnil
    have hencoded := percentDecode_escapedText text
    rw [String.toList_eq_nil_iff.mp hnil] at hencoded
    exact h (Option.some.inj hencoded).symm
  have hname := components_name hne fun char hmem hin =>
    hmarks char hmem (List.mem_append_left ['\\', '\x00'] hin)
  refine safeRelativePath_eq_some.mpr ⟨escapedText text, ?_, ⟨?_, ?_⟩, ?_, ?_⟩
  · exact percentDecode_eq_some.mp (percentDecode_escapedText (escapedText text))
  · exact fun hmem => hmarks _ hmem (by decide)
  · exact fun hmem => hmarks _ hmem (by decide)
  · rw [hname]
    exact fun hmem => by cases List.mem_singleton.mp hmem
  · rw [hname]
    show _ = [encode (String.ofList (escapedText text).toList)]
    rw [String.ofList_toList]

end Escape

-- The path of a request leads nowhere above the root.
theorem safeRelativePath_below :
    (∀ path relative, safeRelativePath path = some relative ↔ ∃ decoded : String,
      Percent.Decodes (encode path) (encode decoded) ∧
      ('\\' ∉ decoded.toList ∧ '\x00' ∉ decoded.toList) ∧
      Component.parentDir ∉ components decoded.toList ∧
      relative = normalNames (components decoded.toList)) ∧
    (∀ path relative, safeRelativePath path = some relative → (∀ name ∈ relative, Plain name) ∧
      ∀ root, ∃ below, join root relative = root ++ below ∧ Step.parent ∉ below) ∧
    ∀ text, text ≠ "" →
      safeRelativePath (escapedText (escapedText text)) = some [encode (escapedText text)] := by
  refine ⟨fun path relative => safeRelativePath_eq_some, fun path relative h => ⟨?_, ?_⟩,
    fun text => safeRelativePath_twice⟩
  · obtain ⟨decoded, _, _, _, rfl⟩ := safeRelativePath_eq_some.mp h
    exact fun name hmem => plain_normalNames hmem
  · exact fun root => join_below root relative

end SingBox.Hysteria2
