import SingBox.Hysteria2.Masquerade.Paths
import SingBox.Library.Markup

namespace SingBox.Hysteria2

open Library FileSystem
open Markup (Token tokens)
open Utf8 (decode encode)

section Segment

-- How a byte of a name is written.
def segmentByte (byte : UInt8) : List Char :=
  if asciiAlphanumeric byte || [45, 95, 46, 126].contains byte then [Char.ofNat byte.toNat]
  else '%' :: [byte.toNat / 16, byte.toNat % 16].map fun digit => (Nat.digitChar digit).toUpper

theorem toList_percentEncodeSegment (value : String) :
    (percentEncodeSegment value).toList = (encode value).flatMap segmentByte := by
  rw [percentEncodeSegment, String.toList_ofList]
  rfl

-- The bytes that stand for themselves.
theorem unreserved {byte : UInt8}
    (h : (asciiAlphanumeric byte || [45, 95, 46, 126].contains byte) = true) :
    byte.toNat < 128 ∧ byte.toNat ≠ 34 ∧ byte ≠ 37 := by
  simp only [asciiAlphanumeric, Bool.or_eq_true, Bool.and_eq_true, decide_eq_true_eq,
    List.contains_eq_mem, List.mem_cons, List.not_mem_nil, or_false, UInt8.le_iff_toNat_le, ne_eq,
    ← UInt8.toNat_inj, UInt8.reduceToNat] at h ⊢
  omega

-- A byte stands for itself, or is written as two digits.
theorem segmentByte_cases (byte : UInt8) :
    ((byte.toNat < 128 ∧ byte.toNat ≠ 34 ∧ byte ≠ 37) ∧ segmentByte byte = [Char.ofNat byte.toNat]) ∨
      ∃ high < 16, ∃ low < 16, byte = UInt8.ofNat (high * 16 + low) ∧
        segmentByte byte = ['%', (Nat.digitChar high).toUpper, (Nat.digitChar low).toUpper] := by
  rw [segmentByte]
  split
  · next h => exact .inl ⟨unreserved h, rfl⟩
  · refine .inr ⟨byte.toNat / 16, Nat.div_lt_of_lt_mul byte.toNat_lt,
      byte.toNat % 16, Nat.mod_lt _ (by decide), ?_, rfl⟩
    rw [Nat.div_add_mod', UInt8.ofNat_toNat]

theorem decodes_segmentByte (byte : UInt8) :
    Percent.Decodes (encode (String.ofList (segmentByte byte))) [byte] := by
  obtain ⟨⟨hsmall, -, hmark⟩, hself⟩ | ⟨high, hhigh, low, hlow, hbyte, hescaped⟩ := segmentByte_cases byte
  · have hplain := Utf8.encode_ascii (List.forall_mem_singleton.mpr hsmall)
    rw [List.map_singleton] at hplain
    rw [hself, ← hplain]
    exact .plain hmark .nil
  · have hdigit : ∀ digit < 16, String.utf8EncodeChar (Nat.digitChar digit).toUpper =
        [UInt8.ofNat (Nat.digitChar digit).toUpper.toNat] := by decide
    have hupper (digit : Nat) :
        UInt8.ofNat (Nat.digitChar digit).toUpper.toNat ∈ Percent.digits digit :=
      List.mem_cons_of_mem _ List.mem_cons_self
    rw [hescaped, Utf8.encode_eq_flatMap, String.toList_ofList, List.flatMap_cons, List.flatMap_cons,
      List.flatMap_singleton, hdigit _ hhigh, hdigit _ hlow, hbyte]
    exact .escaped hhigh hlow (hupper _) (hupper _) .nil

-- A name is read back from its segment.
theorem decodes_percentEncodeSegment (value : String) :
    Percent.Decodes (encode (percentEncodeSegment value)) (encode value) := by
  have hbytes (bytes : Bytes) :
      Percent.Decodes (encode (String.ofList (bytes.flatMap segmentByte))) bytes := by
    induction bytes with
    | nil => exact .nil
    | cons byte rest ih =>
        rw [List.flatMap_cons, String.ofList_append, Utf8.encode_append]
        exact (decodes_segmentByte byte).append ih
  have hvalue := hbytes (encode value)
  rwa [← toList_percentEncodeSegment, String.ofList_toList] at hvalue

end Segment

-- The entries of a listing. What a browser asks for, when it follows the link of one from a path
-- that ends with a slash, is that path and the target.
def linkSuffix (isDir : Bool) : String := if isDir then "/" else ""

def linkTarget (name : String) (isDir : Bool) : String := percentEncodeSegment name ++ linkSuffix isDir

theorem foldl_append (items : List (String × Bool)) (write : String × Bool → String) (front : String) :
    (items.foldl (fun html item => html ++ write item) front).toList =
      front.toList ++ items.flatMap fun item => (write item).toList := by
  induction items generalizing front with
  | nil => rw [List.foldl_nil, List.flatMap_nil, List.append_nil]
  | cons item items ih =>
      rw [List.foldl_cons, ih, String.toList_append, List.flatMap_cons, List.append_assoc]

section Links

variable {requestPath name : String} {relative : List Bytes}

-- A slash at the end of a path is one at the end of what it decodes to.
theorem decodes_slash {bytes front decoded : Bytes} (h : Percent.Decodes bytes decoded)
    (hbytes : bytes = front ++ [47]) : ∃ before, decoded = before ++ [47] := by
  have hdigits : ∀ digit < 16, (47 : UInt8) ∉ Percent.digits digit := by decide
  induction h generalizing front with
  | nil => simp at hbytes
  | @plain byte rest decoded _ hrest ih =>
      cases front with
      | nil =>
          obtain ⟨rfl, rfl⟩ := List.cons.inj hbytes
          cases hrest
          exact ⟨[], rfl⟩
      | cons first front =>
          obtain ⟨before, rfl⟩ := ih (List.cons.inj hbytes).2
          exact ⟨byte :: before, rfl⟩
  | @escaped high low first second rest decoded hhigh hlow hfirst hsecond _ ih =>
      rcases front with _ | ⟨_, _ | ⟨_, _ | ⟨_, front⟩⟩⟩
      · simp at hbytes
      · simp at hbytes
      · have hmark : second = 47 := by simp_all
        exact absurd (hmark ▸ hsecond) (hdigits low hlow)
      · obtain ⟨before, rfl⟩ := ih (by simpa using (List.cons.inj (List.cons.inj (List.cons.inj hbytes).2).2).2)
        exact ⟨_ :: before, rfl⟩

theorem safeRelativePath_slash (h : safeRelativePath requestPath = some relative)
    (hslash : requestPath.toList.getLast? = some '/') :
    ∃ before : String, Percent.Decodes (encode requestPath) (encode (before ++ "/")) ∧
      ('\\' ∉ (before ++ "/").toList ∧ '\x00' ∉ (before ++ "/").toList) ∧
      Component.parentDir ∉ components (before ++ "/").toList ∧
      relative = normalNames (components (before ++ "/").toList) := by
  obtain ⟨decoded, hdecodes, hclean, hparent, hrelative⟩ := safeRelativePath_eq_some.mp h
  obtain ⟨front, hfront⟩ := List.getLast?_eq_some_iff.mp hslash
  have hbytes : encode requestPath = encode (String.ofList front) ++ [47] := by
    rw [← String.ofList_toList (s := requestPath), hfront, String.ofList_append, Utf8.encode_append]
    rfl
  obtain ⟨text, htext⟩ := decodes_slash hdecodes hbytes
  obtain ⟨before, -, hbefore, -⟩ := Utf8.encode_split (by decide) htext.symm
  have hdecoded : decoded = before ++ "/" := by
    rw [← Utf8.encode_inj, Utf8.encode_append, htext, hbefore]
    rfl
  rw [hdecoded] at hdecodes hclean hparent hrelative
  exact ⟨before, hdecodes, hclean, hparent, hrelative⟩

theorem partComponent_plain (h : Plain (encode name)) :
    partComponent name.toList = some (.normal name.toList) := by
  have hne (other : String) (hother : encode name ≠ encode other) : name.toList ≠ other.toList :=
    fun hsame => hother (congrArg encode (String.toList_inj.mp hsame))
  have hplain : ¬(name.toList = [] ∨ name.toList = ['.']) :=
    not_or.mpr ⟨hne "" h.filled, hne "." h.current⟩
  have hparent : name.toList ≠ ['.', '.'] := hne ".." h.parent
  rw [partComponent, if_neg hplain, if_neg hparent]

-- One name more, and nothing else.
theorem components_link (before : String) (h : Plain (encode name)) (isDir : Bool) :
    ((before ++ "/" ++ name ++ linkSuffix isDir).toList.splitOn '/').filterMap partComponent =
      ((before ++ "/").toList.splitOn '/').filterMap partComponent ++ [.normal name.toList] := by
  have hslash : '/' ∉ name.toList := by
    intro hin
    refine h.slashless ?_
    rw [Utf8.encode_eq_flatMap]
    exact List.mem_flatMap.mpr ⟨'/', hin, by decide⟩
  have hfront : (before ++ "/").toList.splitOn '/' = before.toList.splitOn '/' ++ [[]] := by
    rw [String.toList_append]
    exact List.splitOn_append_cons_self before.toList []
  have hempty : [[]].filterMap partComponent = [] := rfl
  have hback : ((name.toList ++ (linkSuffix isDir).toList).splitOn '/').filterMap partComponent =
      [.normal name.toList] := by
    have hone := partComponent_plain h
    cases isDir with
    | false =>
        rw [linkSuffix, if_neg Bool.false_ne_true, String.toList_empty, List.append_nil,
          List.splitOn_eq_singleton hslash, List.filterMap_cons_some hone]
        rfl
    | true =>
        have hsplit : (name.toList ++ ['/']).splitOn '/' = [name.toList, []] :=
          Text.splitOn_cons hslash []
        rw [linkSuffix, if_pos rfl]
        show ((name.toList ++ ['/']).splitOn '/').filterMap partComponent = _
        rw [hsplit, List.filterMap_cons_some hone]
        rfl
  have hsplit : (before ++ "/" ++ name ++ linkSuffix isDir).toList.splitOn '/' =
      before.toList.splitOn '/' ++ (name.toList ++ (linkSuffix isDir).toList).splitOn '/' := by
    rw [String.append_assoc, String.toList_append, String.toList_append, String.toList_append,
      List.append_assoc]
    exact List.splitOn_append_cons_self before.toList _
  rw [hsplit, hfront, List.filterMap_append, List.filterMap_append, hempty, hback, List.append_nil]

theorem mem_suffix {char : Char} {isDir : Bool} (h : char ≠ '/') : char ∉ (linkSuffix isDir).toList := by
  cases isDir with
  | false => exact List.not_mem_nil
  | true => exact fun hin => h (List.mem_singleton.mp hin)

-- What a link of a listing leads to: the entry, unless its name has a backslash in it.
theorem safeRelativePath_link (h : safeRelativePath requestPath = some relative)
    (hslash : requestPath.toList.getLast? = some '/') (hplain : Plain (encode name))
    (hnul : '\x00' ∉ name.toList) (isDir : Bool) :
    safeRelativePath (requestPath ++ linkTarget name isDir) =
      if '\\' ∈ name.toList then none else some (relative ++ [encode name]) := by
  obtain ⟨before, hbefore, ⟨hbackslash, hzero⟩, hparent, rfl⟩ := safeRelativePath_slash h hslash
  have hdecodes : Percent.Decodes (encode (requestPath ++ linkTarget name isDir))
      (encode (before ++ "/" ++ name ++ linkSuffix isDir)) := by
    have hsuffix : Percent.Decodes (encode (linkSuffix isDir)) (encode (linkSuffix isDir)) := by
      cases isDir with
      | false => exact .nil
      | true => exact .plain (by decide) .nil
    rw [linkTarget, ← String.append_assoc, Utf8.encode_append, Utf8.encode_append, Utf8.encode_append,
      Utf8.encode_append (before ++ "/")]
    exact (hbefore.append (decodes_percentEncodeSegment name)).append hsuffix
  have hmem (char : Char) : char ∈ (before ++ "/" ++ name ++ linkSuffix isDir).toList ↔
      (char ∈ (before ++ "/").toList ∨ char ∈ name.toList) ∨ char ∈ (linkSuffix isDir).toList := by
    rw [String.toList_append, List.mem_append, String.toList_append, List.mem_append]
  split
  · next hname =>
      refine Option.eq_none_iff_forall_ne_some.mpr fun other hother => ?_
      obtain ⟨decoded, hsame, ⟨hclean, -⟩, -, -⟩ := safeRelativePath_eq_some.mp hother
      have hdecoded := percentDecode_eq_some.mpr hsame
      rw [percentDecode_eq_some.mpr hdecodes] at hdecoded
      obtain rfl := Option.some.inj hdecoded
      exact hclean ((hmem '\\').mpr (.inl (.inr hname)))
  · next hname =>
      have hparts := components_link before hplain isDir
      refine safeRelativePath_eq_some.mpr ⟨_, hdecodes, ⟨?_, ?_⟩, ?_, ?_⟩
      · rw [hmem]
        exact not_or.mpr ⟨not_or.mpr ⟨hbackslash, hname⟩, mem_suffix (by decide)⟩
      · rw [hmem]
        exact not_or.mpr ⟨not_or.mpr ⟨hzero, hnul⟩, mem_suffix (by decide)⟩
      · rw [mem_parentDir] at hparent ⊢
        rw [hparts]
        intro hin
        obtain hfront | hlast := List.mem_append.mp hin
        · exact hparent hfront
        · cases List.mem_singleton.mp hlast
      · rw [normalNames_components, normalNames_components (before ++ _ ++ _ ++ _).toList, hparts,
          normalNames, normalNames, List.filterMap_append]
        show _ = _ ++ [encode (String.ofList name.toList)]
        rw [String.ofList_toList]

end Links

section Serving

variable {http : HttpCrate} {files : FileSystem} {root : Path} {request : Request}
variable {entries : List (Bytes × Node)}

-- The names in a directory.
structure Named (entries : List (Bytes × Node)) : Prop where
  plain : ∀ entry ∈ entries, Plain entry.1 ∧ 0 ∉ entry.1
  distinct : (entries.map Prod.fst).Nodup

theorem Named.lookup (h : Named entries) {name : Bytes} {node : Node} (hin : (name, node) ∈ entries) :
    entries.lookup name = some node := by
  obtain ⟨front, back, rfl⟩ := List.append_of_mem hin
  refine List.lookup_eq_some_iff.mpr ⟨front, back, rfl, fun entry hentry => bne_iff_ne.mpr ?_⟩
  have hdistinct := h.distinct
  rw [List.map_append, List.map_cons] at hdistinct
  exact ((List.nodup_append.mp hdistinct).2.2 entry.1 (List.mem_map_of_mem hentry) name
    List.mem_cons_self).symm

-- The request for a relative link of the page that the request was for.
def Request.follow (this : Request) (target : String) : Request :=
  { this with path := this.path ++ target, query := none }

theorem nul_encode {name : String} (h : '\x00' ∈ name.toList) : 0 ∈ encode name := by
  rw [Utf8.encode_eq_flatMap]
  exact List.mem_flatMap.mpr ⟨'\x00', h, by decide⟩

theorem canonicalize_below {relative : List Bytes} {path : Location} {name : Bytes} {node : Node}
    (h : files.canonicalize (join root relative) = some path)
    (hnode : files.root.get (path ++ [name]) = some node) (hlink : ¬node.isSymlink) :
    files.canonicalize (join root (relative ++ [name])) = some (path ++ [name]) := by
  have hjoin : join root (relative ++ [name]) = root ++ Location.path relative ++ [.name name] := by
    rw [join, if_neg (List.append_ne_nil_of_right_ne_nil _ (List.cons_ne_nil _ _)), Location.path,
      List.map_append, ← List.append_assoc]
    rfl
  rw [hjoin]
  refine canonicalize_entry ?_ hnode hlink
  by_cases hempty : relative = []
  · subst hempty
    rw [Location.path, List.map_nil, List.append_nil]
    rw [join, if_pos rfl] at h
    exact resolve_current files.maxLinks h
  · rwa [join, if_neg hempty] at h

-- The link of an entry that is no link itself.
theorem Request.Names.follow (isDir : Bool) {base path : Location} {name : String} {node : Node}
    (h : request.Names files root base path) (hslash : request.path.toList.getLast? = some '/')
    (hnode : files.node path.path = some (.directory entries)) (hentries : Named entries)
    (hin : (encode name, node) ∈ entries) (hlink : ¬node.isSymlink) (hname : '\\' ∉ name.toList) :
    (request.follow (linkTarget name isDir)).Names files root base (path ++ [encode name]) ∧
      files.node (Location.path (path ++ [encode name])) = some node := by
  obtain ⟨relative, hrelative, hpath⟩ := h.requested
  have hreal := canonicalize_real hpath
  rw [FileSystem.node, canonicalize_path hreal, Option.bind_some] at hnode
  have hget : files.root.get (path ++ [encode name]) = some node := by
    rw [Node.get_append, hnode, Option.bind_some]
    exact hentries.lookup hin
  obtain ⟨hplain, hnul⟩ := hentries.plain _ hin
  have hzero : '\x00' ∉ name.toList := fun hchar => hnul (nul_encode hchar)
  have hsafe := safeRelativePath_link hrelative hslash hplain hzero isDir
  rw [if_neg hname] at hsafe
  refine ⟨⟨h.allowed, h.canonicalRoot, ⟨_, hsafe, canonicalize_below hpath hget hlink⟩,
    h.inside.trans (List.prefix_append path _)⟩, ?_⟩
  rw [FileSystem.node, canonicalize_path (hreal.concat hget hlink), Option.bind_some]
  exact hget

end Serving

end SingBox.Hysteria2
