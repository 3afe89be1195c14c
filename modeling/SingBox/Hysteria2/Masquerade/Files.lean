import SingBox.Hysteria2.Masquerade
import SingBox.Library.FileSystem

namespace SingBox.Hysteria2

open Library FileSystem
open Core (toAsciiLowercase)
open Utf8 (decode encode)

inductive Component where
  | rootDir
  | curDir
  | parentDir
  | normal (name : List Char)

-- `Path::components`. A dot is kept at the front of a relative path only.
def components (path : List Char) : List Component :=
  let normal (part : List Char) : Option Component :=
    if part = [] ∨ part = ['.'] then none
    else if part = ['.', '.'] then some .parentDir
    else some (.normal part)
  let parts := path.splitOn '/'
  let front : List Component :=
    if path.head? = some '/' then [.rootDir] else if parts.head? = some ['.'] then [.curDir] else []
  front ++ parts.filterMap normal

def pushComponent (relative : List Bytes) : Component → Option (List Bytes)
  | .normal name => some (relative ++ [encode (String.ofList name)])
  | .curDir => some relative
  | .parentDir | .rootDir => none

-- The names of the relative path.
def safeRelativePath (path : String) : Option (List Bytes) := do
  let decoded ← percentDecode path
  if decoded.toList.contains '\\' || decoded.toList.contains '\x00' then none
  else (components (decoded.toList.dropWhile (· = '/'))).foldlM pushComponent []

-- `Path::join`: an empty path leaves a slash at the end.
def join (root : Path) (relative : List Bytes) : Path :=
  if relative = [] then root ++ [.current] else root ++ Location.path relative

-- `Path::extension` of a file's name.
def extension (name : Bytes) : Option Bytes :=
  match name.reverse.dropWhile (· ≠ 46) with
  | [] | [_] => none
  | _ :: _ :: _ => some (name.reverse.takeWhile (· ≠ 46)).reverse

def contentType (path : Path) : String :=
  let extension : Option Bytes :=
    match path.getLast? with
    | some (.name name) => extension name
    | _ => none
  match toAsciiLowercase ((extension.bind decode).getD "") with
  | "html" | "htm" => "text/html; charset=utf-8"
  | "css" => "text/css; charset=utf-8"
  | "js" | "mjs" => "text/javascript; charset=utf-8"
  | "json" => "application/json"
  | "txt" => "text/plain; charset=utf-8"
  | "svg" => "image/svg+xml"
  | "png" => "image/png"
  | "jpg" | "jpeg" => "image/jpeg"
  | "gif" => "image/gif"
  | "webp" => "image/webp"
  | "ico" => "image/x-icon"
  | "woff" => "font/woff"
  | "woff2" => "font/woff2"
  | "pdf" => "application/pdf"
  | _ => "application/octet-stream"

-- The names of a directory that are texts, unless they are too long together.
def listingNames : List (Bytes × Node) → Nat → Option (List (String × Bool))
  | [], _ => some []
  | (name, node) :: rest, listingSize =>
      match decode name with
      | none => listingNames rest listingSize
      | some text =>
          let listingSize := min (listingSize + name.length) (2 ^ 64 - 1)
          if MAX_MASQUERADE_RESPONSE_SIZE < listingSize then none
          else (listingNames rest listingSize).map ((text, node.isDirectory) :: ·)

def listingHtml (names : List (String × Bool)) (requestPath : String) : String :=
  let escapedPath := htmlEscape requestPath
  let html := "<!doctype html><html><head><meta charset=\"utf-8\"><title>Index of " ++ escapedPath ++
    "</title></head><body><h1>Index of " ++ escapedPath ++ "</h1><pre>"
  let html := if requestPath ≠ "/" then html ++ "<a href=\"../\">../</a>\n" else html
  let html := names.foldl (fun html (name, isDir) =>
    let suffix := if isDir then "/" else ""
    html ++ "<a href=\"" ++ percentEncodeSegment name ++ suffix ++ "\">" ++ htmlEscape name ++
      suffix ++ "</a>\n") html
  html ++ "</pre></body></html>"

-- A response, and what has been opened for its body.
structure Answer where
  response : Response
  opened : Option Path := none

def Answer.plain (status : Nat) : Answer := { response := plainResponse status [] }

section

variable (http : HttpCrate) (files : FileSystem)

def directoryListing (path : Path) (requestPath : String) : Answer :=
  match files.node path with
  | some (.directory entries) =>
      match listingNames entries 0 with
      | none => .plain 413
      | some names =>
          let names := names.mergeSort fun left right => left.1 ≤ right.1
          let html := encode (listingHtml names requestPath)
          if MAX_MASQUERADE_RESPONSE_SIZE < html.length then .plain 413
          else
            let response := plainResponse 200 html
            { response := { response with
                headers := insertHeader response.headers "content-type" "text/html; charset=utf-8" }
              opened := some path }
  | _ => .plain 404

-- The end of `serve_file`.
def readFile (path : Path) : Answer :=
  match files.node path with
  | some (.file content) =>
      if MAX_MASQUERADE_RESPONSE_SIZE < content.length then .plain 413
      else
        let response := plainResponse 200 content
        { response := { response with
            headers := insertHeader response.headers "content-type" (contentType path) }
          opened := some path }
  | _ => .plain 404

def indexPath (path : Location) : Path := path.path ++ [.name (encode "index.html")]

def serveFile (root : Path) (request : Request) : Answer :=
  if request.method ≠ "GET" ∧ request.method ≠ "HEAD" then
    { response := responseWithHeader http 405 "allow" "GET, HEAD" [] }
  else
    match safeRelativePath request.path with
    | none => .plain 404
    | some relative =>
        match files.canonicalize root with
        | none => .plain 404
        | some canonicalRoot =>
            match files.canonicalize (join root relative) with
            | none => .plain 404
            | some path =>
                if ¬canonicalRoot <+: path then .plain 404
                else
                  match files.node path.path with
                  | none => .plain 404
                  | some metadata =>
                      if metadata.isDirectory then
                        if request.path.toList.getLast? ≠ some '/' then
                          let location := request.path ++ "/" ++
                            (request.query.map ("?" ++ ·)).getD ""
                          { response := responseWithHeader http 301 "location" location [] }
                        else if (files.node (indexPath path)).any Node.isFile then
                          readFile files (indexPath path)
                        else directoryListing files path.path request.path
                      else readFile files path.path

end

section

variable {http : HttpCrate} {files : FileSystem} {root : Path} {request : Request}

-- The body is what has been opened for it, and empty if nothing has.
def Answer.Carries (files : FileSystem) (answer : Answer) : Prop :=
  match answer.opened with
  | none => answer.response.body = []
  | some path =>
      files.node path = some (.file answer.response.body) ∨
        ∃ entries names requestPath, files.node path = some (.directory entries) ∧
          listingNames entries 0 = some names ∧
          answer.response.body =
            encode (listingHtml (names.mergeSort fun left right => left.1 ≤ right.1) requestPath)

theorem plain_carries (status : Nat) : (Answer.plain status).Carries files := rfl

theorem responseWithHeader_body (status : Nat) (name value : String) :
    (responseWithHeader http status name value []).body = [] := by
  unfold responseWithHeader
  split
  · rfl
  · split <;> rfl

theorem readFile_carries (path : Path) : (readFile files path).Carries files := by
  unfold readFile
  split
  · next content hnode =>
      split
      · exact plain_carries 413
      · exact .inl hnode
  · exact plain_carries 404

theorem directoryListing_carries (path : Path) (requestPath : String) :
    (directoryListing files path requestPath).Carries files := by
  unfold directoryListing
  split
  · next entries hnode =>
      split
      · exact plain_carries 413
      · next names hnames =>
          simp only
          split
          · exact plain_carries 413
          · exact .inr ⟨entries, names, requestPath, hnode, hnames, rfl⟩
  · exact plain_carries 404

theorem serveFile_carries : (serveFile http files root request).Carries files := by
  unfold serveFile
  split
  · exact responseWithHeader_body _ _ _
  · split
    · exact plain_carries 404
    · split
      · exact plain_carries 404
      · split
        · exact plain_carries 404
        · split
          · exact plain_carries 404
          · split
            · exact plain_carries 404
            · split
              · split
                · exact responseWithHeader_body _ _ _
                · split
                  · exact readFile_carries _
                  · exact directoryListing_carries _ _
              · exact readFile_carries _

-- What the answer carries lies in the root, links followed.
def Answer.Confined (files : FileSystem) (root : Path) (answer : Answer) : Prop :=
  ∀ opened, answer.opened = some opened → ∃ base location, files.canonicalize root = some base ∧
    files.canonicalize opened = some location ∧ base <+: location

-- The request is for `path`, which lies in the root.
structure Request.Names (request : Request) (files : FileSystem) (root : Path)
    (base path : Location) : Prop where
  allowed : request.method = "GET" ∨ request.method = "HEAD"
  canonicalRoot : files.canonicalize root = some base
  requested : ∃ relative, safeRelativePath request.path = some relative ∧
    files.canonicalize (join root relative) = some path
  inside : base <+: path

-- The request is for a directory in the root, the index of which is a link to a file outside
-- of it that is small enough to be sent.
def Request.EscapesByIndex (request : Request) (files : FileSystem) (root : Path) : Prop :=
  ∃ base path target entries content, request.Names files root base path ∧
    files.node path.path = some (.directory entries) ∧ request.path.toList.getLast? = some '/' ∧
    files.canonicalize (indexPath path) = some target ∧ ¬base <+: target ∧
    files.root.get target = some (.file content) ∧ content.length ≤ MAX_MASQUERADE_RESPONSE_SIZE

theorem readFile_opened {path opened : Path} :
    (readFile files path).opened = some opened ↔ opened = path ∧ ∃ content,
      files.node path = some (.file content) ∧ content.length ≤ MAX_MASQUERADE_RESPONSE_SIZE := by
  unfold readFile
  split
  · next content hnode =>
      split
      · next hsize =>
          refine iff_of_false (by simp [Answer.plain]) ?_
          rintro ⟨-, other, hother, hle⟩
          obtain rfl : content = other := by simpa [hnode] using hother
          omega
      · next hsize =>
          constructor
          · intro h
            exact ⟨(Option.some.inj h).symm, content, hnode, by omega⟩
          · rintro ⟨rfl, -⟩
            rfl
  · next hnode =>
      refine iff_of_false (by simp [Answer.plain]) ?_
      rintro ⟨-, content, hcontent, -⟩
      exact hnode content hcontent

theorem directoryListing_opened {path opened : Path} {requestPath : String}
    (h : (directoryListing files path requestPath).opened = some opened) : opened = path := by
  unfold directoryListing at h
  split at h
  · split at h
    · simp [Answer.plain] at h
    · simp only at h
      split at h
      · simp [Answer.plain] at h
      · exact (Option.some.inj h).symm
  · simp [Answer.plain] at h

-- What is opened for a path in the root: the path itself, or the index below it.
def servePath (files : FileSystem) (path : Location) (request : Request) : Option Path :=
  match files.node path.path with
  | some (.directory _) =>
      if request.path.toList.getLast? ≠ some '/' then none
      else if (files.node (indexPath path)).any Node.isFile then
        (readFile files (indexPath path)).opened
      else (directoryListing files path.path request.path).opened
  | some _ => (readFile files path.path).opened
  | none => none

theorem serveFile_named {base path : Location} (h : request.Names files root base path) :
    (serveFile http files root request).opened = servePath files path request := by
  obtain ⟨hmethod, hbase, ⟨relative, hrelative, hpath⟩, hinside⟩ := h
  have hallowed : ¬(request.method ≠ "GET" ∧ request.method ≠ "HEAD") := by tauto
  unfold serveFile servePath
  rw [if_neg hallowed]
  simp only [hrelative, hbase, hpath, not_not.mpr hinside, if_false]
  cases hnode : files.node path.path with
  | none => rfl
  | some node =>
      cases node with
      | directory entries =>
          simp only [Node.isDirectory, if_true]
          split
          · rfl
          · split <;> rfl
      | file content => rfl
      | symlink absolute target => rfl

theorem serveFile_unnamed (h : ∀ base path, ¬request.Names files root base path) :
    (serveFile http files root request).opened = none := by
  unfold serveFile
  split
  · rfl
  · next hmethod =>
      split
      · rfl
      · next relative hrelative =>
          split
          · rfl
          · next base hbase =>
              split
              · rfl
              · next path hpath =>
                  refine congrArg Answer.opened (if_pos fun hinside => ?_)
                  exact h base path ⟨by tauto, hbase, ⟨relative, hrelative, hpath⟩, hinside⟩

-- The listing of a directory, and any file but an index, is of the canonical path itself.
theorem confined_self {base path : Location} {answer : Answer}
    (h : request.Names files root base path)
    (hopened : ∀ opened, answer.opened = some opened → opened = path.path) :
    answer.Confined files root := by
  intro opened ho
  obtain rfl := hopened opened ho
  obtain ⟨relative, -, hpath⟩ := h.requested
  exact ⟨base, path, h.canonicalRoot, canonicalize_path (canonicalize_real hpath), h.inside⟩

theorem Request.Names.unique {base path other : Location} {otherPath : Location}
    (h : request.Names files root base path) (ho : request.Names files root other otherPath) :
    base = other ∧ path = otherPath := by
  obtain ⟨relative, hrelative, hpath⟩ := h.requested
  obtain ⟨otherRelative, hother, hotherPath⟩ := ho.requested
  obtain rfl : relative = otherRelative := Option.some.inj (hrelative.symm.trans hother)
  exact ⟨Option.some.inj (h.canonicalRoot.symm.trans ho.canonicalRoot),
    Option.some.inj (hpath.symm.trans hotherPath)⟩

-- An index that is a file: it is sent if it is small enough, and lies in the root or not.
theorem confined_index {base path target : Location} {content : Bytes} {answer : Answer}
    (h : request.Names files root base path)
    (hanswer : answer.opened = (readFile files (indexPath path)).opened)
    (htarget : files.canonicalize (indexPath path) = some target)
    (hcontent : files.root.get target = some (.file content)) :
    answer.Confined files root ↔
      (content.length ≤ MAX_MASQUERADE_RESPONSE_SIZE → base <+: target) := by
  have hnode : files.node (indexPath path) = some (.file content) := by
    rw [node, htarget]
    exact hcontent
  constructor
  · intro hconfined hsize
    have hopened : answer.opened = some (indexPath path) := by
      rw [hanswer]
      exact readFile_opened.mpr ⟨rfl, content, hnode, hsize⟩
    obtain ⟨other, location, hbase, hlocation, hinside⟩ := hconfined _ hopened
    obtain rfl : base = other := Option.some.inj (h.canonicalRoot.symm.trans hbase)
    obtain rfl : target = location := Option.some.inj (htarget.symm.trans hlocation)
    exact hinside
  · intro hinside opened hopened
    rw [hanswer] at hopened
    obtain ⟨rfl, other, hother, hsize⟩ := readFile_opened.mp hopened
    obtain rfl : content = other := by simpa [hnode] using hother
    exact ⟨base, target, h.canonicalRoot, htarget, hinside hsize⟩

theorem node_file {path : Path} (h : (files.node path).any Node.isFile) :
    ∃ target content, files.canonicalize path = some target ∧
      files.root.get target = some (.file content) := by
  obtain ⟨node, hnode, hfile⟩ := (Option.any_eq_true _ _).mp h
  obtain ⟨target, htarget, hget⟩ := Option.bind_eq_some_iff.mp hnode
  cases node with
  | file content => exact ⟨target, content, htarget, hget⟩
  | directory entries => cases hfile
  | symlink absolute steps => cases hfile

-- The branch of an index.
structure TakesIndex (files : FileSystem) (path : Location) (request : Request) : Prop where
  directory : ∃ entries, files.node path.path = some (.directory entries)
  slash : request.path.toList.getLast? = some '/'
  file : (files.node (indexPath path)).any Node.isFile

theorem TakesIndex.servePath {path : Location} (h : TakesIndex files path request) :
    servePath files path request = (readFile files (indexPath path)).opened := by
  obtain ⟨entries, hnode⟩ := h.directory
  simp only [Hysteria2.servePath, hnode, h.slash, h.file, ne_eq, not_true_eq_false, if_false, if_true]

theorem servePath_self {path : Location} {opened : Path} (h : ¬TakesIndex files path request)
    (ho : servePath files path request = some opened) : opened = path.path := by
  unfold servePath at ho
  split at ho
  · next entries hnode =>
      split at ho
      · cases ho
      · next hslash =>
          split at ho
          · next hfile => exact absurd ⟨⟨entries, hnode⟩, not_not.mp hslash, hfile⟩ h
          · exact directoryListing_opened ho
  · exact (readFile_opened.mp ho).1
  · cases ho

theorem Request.EscapesByIndex.takesIndex {base path : Location} (hn : request.Names files root base path)
    (h : request.EscapesByIndex files root) : TakesIndex files path request := by
  obtain ⟨_, _, target, entries, content, hnames, hnode, hslash, htarget, -, hget, -⟩ := h
  obtain ⟨-, rfl⟩ := hn.unique hnames
  have hfile : files.node (indexPath path) = some (.file content) := by
    rw [node, htarget]
    exact hget
  exact ⟨⟨entries, hnode⟩, hslash, by rw [hfile]; rfl⟩

theorem TakesIndex.escapes_iff {base path target : Location} {content : Bytes}
    (h : TakesIndex files path request) (hn : request.Names files root base path)
    (htarget : files.canonicalize (indexPath path) = some target)
    (hcontent : files.root.get target = some (.file content)) :
    request.EscapesByIndex files root ↔
      ¬(content.length ≤ MAX_MASQUERADE_RESPONSE_SIZE → base <+: target) := by
  rw [Classical.not_imp]
  constructor
  · rintro ⟨_, _, other, _, bytes, hnames, -, -, hother, houtside, hbytes, hsize⟩
    obtain ⟨rfl, rfl⟩ := hn.unique hnames
    obtain rfl : target = other := Option.some.inj (htarget.symm.trans hother)
    obtain rfl : content = bytes := by simpa [hcontent] using hbytes
    exact ⟨hsize, houtside⟩
  · rintro ⟨hsize, houtside⟩
    obtain ⟨entries, hnode⟩ := h.directory
    exact ⟨base, path, target, entries, content, hn, hnode, h.slash, htarget, houtside, hcontent, hsize⟩

-- What is sent for a path in the root lies in the root, but for an index that leads out of it.
theorem confined_named {base path : Location} (h : request.Names files root base path) :
    (serveFile http files root request).Confined files root ↔
      ¬request.EscapesByIndex files root := by
  have hserve : (serveFile http files root request).opened = servePath files path request :=
    serveFile_named h
  by_cases hindex : TakesIndex files path request
  · obtain ⟨target, content, htarget, hcontent⟩ := node_file hindex.file
    rw [confined_index h (hserve.trans hindex.servePath) htarget hcontent,
      hindex.escapes_iff h htarget hcontent, not_not]
  · exact iff_of_true (confined_self h fun opened ho => servePath_self hindex (hserve ▸ ho))
      fun hescapes => hindex (hescapes.takesIndex h)

-- The masquerade leaves its root by such an index, and in no other way.
theorem serveFile_confined_iff (http : HttpCrate) (files : FileSystem) (root : Path)
    (request : Request) :
    (serveFile http files root request).Confined files root ↔
      ¬request.EscapesByIndex files root := by
  by_cases hnamed : ∃ base path, request.Names files root base path
  · obtain ⟨base, path, hnamed⟩ := hnamed
    exact confined_named hnamed
  · have hunnamed : ∀ base path, ¬request.Names files root base path :=
      fun base path hnames => hnamed ⟨base, path, hnames⟩
    refine iff_of_true (fun opened ho => ?_) ?_
    · rw [serveFile_unnamed hunnamed] at ho
      cases ho
    · rintro ⟨base, path, _, _, _, hnames, _⟩
      exact hunnamed base path hnames

end

-- A crate that admits everything, and a root whose index is a link out of it.
def leakyHttp : HttpCrate where
  headerName bytes := decode bytes
  admitsValue _ := true
  visible _ := true
  admitsStatus _ := true

def leakyFiles : FileSystem where
  entries := [(encode "secret", .file [1]),
    (encode "www", .directory [(encode "index.html", .symlink true [.name (encode "secret")])])]
  maxLinks := 40

def leakyRequest : Request where
  method := "GET"
  path := "/"
  query := none

theorem serveFile_not_confined :
    ¬(serveFile leakyHttp leakyFiles [.name (encode "www")] leakyRequest).Confined leakyFiles
      [.name (encode "www")] := by
  intro h
  obtain ⟨base, location, hbase, hlocation, hinside⟩ :=
    h [.name (encode "www"), .name (encode "index.html")] rfl
  obtain rfl : [encode "www"] = base := Option.some.inj hbase
  obtain rfl : [encode "secret"] = location := Option.some.inj hlocation
  revert hinside
  decide

example : safeRelativePath "/a/./%62//c/" = some [encode "a", encode "b", encode "c"] := by decide
example : safeRelativePath "/%2e%2e/secret" = none := by decide

end SingBox.Hysteria2
