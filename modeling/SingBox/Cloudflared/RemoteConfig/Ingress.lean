import Mathlib.Data.Bool.AllAny
import SingBox.Cloudflared.RemoteConfig

namespace SingBox.Cloudflared

open Library SingBox.Core

def OPERATORS : List Char := ".^$*+?()[]\x7b\x7d|\\".toList

-- A path pattern without operators between its anchors.
inductive PathPattern where
  | any
  | startsWith (path : List Char)
  | equals (path : List Char)
deriving DecidableEq

namespace PathPattern

def text : PathPattern → List Char
  | any => []
  | startsWith path => '^' :: path
  | equals path => '^' :: (path ++ ['$'])

def Literal : PathPattern → Prop
  | any => True
  | startsWith path => ∀ char ∈ path, char ∉ OPERATORS
  | equals path => ∀ char ∈ path, char ∉ OPERATORS

def Holds (requestPath : List Char) : PathPattern → Prop
  | any => True
  | startsWith path => path <+: requestPath
  | equals path => requestPath = path

-- What the store has no test for: the pattern ends where the request's path goes on.
def Overruns (requestPath : List Char) : PathPattern → Prop
  | equals path => path <+: requestPath ∧ path ≠ requestPath
  | _ => False

end PathPattern

-- A hostname of a rule against the lower-case host of a request.
inductive HostHolds (host : String) : String → Prop where
  | empty : HostHolds host ""
  | star : HostHolds host "*"
  | exact (hostname : String) (h : toAsciiLowercase hostname = host) : HostHolds host hostname
  | wildcard (hostname suffix : String) (hname : hostname.toList = '*' :: '.' :: suffix.toList)
      (h : '.' :: (toAsciiLowercase suffix).toList <:+ host.toList) : HostHolds host hostname

section

variable (parseUri : String → Result Uri) (state : RemoteConfigState) (request : ConnectRequest)
  (uri : Uri) (pattern : RemoteIngressRule → PathPattern)

def RuleHolds (rule : RemoteIngressRule) : Prop :=
  HostHolds (requestHost request uri) rule.hostname ∧ (pattern rule).Holds uri.path.toList

-- The paths of the rules are honoured, and with them the order of the rules.
structure HonoursPaths : Prop where
  path : ∀ rule ∈ state.ingress,
    rule.pathMatches uri.path = true ↔ (pattern rule).Holds uri.path.toList
  selects : ∀ (before : List RemoteIngressRule) (rule : RemoteIngressRule)
    (after : List RemoteIngressRule), state.ingress = before ++ rule :: after →
      (∀ earlier ∈ before, ¬RuleHolds request uri pattern earlier) →
        RuleHolds request uri pattern rule →
          ingressRule state request uri = some rule ∧
            resolveRemoteRequest parseUri state request = applyRule parseUri rule request uri
  fails : resolveRemoteRequest parseUri state request =
      Result.bail "no Cloudflared ingress rule matched request" ↔
    ∀ rule ∈ state.ingress, ¬RuleHolds request uri pattern rule

end

theorem requestHost_lower (request : ConnectRequest) (uri : Uri) :
    ∃ name, requestHost request uri = toAsciiLowercase name := by
  have hnormal (value : String) : ∃ name, normalizeHost value = toAsciiLowercase name := by
    unfold normalizeHost
    split
    · exact ⟨_, rfl⟩
    · split
      · split
        · exact ⟨_, rfl⟩
        · exact ⟨_, rfl⟩
      · exact ⟨_, rfl⟩
  unfold requestHost
  cases request.metadataValue "HttpHost" <|> uri.authority.map Authority.host with
  | none => exact ⟨"", rfl⟩
  | some value => exact hnormal value

theorem toAsciiLowercase_toList (value : String) :
    (toAsciiLowercase value).toList = value.toList.map Char.toLower := by
  rw [toAsciiLowercase, String.toList_ofList]

-- The marks of a hostname pattern are no letters.
theorem toLower_eq_iff (mark : Char) (h : mark.toNat < 97) (hmark : mark.toLower = mark)
    (char : Char) : char.toLower = mark ↔ char = mark := by
  constructor
  · intro hlower
    by_cases hupper : 'A'.val ≤ char.val ∧ char.val ≤ 'Z'.val
    · have hval : char.toLower.toNat = char.toNat + 32 := by
        have hle : char.val.toNat ≤ 90 := hupper.2
        have hlow : char.toLower = ⟨char.val + ('a'.val - 'A'.val), _⟩ := dif_pos hupper
        rw [hlow]
        change (char.val + ('a'.val - 'A'.val)).toNat = char.val.toNat + 32
        rw [UInt32.toNat_add]
        change (char.val.toNat + 32) % 2 ^ 32 = _
        omega
      have hge : 65 ≤ char.toNat := hupper.1
      rw [hlower] at hval
      omega
    · have hsame : char.toLower = char := dif_neg hupper
      exact hsame.symm.trans hlower
  · rintro rfl
    exact hmark

theorem toAsciiLowercase_eq_star (hostname : String) :
    toAsciiLowercase hostname = "*" ↔ hostname = "*" := by
  rw [← String.toList_inj, ← String.toList_inj, toAsciiLowercase_toList]
  change hostname.toList.map Char.toLower = ['*'] ↔ hostname.toList = ['*']
  cases hostname.toList with
  | nil => simp
  | cons char rest =>
      have hstar := toLower_eq_iff '*' (by decide) (by decide) char
      simp [hstar]

theorem toAsciiLowercase_eq_empty (hostname : String) :
    toAsciiLowercase hostname = "" ↔ hostname = "" := by
  rw [← String.toList_inj, ← String.toList_inj, toAsciiLowercase_toList]
  exact List.map_eq_nil_iff

theorem wildcard_iff (hostname : String) (host : List Char) :
    (("*.".toList.isPrefixOf (toAsciiLowercase hostname).toList &&
        ((toAsciiLowercase hostname).toList.drop 1).isSuffixOf host) = true) ↔
      ∃ suffix : String, hostname.toList = '*' :: '.' :: suffix.toList ∧
        '.' :: (toAsciiLowercase suffix).toList <:+ host := by
  have hstar := toLower_eq_iff '*' (by decide) (by decide)
  have hdot := toLower_eq_iff '.' (by decide) (by decide)
  rw [Bool.and_eq_true, List.isPrefixOf_iff_prefix, List.isSuffixOf_iff_suffix,
    toAsciiLowercase_toList]
  constructor
  · rintro ⟨⟨lower, hlower⟩, hsuffix⟩
    obtain ⟨first, rest, hfirst, hone, hrest⟩ := List.map_eq_cons_iff.mp hlower.symm
    obtain ⟨second, suffix, hsecond, htwo, hsuffixText⟩ := List.map_eq_cons_iff.mp hrest
    obtain rfl := (hstar first).mp hone
    obtain rfl := (hdot second).mp htwo
    refine ⟨String.ofList suffix, ?_, ?_⟩
    · rw [hfirst, hsecond, String.toList_ofList]
    · rw [toAsciiLowercase_toList, String.toList_ofList, hsuffixText]
      rw [← hlower] at hsuffix
      exact hsuffix
  · rintro ⟨suffix, hname, hsuffix⟩
    rw [toAsciiLowercase_toList] at hsuffix
    rw [hname]
    exact ⟨⟨suffix.toList.map Char.toLower, rfl⟩, hsuffix⟩

theorem hostMatches_iff (rule : RemoteIngressRule) (host : String) :
    rule.hostMatches host = true ↔ HostHolds host rule.hostname := by
  simp only [RemoteIngressRule.hostMatches, Bool.or_eq_true, beq_iff_eq, wildcard_iff,
    toAsciiLowercase_eq_star, toAsciiLowercase_eq_empty]
  constructor
  · rintro (((hempty | hstar) | hexact) | ⟨suffix, hname, hsuffix⟩)
    · exact hempty ▸ .empty
    · exact hstar ▸ .star
    · exact .exact _ hexact
    · exact .wildcard _ suffix hname hsuffix
  · intro hholds
    generalize rule.hostname = hostname at hholds ⊢
    cases hholds with
    | empty => exact .inl (.inl (.inl rfl))
    | star => exact .inl (.inl (.inr rfl))
    | exact _ hexact => exact .inl (.inr hexact)
    | wildcard _ suffix hname hsuffix => exact .inr ⟨suffix, hname, hsuffix⟩

-- The anchors are trimmed off a literal path, and nothing else is.
theorem trimmed_path {path : List Char} (h : ∀ char ∈ path, char ∉ OPERATORS) :
    ((('^' :: path).dropWhile (· = '^')).rdropWhile (· = '$') = path) ∧
      (('^' :: (path ++ ['$'])).dropWhile (· = '^')).rdropWhile (· = '$') = path := by
  have hcaret : '^' ∈ OPERATORS := by decide
  have hdollar : '$' ∈ OPERATORS := by decide
  have hend : path.rdropWhile (· = '$') = path := by
    rw [List.rdropWhile_eq_self_iff]
    intro hne hlast
    exact h _ (List.getLast_mem hne) (of_decide_eq_true hlast ▸ hdollar)
  have hstart (tail : List Char) (htail : tail.head? ≠ some '^') :
      ('^' :: (path ++ tail)).dropWhile (· = '^') = path ++ tail := by
    cases path with
    | nil =>
        cases tail with
        | nil => rfl
        | cons char tail =>
            have hne : char ≠ '^' := fun he => htail (he ▸ rfl)
            simp [hne]
    | cons char path =>
        have hne : char ≠ '^' := fun he => h char List.mem_cons_self (he ▸ hcaret)
        simp [hne]
  constructor
  · have hempty := hstart [] (by decide)
    rw [List.append_nil] at hempty
    rw [hempty, hend]
  · rw [hstart ['$'] (by decide), List.rdropWhile_concat_pos _ _ _ (by decide), hend]

-- The code's test is the test of the beginning for both anchored forms.
theorem pathMatches_iff {pattern : PathPattern} (hliteral : pattern.Literal)
    {rule : RemoteIngressRule} (hrule : rule.path.toList = pattern.text) (requestPath : String) :
    rule.pathMatches requestPath = true ↔
      pattern.Holds requestPath.toList ∨ pattern.Overruns requestPath.toList := by
  unfold RemoteIngressRule.pathMatches
  rw [hrule]
  cases pattern with
  | any => simp [PathPattern.text, PathPattern.Holds]
  | startsWith path =>
      simp only [PathPattern.text, (trimmed_path hliteral).1, Bool.or_eq_true,
        List.isPrefixOf_iff_prefix, List.isEmpty_iff, PathPattern.Holds, PathPattern.Overruns, or_false]
      constructor
      · rintro (rfl | hstarts)
        · exact List.nil_prefix
        · exact hstarts
      · exact .inr
  | equals path =>
      simp only [PathPattern.text, (trimmed_path hliteral).2, Bool.or_eq_true,
        List.isPrefixOf_iff_prefix, List.isEmpty_iff, PathPattern.Holds, PathPattern.Overruns]
      constructor
      · intro hmatches
        have hstarts : path <+: requestPath.toList := by
          obtain rfl | hstarts := hmatches
          · exact List.nil_prefix
          · exact hstarts
        by_cases hall : path = requestPath.toList
        · exact .inl hall.symm
        · exact .inr ⟨hstarts, hall⟩
      · rintro (hall | ⟨hstarts, -⟩)
        · exact .inr (hall ▸ List.prefix_rfl)
        · exact .inr hstarts

theorem resolve_eq {parseUri : String → Result Uri} {state : RemoteConfigState}
    {request : ConnectRequest} {uri : Uri} (hne : state.ingress ≠ [])
    (hparse : parseUri request.destination = .ok uri) :
    resolveRemoteRequest parseUri state request =
      match ingressRule state request uri with
      | some rule => applyRule parseUri rule request uri
      | none => Result.bail "no Cloudflared ingress rule matched request" := by
  have hsome : ¬state.ingress.isEmpty = true := mt List.isEmpty_iff.mp hne
  rw [resolveRemoteRequest, if_neg hsome, hparse]
  change (Result.ofOption "no Cloudflared ingress rule matched request"
    (ingressRule state request uri) >>= fun rule => applyRule parseUri rule request uri) = _
  cases ingressRule state request uri with
  | none => rfl
  | some rule => rfl

-- What a rule that was found can fail with is another error.
theorem applyRule_ne_none (parseUri : String → Result Uri) (rule : RemoteIngressRule)
    (request : ConnectRequest) (uri : Uri) :
    applyRule parseUri rule request uri ≠
      Result.bail "no Cloudflared ingress rule matched request" := by
  intro hfails
  unfold applyRule at hfails
  split at hfails
  · obtain hstatus | ⟨status, -, hvalue⟩ := Result.bind_eq_error.mp hfails
    · obtain ⟨_, -, hchain⟩ := Result.withContext_eq_error.mp hstatus
      exact absurd (List.cons.inj hchain).1 (by decide)
    · cases hvalue
  · obtain hservice | ⟨service, -, hrest⟩ := Result.bind_eq_error.mp hfails
    · obtain ⟨_, -, hchain⟩ := Result.withContext_eq_error.mp hservice
      exact absurd (List.cons.inj hchain).1 (by decide)
    · obtain hensured | ⟨_, -, hvalue⟩ := Result.bind_eq_error.mp hrest
      · obtain ⟨-, hchain⟩ := Result.ensure_eq_error.mp hensured
        exact absurd (List.cons.inj hchain).1 (by decide)
      · cases hvalue

section

variable {parseUri : String → Result Uri} {state : RemoteConfigState} {request : ConnectRequest}
  {uri : Uri} {pattern : RemoteIngressRule → PathPattern}

theorem honours_paths_iff (hne : state.ingress ≠ [])
    (hpattern : ∀ rule ∈ state.ingress,
      (pattern rule).Literal ∧ rule.path.toList = (pattern rule).text)
    (hparse : parseUri request.destination = .ok uri) :
    HonoursPaths parseUri state request uri pattern ↔
      ∀ rule ∈ state.ingress, ¬(pattern rule).Overruns uri.path.toList := by
  have hmatches (rule : RemoteIngressRule) (hrule : rule ∈ state.ingress) :=
    pathMatches_iff (hpattern rule hrule).1 (hpattern rule hrule).2 uri.path
  constructor
  · intro hhonours rule hrule hoverruns
    have hholds := (hhonours.path rule hrule).mp ((hmatches rule hrule).mpr (.inr hoverruns))
    cases hpath : pattern rule with
    | any => rw [hpath] at hoverruns; exact hoverruns
    | startsWith path => rw [hpath] at hoverruns; exact hoverruns
    | equals path =>
        rw [hpath] at hholds hoverruns
        exact hoverruns.2 hholds.symm
  · intro hnone
    have hpath (rule : RemoteIngressRule) (hrule : rule ∈ state.ingress) :
        rule.pathMatches uri.path = true ↔ (pattern rule).Holds uri.path.toList := by
      rw [hmatches rule hrule]
      exact or_iff_left (hnone rule hrule)
    have htest (rule : RemoteIngressRule) (hrule : rule ∈ state.ingress) :
        (rule.hostMatches (requestHost request uri) && rule.pathMatches uri.path) = true ↔
          RuleHolds request uri pattern rule := by
      rw [Bool.and_eq_true, hostMatches_iff, hpath rule hrule]
      rfl
    have hfirst (before after : List RemoteIngressRule) (rule : RemoteIngressRule)
        (hsplit : state.ingress = before ++ rule :: after)
        (hearlier : ∀ earlier ∈ before, ¬RuleHolds request uri pattern earlier)
        (hholds : RuleHolds request uri pattern rule) :
        ingressRule state request uri = some rule := by
      have hmem : rule ∈ state.ingress := hsplit ▸ List.mem_append_right _ List.mem_cons_self
      refine List.find?_eq_some_iff_append.mpr ⟨(htest rule hmem).mpr hholds, before, after, hsplit, ?_⟩
      intro earlier hin
      have hin' : earlier ∈ state.ingress := hsplit ▸ List.mem_append_left _ hin
      rw [Bool.not_eq_true', ← Bool.not_eq_true, htest earlier hin']
      exact hearlier earlier hin
    refine ⟨hpath, ?_, ?_⟩
    · intro before rule after hsplit hearlier hholds
      have hfound := hfirst before after rule hsplit hearlier hholds
      exact ⟨hfound, by rw [resolve_eq hne hparse, hfound]⟩
    · constructor
      · intro hfails rule hrule hholds
        cases hfound : ingressRule state request uri with
        | none =>
            have hnot := List.find?_eq_none.mp hfound rule hrule
            exact hnot ((htest rule hrule).mpr hholds)
        | some found =>
            rw [resolve_eq hne hparse, hfound] at hfails
            exact applyRule_ne_none parseUri found request uri hfails
      · intro hall
        have hnone : ingressRule state request uri = none :=
          List.find?_eq_none.mpr fun rule hrule hfound =>
            hall rule hrule ((htest rule hrule).mp hfound)
        rw [resolve_eq hne hparse, hnone]

end

def ADMIN_RULES : List RemoteIngressRule :=
  [{ path := "^/admin$", service := "http_status:403" }, { service := "http://127.0.0.1:8080" }]

def adminPattern (rule : RemoteIngressRule) : PathPattern :=
  if rule.path = "^/admin$" then .equals "/admin".toList else .any

def ADMIN_STATE : RemoteConfigState := { version := 1, ingress := ADMIN_RULES }

def ADMIN_REQUEST : ConnectRequest where
  destination := "http://www.example.com/admin/users"
  connectionType := .http
  metadata := []

def adminUri (path : String) : Uri where
  scheme := some "http"
  authority := some { text := "www.example.com", host := "www.example.com", port := none }
  pathAndQuery := some path
  path := path

theorem admin_literal : ∀ rule ∈ ADMIN_RULES,
    (adminPattern rule).Literal ∧ rule.path.toList = (adminPattern rule).text := by
  have hplain : ∀ char ∈ "/admin".toList, char ∉ OPERATORS :=
    List.all_iff_forall_prop.mp (by decide)
  intro rule hrule
  obtain rfl | hrest := List.mem_cons.mp hrule
  · exact ⟨hplain, rfl⟩
  · obtain rfl := List.mem_singleton.mp hrest
    exact ⟨trivial, rfl⟩

-- The rule for one path takes a request for another below it.
theorem not_honours_paths :
    ¬∀ (parseUri : String → Result Uri) (state : RemoteConfigState) (request : ConnectRequest)
      (uri : Uri) (pattern : RemoteIngressRule → PathPattern), state.ingress ≠ [] →
        (∀ rule ∈ state.ingress, (pattern rule).Literal ∧ rule.path.toList = (pattern rule).text) →
          parseUri request.destination = .ok uri →
            HonoursPaths parseUri state request uri pattern := by
  intro hall
  have hhonours := hall (fun _ => .ok (adminUri "/admin/users")) ADMIN_STATE ADMIN_REQUEST
    (adminUri "/admin/users") adminPattern (by decide) admin_literal rfl
  have hpath : "/admin/users".toList = "/admin".toList :=
    (hhonours.path _ List.mem_cons_self).mp (by decide)
  exact absurd hpath (by decide)

theorem honours_paths_admin :
    HonoursPaths (fun _ => .ok (adminUri "/admin")) ADMIN_STATE ADMIN_REQUEST (adminUri "/admin")
      adminPattern ∧
    ¬HonoursPaths (fun _ => .ok (adminUri "/admin/users")) ADMIN_STATE ADMIN_REQUEST
      (adminUri "/admin/users") adminPattern := by
  constructor
  · refine (honours_paths_iff (by decide) admin_literal rfl).mpr ?_
    intro rule hrule hoverruns
    obtain rfl | hrest := List.mem_cons.mp hrule
    · exact hoverruns.2 rfl
    · obtain rfl := List.mem_singleton.mp hrest
      exact hoverruns
  · intro hhonours
    have hnone := (honours_paths_iff (by decide) admin_literal rfl).mp hhonours _ List.mem_cons_self
    exact hnone ⟨⟨"/users".toList, rfl⟩, by decide⟩

end SingBox.Cloudflared
