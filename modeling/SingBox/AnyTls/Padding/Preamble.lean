import SingBox.AnyTls.Padding

namespace SingBox.AnyTls

open Library
open Utf8 (encode)

namespace PaddingScheme

-- What `parse` sees to for every range of a scheme.
def Bounded (scheme : PaddingScheme) : Prop :=
  ∀ index rules min max, scheme.rules index = some rules →
    PaddingInstruction.range min max ∈ rules → min ≤ max ∧ max ≤ MAX_PADDING_SIZE

theorem parseInstruction_bounded {part : List Char} {min max : Nat}
    (h : parseInstruction part = .ok (.range min max)) : min ≤ max ∧ max ≤ MAX_PADDING_SIZE := by
  unfold parseInstruction at h
  split at h
  · simp [pure, Except.pure] at h
  · obtain ⟨⟨low, high⟩, _, h⟩ := Result.bind_eq_ok.mp h
    obtain ⟨lower, _, h⟩ := Result.bind_eq_ok.mp h
    obtain ⟨upper, _, h⟩ := Result.bind_eq_ok.mp h
    obtain ⟨⟨⟩, hle, h⟩ := Result.bind_eq_ok.mp h
    obtain ⟨⟨⟩, hmax, h⟩ := Result.bind_eq_ok.mp h
    obtain ⟨rfl, rfl⟩ : lower = min ∧ upper = max := by simpa [pure, Except.pure] using h
    exact ⟨of_decide_eq_true (Result.ensure_eq_ok.mp hle),
      of_decide_eq_true (Result.ensure_eq_ok.mp hmax)⟩

-- An item leaves the text alone and adds at most one rule.
theorem parseItem_cases {scheme next : PaddingScheme} {item : List Char}
    (h : parseItem scheme item = .ok next) : next.source = scheme.source ∧
      (next.rules = scheme.rules ∨ ∃ index parts rules,
        List.mapM parseInstruction parts = .ok rules ∧
        next.rules = Function.update scheme.rules index (some rules)) := by
  unfold parseItem at h
  obtain ⟨⟨key, value⟩, _, h⟩ := Result.bind_eq_ok.mp h
  dsimp only at h
  split at h
  · obtain ⟨stop, _, h⟩ := Result.bind_eq_ok.mp h
    obtain rfl := Except.ok.inj h
    exact ⟨rfl, .inl rfl⟩
  · obtain ⟨index, _, h⟩ := Result.bind_eq_ok.mp h
    obtain ⟨rules, hrules, h⟩ := Result.bind_eq_ok.mp h
    obtain ⟨⟨⟩, _, h⟩ := Result.bind_eq_ok.mp h
    obtain rfl := Except.ok.inj h
    exact ⟨rfl, .inr ⟨index, _, rules, hrules, rfl⟩⟩

theorem parseItem_bounded {scheme next : PaddingScheme} {item : List Char}
    (hs : scheme.Bounded) (h : parseItem scheme item = .ok next) : next.Bounded := by
  intro index rules min max hrules hmem
  obtain ⟨_, heq | ⟨key, value, others, hparts, heq⟩⟩ := parseItem_cases h
  · rw [heq] at hrules
    exact hs index rules min max hrules hmem
  · rw [heq] at hrules
    by_cases hkey : index = key
    · subst hkey
      rw [Function.update_self] at hrules
      obtain rfl := Option.some.inj hrules
      obtain ⟨part, _, hpart⟩ := Result.mapM_mem hparts hmem
      exact parseInstruction_bounded hpart
    · rw [Function.update_of_ne hkey] at hrules
      exact hs index rules min max hrules hmem

-- The text a scheme is read from.
def sourceText (text : String) : String :=
  if (Text.trim text.toList).isEmpty then DEFAULT_PADDING_SCHEME else text

theorem parse_bounded {text : String} {scheme : PaddingScheme} (h : parse text = .ok scheme) :
    scheme.Bounded := by
  obtain ⟨parsed, hfold, h⟩ := Result.bind_eq_ok.mp h
  obtain ⟨⟨⟩, _, h⟩ := Result.bind_eq_ok.mp h
  obtain rfl := Except.ok.inj h
  refine Result.foldlM_rule _ (fun _ _ _ _ => parseItem_bounded) ?_ hfold
  intro index rules min max hrules
  cases hrules

theorem parse_source {text : String} {scheme : PaddingScheme} (h : parse text = .ok scheme) :
    scheme.source = sourceText text := by
  obtain ⟨parsed, hfold, h⟩ := Result.bind_eq_ok.mp h
  obtain ⟨⟨⟩, _, h⟩ := Result.bind_eq_ok.mp h
  obtain rfl := Except.ok.inj h
  have hstep : ∀ (state : PaddingScheme) item next, item ∈ Text.splitWhitespace (sourceText text).toList →
      state.source = sourceText text → parseItem state item = .ok next →
        next.source = sourceText text := by
    intro state item next _ hs hn
    rw [(parseItem_cases hn).1, hs]
  exact Result.foldlM_rule _ hstep rfl hfold

theorem authRange_bounded {scheme : PaddingScheme} {min max : Nat} (hs : scheme.Bounded)
    (h : scheme.authRange = some (min, max)) : min ≤ max ∧ max ≤ MAX_PADDING_SIZE := by
  obtain ⟨rules, hrules, hfind⟩ := Option.bind_eq_some_iff.mp h
  obtain ⟨instruction, hmem, hrange⟩ := List.exists_of_findSome?_eq_some hfind
  cases instruction with
  | check => cases hrange
  | range low high =>
      obtain ⟨rfl, rfl⟩ := Prod.mk.inj (Option.some.inj hrange)
      exact hs 0 rules _ _ hrules hmem

end PaddingScheme

theorem randomRange_le (random : Option UInt64) (min max : Nat) :
    randomRange random min max ≤ if min ≥ max then min else max - 1 := by
  unfold randomRange
  split
  · exact Nat.le_refl _
  · cases random with
    | none => show min ≤ max - 1; omega
    | some value =>
        show min + value.toNat % (max - min) ≤ max - 1
        have hmod : value.toNat % (max - min) < max - min := Nat.mod_lt _ (by omega)
        omega

-- Every value below the bound of a range is one that the generator may give.
theorem randomRange_reaches (min : Nat) {max : Nat} (h : max ≤ MAX_PADDING_SIZE) :
    ∃ random, randomRange random min max = if min ≥ max then min else max - 1 := by
  refine ⟨some (UInt64.ofNat (max - min - 1)), ?_⟩
  unfold randomRange
  split
  · rfl
  · show min + (UInt64.ofNat (max - min - 1)).toNat % (max - min) = max - 1
    have hword : (UInt64.ofNat (max - min - 1)).toNat = max - min - 1 :=
      UInt64.toNat_ofNat_of_lt (by simp only [MAX_PADDING_SIZE, UInt64.size] at h ⊢; omega)
    rw [hword, Nat.mod_eq_of_lt (by omega)]
    omega

namespace PaddingScheme

-- `connect_stream` sends a preamble with `random`, and `handle_inbound_connection` finds
-- the password's digest in it and leaves whatever follows unread.
def Usable (padding : PaddingScheme) (sha256 : Sha256) (password : String)
    (random : Option UInt64) : Prop :=
  ∃ auth, connectPreamble sha256 password padding random = .ok auth ∧
    auth.length ≤ 34 + 65535 ∧
    ∀ users rest, readPreamble users (auth ++ rest) =
      (Result.ofOption "AnyTLS authentication failed"
        (users (passwordDigest sha256 password))).map (·, rest)

-- The first range for the preamble, if there is one, has no value beyond 16 bits.
def AuthBounded (padding : PaddingScheme) : Prop :=
  ∀ min max, padding.authRange = some (min, max) →
    (if min ≥ max then min else max - 1) ≤ 65535

theorem readPreamble_eq (sha256 : Sha256) (password : String) {length : Nat}
    (h : length ≤ 65535) (users : Bytes → Option String) (rest : Bytes) :
    readPreamble users
        (passwordDigest sha256 password ++ toBe 2 length ++ List.replicate length 0 ++ rest) =
      (Result.ofOption "AnyTLS authentication failed"
        (users (passwordDigest sha256 password))).map (·, rest) := by
  have hdigest : Decoder.Reads (Decoder.exact EARLY_EOF 32) (passwordDigest sha256 password)
      (passwordDigest sha256 password) := by
    have hread := Decoder.Reads.exact EARLY_EOF (passwordDigest sha256 password)
    rwa [passwordDigest, (sha256 (encode password)).2] at hread
  have hlength : Decoder.Reads (Decoder.exact EARLY_EOF 2) (toBe 2 length) (toBe 2 length) := by
    have hread := Decoder.Reads.exact EARLY_EOF (toBe 2 length)
    rwa [toBe_length] at hread
  have hpadding : Decoder.Reads (Decoder.exact EARLY_EOF (ofBe (toBe 2 length)))
      (List.replicate length 0) (List.replicate length 0) := by
    have hread := Decoder.Reads.exact EARLY_EOF (List.replicate length 0)
    rw [ofBe_toBe 2 length (by omega)]
    rwa [List.length_replicate] at hread
  rw [List.append_assoc, List.append_assoc, readPreamble, hdigest.bind_apply, Decoder.bind_apply]
  cases users (passwordDigest sha256 password) with
  | none => rfl
  | some user =>
      show (Decoder.exact EARLY_EOF 2 >>= fun paddingLen =>
        Decoder.exact EARLY_EOF (ofBe paddingLen) >>= fun _ => pure user)
          (toBe 2 length ++ (List.replicate length 0 ++ rest)) = .ok (user, rest)
      rw [hlength.bind_apply, hpadding.bind_apply]
      rfl

-- The length that is announced, which is never zero.
def sentPadding (padding : PaddingScheme) (random : Option UInt64) : Nat :=
  if padding.authPaddingLen random = 0 then AUTH_PADDING else padding.authPaddingLen random

theorem usable_iff_sent (padding : PaddingScheme) (sha256 : Sha256) (password : String)
    (random : Option UInt64) :
    padding.Usable sha256 password random ↔ padding.sentPadding random ≤ 65535 := by
  have hpreamble : connectPreamble sha256 password padding random =
      Result.ensure (padding.sentPadding random ≤ 65535)
        "AnyTLS authentication padding is too large" >>= fun _ =>
        .ok (passwordDigest sha256 password ++ toBe 2 (padding.sentPadding random) ++
          List.replicate (padding.sentPadding random) 0) := rfl
  constructor
  · rintro ⟨auth, hauth, _⟩
    obtain ⟨⟨⟩, hle, _⟩ := Result.bind_eq_ok.mp (hpreamble ▸ hauth)
    exact of_decide_eq_true (Result.ensure_eq_ok.mp hle)
  · intro hle
    refine ⟨_, ?_, ?_, readPreamble_eq sha256 password hle⟩
    · rw [hpreamble, Result.ensure_eq_ok.mpr (decide_eq_true hle)]
      rfl
    · simp only [List.length_append, passwordDigest, (sha256 (encode password)).2, toBe_length,
        List.length_replicate]
      omega

theorem usable_iff {text : String} {scheme : PaddingScheme} (h : parse text = .ok scheme)
    (sha256 : Sha256) (password : String) :
    (∀ random, scheme.Usable sha256 password random) ↔ scheme.AuthBounded := by
  simp only [usable_iff_sent]
  constructor
  · intro hsent min max hrange
    have hbound := (authRange_bounded (parse_bounded h) hrange).2
    obtain ⟨random, hdraw⟩ := randomRange_reaches min hbound
    have hlen : scheme.authPaddingLen random = if min ≥ max then min else max - 1 := by
      rw [authPaddingLen, hrange]
      exact hdraw
    have hle := hsent random
    rw [sentPadding, hlen] at hle
    by_cases hzero : (if min ≥ max then min else max - 1) = 0
    · rw [hzero]
      exact Nat.zero_le _
    · rwa [if_neg hzero] at hle
  · intro hauth random
    have hlen : scheme.authPaddingLen random ≤ 65535 := by
      cases hrange : scheme.authRange with
      | none =>
          rw [authPaddingLen, hrange]
          exact Nat.zero_le _
      | some range =>
          rw [authPaddingLen, hrange]
          exact Nat.le_trans (randomRange_le random _ _) (hauth range.1 range.2 hrange)
    unfold sentPadding
    split
    · decide
    · exact hlen

theorem usable_iff_thirty :
    (∀ random, (PaddingScheme.mk 8 (Function.update (fun _ => none) 0 (some [.range 30 30]))
      "0=30-30").Usable (fun _ => ⟨List.replicate 32 0, rfl⟩) "" random) ↔
    (PaddingScheme.mk 8 (Function.update (fun _ => none) 0 (some [.range 30 30]))
      "0=30-30").AuthBounded :=
  @usable_iff "0=30-30" _ rfl _ _

-- A length of 70000 is allowed by `parse`, but does not fit the preamble.
theorem not_usable : ¬ ∀ text scheme, parse text = .ok scheme →
    ∀ (sha256 : Sha256) password random, scheme.Usable sha256 password random := by
  intro h
  have hparse : parse "0=70000-70000" = .ok
      { stop := 8, source := "0=70000-70000",
        rules := Function.update (fun _ => none) 0 (some [.range 70000 70000]) } := by
    rfl
  have husable := h _ _ hparse (fun _ => ⟨List.replicate 32 0, rfl⟩) "" none
  exact absurd ((usable_iff_sent _ _ _ _).mp husable) (by decide)

end PaddingScheme

end SingBox.AnyTls
